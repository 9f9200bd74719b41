import Mathlib.Algebra.Ring.Nat
import UckSmp.Membership.Quorum
import UckSmp.Membership.Table

/-!
# A node that hears nothing

How long the failure detector of `uck_heartbeat_thread` takes, and what a node does that is cut off from all others. The
counter of missed heartbeats has 32 bits and is not set back when a node is announced again, so it can stand anywhere
when the silence begins.

* `alive_iff_few_checks`: a node that is not heard of stays alive for exactly `checksLeft` checks that find it overdue:
  three when its counter was set back, fewer when it was not, and four when the counter is about to wrap.
* `isolated_degrades`: a node that hears nothing has no living peer after as many checks of each, and the next
  `uck_quorum_check` puts it into degraded mode.
-/

namespace UckSmp.Membership

open Lib.Transition

/-! ## Statement -/

/-- A check of the `i`-th node that finds its heartbeat, last received at `last`, overdue. -/
def IsOverdueCheck (interval : UInt64) (i : Nat) (last : UInt64) : Event → Prop
  | .check j now => j = i ∧ timeAfter now (last + interval) = true
  | .addNode _ => False
  | .message _ _ _ => False

instance (interval : UInt64) (i : Nat) (last : UInt64) : DecidablePred (IsOverdueCheck interval i last)
  | .check j now => inferInstanceAs (Decidable (j = i ∧ timeAfter now (last + interval) = true))
  | .addNode _ => .isFalse id
  | .message _ _ _ => .isFalse id

def overdueChecks (interval : UInt64) (i : Nat) (last : UInt64) (es : List Event) : Nat :=
  es.countP fun ev => IsOverdueCheck interval i last ev

/-- The checks that a living node survives, and the one that loses it. -/
def NodeEntry.checksLeft (x : NodeEntry) : Nat :=
  if x.missedHeartbeats.toNat = 2 ^ 32 - 1 then 4 else max 1 (3 - x.missedHeartbeats.toNat)

/-- No message shows the `i`-th node to be there. -/
def Unheard (i : Nat) (s : Table) : Event → Prop
  | .message m admitted _ => s.Dispatches m admitted → s.contact m ≠ some i
  | .addNode _ => True
  | .check _ _ => True

instance (i : Nat) (s : Table) : DecidablePred (Unheard i s)
  | .message m admitted _ => inferInstanceAs (Decidable (s.Dispatches m admitted → s.contact m ≠ some i))
  | .addNode _ => .isTrue trivial
  | .check _ _ => .isTrue trivial

/-- The `i`-th node does not leave. -/
def Stays (i : Nat) (s : Table) : Event → Prop
  | .message m admitted _ => s.Dispatches m admitted → m.body = .leave → s.slotOf m.srcNode ≠ some i
  | .addNode _ => True
  | .check _ _ => True

instance (i : Nat) (s : Table) : DecidablePred (Stays i s)
  | .message m admitted _ =>
    inferInstanceAs (Decidable (s.Dispatches m admitted → m.body = .leave → s.slotOf m.srcNode ≠ some i))
  | .addNode _ => .isTrue trivial
  | .check _ _ => .isTrue trivial

/-- No heartbeat and no announcement reaches its handler. -/
def Silent (s : Table) : Event → Prop
  | .message m admitted _ => s.Dispatches m admitted → m.body = .leave ∨ m.body = .other
  | .addNode _ => True
  | .check _ _ => True

instance (s : Table) : DecidablePred (Silent s)
  | .message m admitted _ => inferInstanceAs (Decidable (s.Dispatches m admitted → m.body = .leave ∨ m.body = .other))
  | .addNode _ => .isTrue trivial
  | .check _ _ => .isTrue trivial

/-! ## One step -/

/-- What becomes of the entry of a node that is not heard of. -/
inductive EntryStep (interval : UInt64) (i : Nat) (s : Table) (x : NodeEntry) : Event → NodeEntry → Prop
  | same {ev : Event} (h : x.alive = true → ¬ IsOverdueCheck interval i x.lastHeartbeat ev) :
      EntryStep interval i s x ev x
  | miss {now : UInt64} (ho : Table.Overdue interval now x) (hl : ¬ Table.Lost x) :
      EntryStep interval i s x (.check i now) (Table.onMiss x)
  | death {now : UInt64} (epoch : UInt32) (ho : Table.Overdue interval now x) (hl : Table.Lost x) :
      EntryStep interval i s x (.check i now) (Table.onDeath epoch x)
  | leave {m : Message} {now : UInt64} (epoch : UInt32) (hd : s.Dispatches m true) (hm : m.body = .leave)
      (hi : s.slotOf m.srcNode = some i) : EntryStep interval i s x (.message m true now) (Table.onLeave epoch x)

section Step

variable {interval : UInt64} {i : Nat} {s t : Table} {ev : Event} {x y : NodeEntry}

theorem getElem?_add_of_some {z : NodeEntry} (hx : s.nodes[i]? = some x) :
    (s.uckAddRemoteNode z).nodes[i]? = some x := by
  have hlt := (List.getElem?_eq_some_iff.1 hx).1
  unfold Table.uckAddRemoteNode
  split
  · rw [List.getElem?_append_left hlt, hx]
  · exact hx

theorem getElem?_update_ne {j : Nat} {f : NodeEntry → NodeEntry} (hne : j ≠ i) (hx : s.nodes[i]? = some x) :
    (s.update j f).nodes[i]? = some x := by
  rw [getElem?_update, if_neg hne, hx]

theorem getElem?_update_self {f : NodeEntry → NodeEntry} (hx : s.nodes[i]? = some x) :
    (s.update i f).nodes[i]? = some (f x) := by
  rw [getElem?_update, if_pos rfl, hx, Option.map_some]

theorem entry_step (hx : s.nodes[i]? = some x) (hu : Unheard i s ev) (hs : step interval s ev = some t) :
    ∃ y, t.nodes[i]? = some y ∧ EntryStep interval i s x ev y := by
  cases Step.of_step hs with
  | addNode id => exact ⟨x, getElem?_add_of_some hx, .same fun _ h => h⟩
  | @inTime j now hin =>
    refine ⟨x, hx, .same fun halive ⟨hj, hnow⟩ => ?_⟩
    subst hj
    exact hin x hx ⟨halive, hnow⟩
  | @miss j now z hz ho hl =>
    by_cases hj : j = i
    · subst hj
      obtain rfl := Option.some.inj (hx.symm.trans hz)
      exact ⟨_, getElem?_update_self hx, .miss ho hl⟩
    · exact ⟨x, getElem?_update_ne hj hx, .same fun _ h => hj h.1⟩
  | @death j now z hz ho hl =>
    by_cases hj : j = i
    · subst hj
      obtain rfl := Option.some.inj (hx.symm.trans hz)
      exact ⟨_, getElem?_update_self hx, .death _ ho hl⟩
    · exact ⟨x, getElem?_update_ne hj hx, .same fun _ h => hj h.1⟩
  | dropped => exact ⟨x, hx, .same fun _ h => h⟩
  | ignored => exact ⟨x, hx, .same fun _ h => h⟩
  | @heartbeat m id j now hd hm hj =>
    have hne : j ≠ i := by
      rintro rfl
      exact hu hd (by simp [Table.contact, hm, hj])
    exact ⟨x, getElem?_update_ne hne hx, .same fun _ h => h⟩
  | @announce m id epoch j now hd hm hst hj =>
    have hne : j ≠ i := by
      rintro rfl
      exact hu hd (by simp [Table.contact, hm, hst, hj])
    exact ⟨x, getElem?_update_ne hne hx, .same fun _ h => h⟩
  | join => exact ⟨x, getElem?_add_of_some hx, .same fun _ h => h⟩
  | @leave m j now hd hm hj =>
    by_cases hji : j = i
    · subst hji
      exact ⟨_, getElem?_update_self hx, .leave _ hd hm hj⟩
    · exact ⟨x, getElem?_update_ne hji hx, .same fun _ h => h⟩
  | leaveUnknown => exact ⟨x, hx, .same fun _ h => h⟩

/-- The check that loses a node is the last one it had left. -/
theorem lost_iff_checksLeft : Table.Lost x ↔ x.checksLeft = 1 := by
  have hlt := x.missedHeartbeats.toNat_lt
  have h1 : (1 : UInt32).toNat = 1 := rfl
  have h3 : (3 : UInt32).toNat = 3 := rfl
  unfold Table.Lost NodeEntry.checksLeft
  rw [ne_eq, ← UInt32.toNat_inj, UInt32.le_iff_toNat_le, UInt32.toNat_add, h1, h3]
  split <;> omega

theorem checksLeft_onMiss (hl : ¬ Table.Lost x) : (Table.onMiss x).checksLeft + 1 = x.checksLeft := by
  have hlt := x.missedHeartbeats.toNat_lt
  have hsum : (Table.onMiss x).missedHeartbeats.toNat = (x.missedHeartbeats.toNat + 1) % 2 ^ 32 := by
    show (x.missedHeartbeats + 1).toNat = _
    rw [UInt32.toNat_add]
    rfl
  rw [lost_iff_checksLeft] at hl
  unfold NodeEntry.checksLeft at hl ⊢
  rw [hsum]
  split at hl <;> split <;> omega

theorem one_le_checksLeft (x : NodeEntry) : 1 ≤ x.checksLeft := by
  unfold NodeEntry.checksLeft
  split <;> omega

theorem EntryStep.lastHeartbeat (h : EntryStep interval i s x ev y) : y.lastHeartbeat = x.lastHeartbeat := by
  cases h <;> rfl

/-- A dead node that is not heard of stays dead. -/
theorem EntryStep.dead (h : EntryStep interval i s x ev y) (hdead : x.alive = false) : y.alive = false := by
  cases h with
  | same => exact hdead
  | miss ho => exact hdead
  | death => rfl
  | leave => rfl

/-- The checks that a node has left, after a step that it survives. -/
theorem EntryStep.survived (h : EntryStep interval i s x ev y) (halive : y.alive = true) :
    x.alive = true ∧ (if IsOverdueCheck interval i x.lastHeartbeat ev then 1 else 0) + y.checksLeft = x.checksLeft := by
  cases h with
  | same hno => exact ⟨halive, by rw [if_neg (hno halive), Nat.zero_add]⟩
  | miss ho hl => exact ⟨halive, by rw [if_pos ⟨rfl, ho.2⟩, Nat.add_comm, checksLeft_onMiss hl]⟩
  | death => cases halive
  | leave => cases halive

/-- A living node that does not leave is lost by its last check only. -/
theorem EntryStep.lost (h : EntryStep interval i s x ev y) (hstays : Stays i s ev) (halive : x.alive = true)
    (hdead : y.alive = false) : IsOverdueCheck interval i x.lastHeartbeat ev ∧ x.checksLeft = 1 := by
  cases h with
  | same => rw [halive] at hdead; cases hdead
  | miss => exact absurd (halive.symm.trans hdead) Bool.noConfusion
  | death epoch ho hl => exact ⟨⟨rfl, ho.2⟩, lost_iff_checksLeft.1 hl⟩
  | leave epoch hd hm hi => exact absurd hi (hstays hd hm)

end Step

/-! ## Runs -/

section Runs

variable {interval : UInt64} {i : Nat} {s t : Table} {es : List Event} {x y : NodeEntry}

theorem overdueChecks_cons (ev : Event) (last : UInt64) : overdueChecks interval i last (ev :: es) =
    (if IsOverdueCheck interval i last ev then 1 else 0) + overdueChecks interval i last es := by
  rw [overdueChecks, List.countP_cons, overdueChecks, Nat.add_comm]
  simp only [decide_eq_true_eq]

theorem run_dead (hx : s.nodes[i]? = some x) (hdead : x.alive = false)
    (hu : EachStep (step interval) (Unheard i) s es) (hr : run (step interval) s es = some t) :
    ∃ y, t.nodes[i]? = some y ∧ y.alive = false := by
  induction es generalizing s x with
  | nil =>
    cases hr
    exact ⟨x, hx, hdead⟩
  | cons ev es ih =>
    simp only [run, Option.bind_eq_some_iff] at hr
    obtain ⟨u, hu', hr⟩ := hr
    obtain ⟨z, hz, hstep⟩ := entry_step hx hu.1 hu'
    exact ih hz (hstep.dead hdead) (hu.2 u hu') hr

/-- A node that is still alive had checks left. -/
theorem run_alive (hx : s.nodes[i]? = some x) (hu : EachStep (step interval) (Unheard i) s es)
    (hr : run (step interval) s es = some t) (hy : t.nodes[i]? = some y) (halive : y.alive = true) :
    overdueChecks interval i x.lastHeartbeat es < x.checksLeft := by
  induction es generalizing s x with
  | nil =>
    have hpos := one_le_checksLeft x
    simp only [overdueChecks, List.countP_nil]
    omega
  | cons ev es ih =>
    simp only [run, Option.bind_eq_some_iff] at hr
    obtain ⟨u, hu', hr⟩ := hr
    obtain ⟨z, hz, hstep⟩ := entry_step hx hu.1 hu'
    have hzalive : z.alive = true := by
      cases hz' : z.alive with
      | true => rfl
      | false =>
        obtain ⟨y', hy', hdead⟩ := run_dead hz hz' (hu.2 u hu') hr
        rw [Option.some.inj (hy.symm.trans hy'), hdead] at halive
        cases halive
    have hrest := ih hz (hu.2 u hu') hr
    obtain ⟨-, hleft⟩ := hstep.survived hzalive
    rw [hstep.lastHeartbeat] at hrest
    rw [overdueChecks_cons]
    omega

/-- **The failure detector is exact** about a node that was alive and of which nothing is heard: it is alive as long as
fewer checks than it had left have found its last heartbeat overdue. -/
theorem alive_iff_few_checks (hx : s.nodes[i]? = some x) (halive : x.alive = true)
    (hu : EachStep (step interval) (Unheard i) s es) (hstays : EachStep (step interval) (Stays i) s es)
    (hr : run (step interval) s es = some t) : ∃ y, t.nodes[i]? = some y ∧
      (y.alive = true ↔ overdueChecks interval i x.lastHeartbeat es < x.checksLeft) := by
  induction es generalizing s x with
  | nil =>
    cases hr
    have hpos := one_le_checksLeft x
    refine ⟨x, hx, fun _ => ?_, fun _ => halive⟩
    simp only [overdueChecks, List.countP_nil]
    omega
  | cons ev es ih =>
    simp only [run, Option.bind_eq_some_iff] at hr
    obtain ⟨u, hu', hr⟩ := hr
    obtain ⟨z, hz, hstep⟩ := entry_step hx hu.1 hu'
    cases hz' : z.alive with
    | true =>
      obtain ⟨y, hy, hiff⟩ := ih hz hz' (hu.2 u hu') (hstays.2 u hu') hr
      obtain ⟨-, hleft⟩ := hstep.survived hz'
      rw [hstep.lastHeartbeat] at hiff
      refine ⟨y, hy, hiff.trans ?_⟩
      rw [overdueChecks_cons]
      omega
    | false =>
      obtain ⟨y, hy, hdead⟩ := run_dead hz hz' (hu.2 u hu') hr
      obtain ⟨hcheck, hone⟩ := hstep.lost hstays.1 halive hz'
      refine ⟨y, hy, fun h => ?_, fun h => ?_⟩
      · rw [hdead] at h
        cases h
      · rw [overdueChecks_cons, if_pos hcheck, hone] at h
        omega

/-- Two nodes that sent a heartbeat each. -/
def twoPeers : Table := ⟨[{ nodeId := 7, alive := true }, { nodeId := 9, alive := true, lastHeartbeat := 100 }], 1⟩

/-- The first one is checked twice. -/
def twoChecks : List Event := [.check 0 501, .check 1 501, .check 0 1002]

theorem twoChecks_survived : ∃ t y, run (step 500) twoPeers twoChecks = some t ∧ t.nodes[0]? = some y ∧
    (y.alive = true ↔ overdueChecks 500 0 0 twoChecks < 3) := by
  obtain ⟨t, ht⟩ := Option.isSome_iff_exists.1 (show (run (step 500) twoPeers twoChecks).isSome by decide)
  obtain ⟨y, hy, hiff⟩ :=
    alive_iff_few_checks (i := 0) (x := { nodeId := 7, alive := true }) rfl rfl (by decide) (by decide) ht
  exact ⟨t, y, ht, hy, hiff⟩

/-! ## Isolation -/

theorem Silent.unheard {ev : Event} (h : Silent s ev) (i : Nat) : Unheard i s ev := by
  cases ev with
  | addNode id => trivial
  | check j now => trivial
  | message m admitted now =>
    intro hd
    rcases h hd with hm | hm
    · simp [Table.contact, hm]
    · simp [Table.contact, hm]

theorem unheard_of_silent (h : EachStep (step interval) Silent s es) (i : Nat) :
    EachStep (step interval) (Unheard i) s es :=
  EachStep.of_inv (fun _ => True) (fun _ _ _ _ _ _ => trivial) (fun _ _ _ hg => hg.unheard i) trivial h

/-- A node that is added in the silence is not alive. -/
theorem added_step {ev : Event} (hnone : s.nodes[i]? = none) (h : Silent s ev) (hs : step interval s ev = some t)
    (hy : t.nodes[i]? = some y) : y.alive = false := by
  have hupdate : ∀ (u : Table) (j : Nat) (f : NodeEntry → NodeEntry), u.nodes[i]? = none →
      (u.update j f).nodes[i]? = some y → False := by
    intro u j f hu hy
    rw [getElem?_update, hu] at hy
    split at hy <;> cases hy
  have hsame : s.nodes[i]? = some y → False := by
    intro hy
    rw [hnone] at hy
    cases hy
  cases Step.of_step hs with
  | addNode id =>
    unfold Table.uckAddRemoteNode at hy
    split at hy
    · rcases List.mem_append.1 (List.mem_of_getElem? hy) with hmem | hmem
      · -- the entries that were there are below the new one
        have hlen := List.getElem?_eq_none_iff.1 hnone
        rw [List.getElem?_append_right hlen] at hy
        rw [List.mem_singleton.1 (List.mem_of_getElem? hy)]
      · rw [List.mem_singleton.1 hmem]
    · exact (hsame hy).elim
  | inTime => exact (hsame hy).elim
  | miss => exact (hupdate _ _ _ hnone hy).elim
  | death => exact (hupdate _ _ _ hnone hy).elim
  | dropped => exact (hsame hy).elim
  | ignored => exact (hsame hy).elim
  | heartbeat now hd hm => rcases h hd with hb | hb <;> simp [hm] at hb
  | announce now hd hm => rcases h hd with hb | hb <;> simp [hm] at hb
  | join now hd hm => rcases h hd with hb | hb <;> simp [hm] at hb
  | leave => exact (hupdate _ _ _ hnone hy).elim
  | leaveUnknown => exact (hsame hy).elim

theorem run_added (hnone : s.nodes[i]? = none) (h : EachStep (step interval) Silent s es)
    (hr : run (step interval) s es = some t) (hy : t.nodes[i]? = some y) : y.alive = false := by
  induction es generalizing s with
  | nil =>
    cases hr
    rw [hnone] at hy
    cases hy
  | cons ev es ih =>
    simp only [run, Option.bind_eq_some_iff] at hr
    obtain ⟨u, hu, hr⟩ := hr
    cases hz : u.nodes[i]? with
    | none => exact ih hz (h.2 u hu) hr
    | some z =>
      obtain ⟨y', hy', hdead⟩ := run_dead hz (added_step hnone h.1 hu hz) (unheard_of_silent (h.2 u hu) i) hr
      rwa [Option.some.inj (hy.symm.trans hy')]

/-- **A node that is cut off notices**: when nothing has been heard for as many checks of each node as it had left, no
node is alive, and the next check of the quorum finds the node degraded if it has any peer at all. -/
theorem isolated_degrades (h : EachStep (step interval) Silent s es) (hr : run (step interval) s es = some t)
    (hchecks : ∀ i x, s.nodes[i]? = some x → x.alive = true →
      x.checksLeft ≤ overdueChecks interval i x.lastHeartbeat es) (q : Quorum) :
    (∀ y ∈ t.nodes, y.alive = false) ∧ ((uckQuorumCheck t.nodes q).degraded = true ↔ t.nodes ≠ []) := by
  have hdead : ∀ y ∈ t.nodes, y.alive = false := by
    intro y hy
    obtain ⟨i, hi⟩ := List.mem_iff_getElem?.1 hy
    cases hx : s.nodes[i]? with
    | none => exact run_added hx h hr hi
    | some x =>
      cases halive : x.alive with
      | false =>
        obtain ⟨y', hy', hdead⟩ := run_dead hx halive (unheard_of_silent h i) hr
        rwa [Option.some.inj (hi.symm.trans hy')]
      | true =>
        by_contra hy'
        have hfew := run_alive hx (unheard_of_silent h i) hr hi (Bool.not_eq_false _ ▸ hy')
        have hmany := hchecks i x hx halive
        omega
  refine ⟨hdead, ?_⟩
  have hcount : aliveCount t.nodes = 1 := by
    rw [aliveCount, List.countP_eq_zero.2 fun y hy => by simp [hdead y hy]]
  have hquorum := uckQuorumCheck_degraded_eq_false_iff t.nodes q
  rw [hcount] at hquorum
  rw [← Bool.not_eq_false, hquorum, ← List.length_pos_iff]
  omega

/-- Four rounds of the heartbeat thread; the first one does not find the second node overdue. -/
def fourRounds : List Event :=
  [.check 0 501, .check 1 501, .check 0 1002, .check 1 1002, .check 0 1503, .check 1 1503, .check 0 2004, .check 1 2004]

theorem twoPeers_isolated : (run (step 500) twoPeers fourRounds).isSome ∧
    ∀ t, run (step 500) twoPeers fourRounds = some t →
      (∀ y ∈ t.nodes, y.alive = false) ∧ ((uckQuorumCheck t.nodes {}).degraded = true ↔ t.nodes ≠ []) := by
  refine ⟨by decide, fun t ht => isolated_degrades (by decide) ht (fun i x hx _ => ?_) {}⟩
  rcases i with _ | _ | i
  · obtain rfl := Option.some.inj hx
    decide
  · obtain rfl := Option.some.inj hx
    decide
  · cases hx

end Runs

end UckSmp.Membership
