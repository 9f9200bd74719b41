import UckSmp.Membership.Table

/-!
# Three misses before death

The failure detector of `uck_heartbeat_thread` counts the heartbeats that a node has missed in `missed_heartbeats`. A
heartbeat sets the counter back; an announcement brings the node to life with the counter as it was, and a departure
leaves the mark of a suspect. Beside the table, the ticks are counted that found a node overdue since it was last heard
of.

* `Tracked.step`: while announcements and departures find nothing to set back, the counter is that number.
* `three_misses`: then no node is declared dead before the third miss, and no dead node is a suspect.
-/

namespace UckSmp.Membership

open Lib.Transition

variable {interval : UInt64} {s t : Table} {i : Nat}

/-! ## Statement -/

/-- The misses of each entry since the last contact, after one more step. -/
def countMisses (interval : UInt64) (s : Table) (ev : Event) (_ : Table) (misses : Nat → Nat) : Nat → Nat :=
  match ev with
  | .addNode _ => misses
  | .check i now =>
    if s.nodes[i]?.any (fun x => Table.Overdue interval now x) then Function.update misses i (misses i + 1) else misses
  | .message m admitted _ =>
    if s.Dispatches m admitted then match s.contact m with
      | some i => Function.update misses i 0
      | none => misses
    else misses

/-- A tick that declares a node dead is at least the third that found it overdue since the last contact. -/
def ThreeMisses (interval : UInt64) (p : Table × (Nat → Nat)) (ev : Event) : Prop :=
  ∀ (j : Nat) (now : UInt64) (i : Nat) (x y : NodeEntry) (t : Table), ev = .check j now →
    p.1.nodes[i]? = some x → x.alive = true → step interval p.1 ev = some t → t.nodes[i]? = some y →
      y.alive = false → 3 ≤ countMisses interval p.1 ev t p.2 i

/-- No node that is not alive is marked suspect. -/
def NoDeadSuspect (s : Table) : Prop := ∀ x ∈ s.nodes, x.alive = false → x.suspect = false

/-- What a payload that reaches its handler may be: not an announcement of a node that has missed heartbeats, nor the
departure of a suspect. -/
def Table.Settles (s : Table) (src : UInt32) : Body → Prop
  | .announce id epoch => ¬ s.Stale epoch → ∀ x ∈ s.entryOf id, x.missedHeartbeats = 0
  | .leave => ∀ x ∈ s.entryOf src, x.suspect = false
  | .heartbeat _ _ => True
  | .other => True

instance (s : Table) (src : UInt32) : DecidablePred (s.Settles src)
  | .announce id epoch =>
    inferInstanceAs (Decidable (¬ s.Stale epoch → ∀ x ∈ s.entryOf id, x.missedHeartbeats = 0))
  | .leave => inferInstanceAs (Decidable (∀ x ∈ s.entryOf src, x.suspect = false))
  | .heartbeat _ _ => .isTrue trivial
  | .other => .isTrue trivial

/-- Announcements and departures find nothing to set back. -/
def Settled (s : Table) : Event → Prop
  | .message m admitted _ => s.Dispatches m admitted → s.Settles m.srcNode m.body
  | .addNode _ => True
  | .check _ _ => True

instance (s : Table) : DecidablePred (Settled s)
  | .message m admitted _ => inferInstanceAs (Decidable (s.Dispatches m admitted → s.Settles m.srcNode m.body))
  | .addNode _ => .isTrue trivial
  | .check _ _ => .isTrue trivial

/-! ## The invariant -/

/-- The counter of a living node is the number of its misses, and no dead node is a suspect. -/
structure Tracked (s : Table) (misses : Nat → Nat) : Prop where
  missed : ∀ {i x}, s.nodes[i]? = some x → x.alive = true → x.missedHeartbeats.toNat = misses i ∧ misses i ≤ 2
  /-- Entries that do not exist have missed nothing. -/
  fresh : ∀ {i}, s.nodes.length ≤ i → misses i = 0
  suspect : NoDeadSuspect s

namespace Tracked

variable {misses : Nat → Nat}

theorem init : Tracked init fun _ => 0 :=
  ⟨fun h => by simp [Membership.init] at h, fun _ => rfl, fun x hx => by simp [Membership.init] at hx⟩

/-- The epoch does not matter. -/
theorem raise (h : Tracked s misses) : Tracked { s with clusterEpoch := s.clusterEpoch + 1 } misses :=
  ⟨h.missed, h.fresh, h.suspect⟩

/-- One entry changes, and the number of its misses becomes `v`. -/
theorem update (h : Tracked s misses) {x : NodeEntry} (hx : s.nodes[i]? = some x) {f : NodeEntry → NodeEntry}
    {v : Nat} (hm : (f x).alive = true → (f x).missedHeartbeats.toNat = v ∧ v ≤ 2)
    (hs : (f x).alive = false → (f x).suspect = false) :
    Tracked (s.update i f) (Function.update misses i v) := by
  have hi := (List.getElem?_eq_some_iff.1 hx).1
  refine ⟨fun {j y} hy ha => ?_, fun {j} hj => ?_, fun y hy ha => ?_⟩
  · rw [getElem?_update] at hy
    by_cases hij : i = j
    · subst hij
      rw [if_pos rfl, hx] at hy
      obtain rfl := Option.some.inj hy
      rw [Function.update_self]
      exact hm ha
    · rw [if_neg hij] at hy
      rw [Function.update_of_ne (Ne.symm hij)]
      exact h.missed hy ha
  · have hlen : (s.update i f).nodes.length = s.nodes.length := List.length_modify ..
    rw [hlen] at hj
    rw [Function.update_of_ne (by omega)]
    exact h.fresh hj
  · obtain ⟨j, hj⟩ := List.mem_iff_getElem?.1 hy
    rw [getElem?_update] at hj
    by_cases hij : i = j
    · subst hij
      rw [if_pos rfl, hx] at hj
      obtain rfl := Option.some.inj hj
      exact hs ha
    · rw [if_neg hij] at hj
      exact h.suspect y (List.mem_of_getElem? hj) ha

/-- A node is added that has missed nothing. -/
theorem add (h : Tracked s misses) {x : NodeEntry} (hm : x.missedHeartbeats = 0) (hs : x.suspect = false) :
    Tracked (s.uckAddRemoteNode x) misses := by
  unfold Table.uckAddRemoteNode
  split
  · refine ⟨fun {j y} hy ha => ?_, fun {j} hj => h.fresh ?_, fun y hy ha => ?_⟩
    · rw [List.getElem?_append] at hy
      split at hy
      · exact h.missed hy ha
      · rename_i hj
        obtain rfl := List.mem_singleton.1 (List.mem_of_getElem? hy)
        rw [hm, h.fresh (Nat.not_lt.1 hj)]
        exact ⟨rfl, Nat.zero_le _⟩
    · rw [List.length_append, List.length_singleton] at hj
      omega
    · rcases List.mem_append.1 hy with hy | hy
      · exact h.suspect y hy ha
      · rw [List.mem_singleton.1 hy]
        exact hs
  · exact h

end Tracked

theorem toNat_missed_succ {x : NodeEntry} (h : x.missedHeartbeats.toNat ≤ 2) :
    (x.missedHeartbeats + 1).toNat = x.missedHeartbeats.toNat + 1 := by
  rw [UInt32.toNat_add]
  have h1 : (1 : UInt32).toNat = 1 := rfl
  omega

/-- The third miss is the one that loses the node. -/
theorem lost_iff {x : NodeEntry} (h : x.missedHeartbeats.toNat ≤ 2) :
    Table.Lost x ↔ x.missedHeartbeats.toNat = 2 := by
  have hsucc := toNat_missed_succ h
  have h1 : (1 : UInt32).toNat = 1 := rfl
  have h3 : (3 : UInt32).toNat = 3 := rfl
  unfold Table.Lost
  rw [ne_eq, ← UInt32.toNat_inj, UInt32.le_iff_toNat_le, hsucc, h1, h3]
  omega

theorem countMisses_check {misses : Nat → Nat} {x : NodeEntry} {now : UInt64} (hx : s.nodes[i]? = some x)
    (ho : Table.Overdue interval now x) (t : Table) :
    countMisses interval s (.check i now) t misses = Function.update misses i (misses i + 1) := by
  simp [countMisses, hx, ho]

theorem countMisses_contact {misses : Nat → Nat} {m : Message} (hd : s.Dispatches m true) (hc : s.contact m = some i)
    (now : UInt64) (t : Table) :
    countMisses interval s (.message m true now) t misses = Function.update misses i 0 := by
  simp [countMisses, hd, hc]

theorem countMisses_none {misses : Nat → Nat} {m : Message} (hc : s.contact m = none) (admitted : Bool) (now : UInt64)
    (t : Table) : countMisses interval s (.message m admitted now) t misses = misses := by
  simp [countMisses, hc]

/-- The steps. -/
theorem Tracked.step {misses : Nat → Nat} {ev : Event} (h : Tracked s misses) (hg : Settled s ev)
    (hs : Membership.step interval s ev = some t) : Tracked t (countMisses interval s ev t misses) := by
  cases Step.of_step hs with
  | addNode id => exact h.add rfl rfl
  | @inTime i now hin =>
    have hsame : countMisses interval s (.check i now) s misses = misses := by
      cases hx : s.nodes[i]? with
      | none => simp [countMisses, hx]
      | some x => simp [countMisses, hx, hin x hx]
    rw [hsame]
    exact h
  | @miss i now x hx ho hl =>
    rw [countMisses_check hx ho]
    obtain ⟨hm, hle⟩ := h.missed hx ho.1
    have hlost := (lost_iff (by omega)).not.1 hl
    refine h.update hx (fun _ => ?_) fun ha => ?_
    · have hsucc := toNat_missed_succ (x := x) (by omega)
      change (x.missedHeartbeats + 1).toNat = _ ∧ _
      omega
    · exact absurd (ho.1.symm.trans ha) Bool.noConfusion
  | @death i now x hx ho hl =>
    rw [countMisses_check hx ho]
    exact h.raise.update hx Bool.noConfusion fun _ => rfl
  | @dropped m admitted now hd =>
    have hsame : countMisses interval s (.message m admitted now) s misses = misses := if_neg hd
    rw [hsame]
    exact h
  | ignored now hd hc =>
    rw [countMisses_none hc]
    exact h
  | @heartbeat m id i now hd hm hi =>
    obtain ⟨x, hx, -⟩ := exists_of_slotOf hi
    have hc : s.contact m = some i := by simp [Table.contact, hm, hi]
    rw [countMisses_contact hd hc]
    exact h.update hx (fun _ => ⟨rfl, Nat.zero_le _⟩) fun _ => rfl
  | @announce m id epoch i now hd hm hst hi =>
    obtain ⟨x, hx, hentry⟩ := exists_of_slotOf hi
    have hc : s.contact m = some i := by simp [Table.contact, hm, hst, hi]
    rw [countMisses_contact hd hc]
    have hb := hg hd
    rw [hm] at hb
    have h0 : x.missedHeartbeats = 0 := hb hst x hentry
    refine h.update hx (fun _ => ?_) Bool.noConfusion
    change x.missedHeartbeats.toNat = 0 ∧ _
    rw [h0]
    exact ⟨rfl, Nat.zero_le _⟩
  | @join m id epoch now hd hm hst hi =>
    rw [countMisses_none (by simp [Table.contact, hm, hi])]
    exact h.add rfl rfl
  | @leave m i now hd hm hi =>
    obtain ⟨x, hx, hentry⟩ := exists_of_slotOf hi
    rw [countMisses_none (by simp [Table.contact, hm])]
    have hb := hg hd
    rw [hm] at hb
    have hsus : x.suspect = false := hb x hentry
    have hup := h.raise.update (i := i) (f := Table.onLeave (s.clusterEpoch + 1)) (v := misses i) hx Bool.noConfusion
      fun _ => hsus
    rwa [Function.update_eq_self] at hup
  | leaveUnknown now hd hm =>
    rw [countMisses_none (by simp [Table.contact, hm])]
    exact h.raise

/-- A node is declared dead at its third miss. -/
theorem Tracked.threeMisses {misses : Nat → Nat} (h : Tracked s misses) (ev : Event) :
    ThreeMisses interval (s, misses) ev := by
  rintro j now i x y t rfl hx halive hs hy hdead
  have hne : y ≠ x := by
    rintro rfl
    rw [halive] at hdead
    cases hdead
  cases Step.of_step hs with
  | inTime => exact absurd (Option.some.inj (hy.symm.trans hx)) hne
  | miss =>
    obtain ⟨-, rfl⟩ := (getElem?_update_cases hx hy).resolve_right hne
    exact absurd (halive.symm.trans hdead) Bool.noConfusion
  | death hx' ho hl =>
    obtain ⟨rfl, -⟩ :=
      (getElem?_update_cases (s := { s with clusterEpoch := s.clusterEpoch + 1 }) hx hy).resolve_right hne
    obtain rfl := Option.some.inj (hx.symm.trans hx')
    obtain ⟨hm, hle⟩ := h.missed hx halive
    have htwo := (lost_iff (by omega)).1 hl
    rw [countMisses_check hx ho, Function.update_self]
    change 3 ≤ misses _ + 1
    omega

/-! ## Runs -/

/-- **Three misses before death**, in every run in which nodes announce themselves only with no heartbeat missed and
leave only when they are not suspects; and no dead node is a suspect. -/
theorem three_misses (interval : UInt64) (es : List Event) (h : EachStep (step interval) Settled init es) :
    EachStep (observe (step interval) (countMisses interval)) (ThreeMisses interval) (init, fun _ => 0) es ∧
      Always (observe (step interval) (countMisses interval)) (fun p => NoDeadSuspect p.1) (init, fun _ => 0) es := by
  have hg := (eachStep_observe (countMisses interval) fun _ => 0).2 h
  have hstep : ∀ p ev q, Tracked p.1 p.2 → Settled p.1 ev →
      observe (step interval) (countMisses interval) p ev = some q → Tracked q.1 q.2 := by
    intro p ev q hp hset hq
    obtain ⟨hs, hm⟩ := observe_eq_some hq
    rw [hm]
    exact hp.step hset hs
  exact ⟨EachStep.of_inv (fun p => Tracked p.1 p.2) hstep (fun _ ev hp _ => hp.threeMisses ev) .init hg,
    Always.of_eachStep (fun p => Tracked p.1 p.2) hstep (fun _ hp => hp.suspect) .init hg⟩

/-- A node is added, sends a heartbeat and then none for three intervals of 500 ticks. -/
def silentNode : List Event :=
  [.addNode 7, .message ⟨7, 0, .heartbeat 7 true, 1⟩ true 0, .check 0 501, .check 0 1002, .check 0 1503]

theorem silent_node_three_misses :
    (∃ s, run (step 500) init silentNode = some s ∧ (s.nodes.map (·.alive)) = [false]) ∧
    EachStep (observe (step 500) (countMisses 500)) (ThreeMisses 500) (init, fun _ => 0) silentNode :=
  ⟨⟨_, rfl, by decide⟩, (three_misses 500 silentNode (by decide)).1⟩

/-- The node announces itself again, and the first heartbeat that it misses after that is taken for its fourth. -/
theorem rejoined_node_lost_at_once :
    ∃ p q, run (observe (step 500) (countMisses 500)) (init, fun _ => 0)
        (silentNode ++ [.message ⟨7, 0, .announce 7 0, 2⟩ true 1600]) = some p ∧
      p.1.nodes.map (fun x => (x.alive, x.missedHeartbeats)) = [(true, 3)] ∧
      observe (step 500) (countMisses 500) p (.check 0 2101) = some q ∧ q.1.nodes.map (·.alive) = [false] ∧
      q.2 0 = 1 ∧ ¬ ThreeMisses 500 p (.check 0 2101) := by
  refine ⟨_, _, rfl, by decide, rfl, by decide, by decide, fun h => ?_⟩
  have hthree := h 0 2101 0 _ _ _ rfl rfl rfl rfl rfl rfl
  exact absurd hthree (by decide)

end UckSmp.Membership
