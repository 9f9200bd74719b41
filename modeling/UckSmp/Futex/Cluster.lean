import Mathlib.Algebra.BigOperators.Group.List.Basic
import Mathlib.Algebra.Ring.Nat
import Mathlib.Data.Finset.Card
import UckSmp.Futex.Waiters
import UckSmp.Membership.Table

/-!
# One wake in the cluster

`uck_futex_op` with `UCK_FUTEX_WAKE` wakes on the calling node and sends the number that was asked for, as it is, to
every node that is alive in its table; each of them wakes up to that number on its own, in any order and with any other
futex activity in between. What the call has done so far is tallied: the waiters that it marked, and how many waiters on
the address each handling found.

* `Spread`: when the handlings together keep to the number.
* `one_wake_bounded`: the call marks waiters of its address only, and no more than asked for just if `Spread`.
-/

namespace UckSmp.Futex

open Lib.Transition

/-! ## Sums of bounded numbers -/

section Sums

variable {n : Nat} {l : List Nat}

theorem sum_min_le (l : List Nat) (n : Nat) : (l.map (min n)).sum ≤ l.sum := by
  induction l with
  | nil => exact Nat.le_refl _
  | cons x l ih =>
    rw [List.map_cons, List.sum_cons, List.sum_cons]
    omega

theorem sum_min_le_mul (l : List Nat) (n : Nat) : (l.map (min n)).sum ≤ n * l.countP (0 < ·) := by
  induction l with
  | nil => simp
  | cons x l ih =>
    rw [List.map_cons, List.sum_cons, List.countP_cons]
    split
    · rw [Nat.mul_add]
      omega
    · rename_i hx
      have hx : x = 0 := by simpa using hx
      rw [hx, Nat.mul_add]
      omega

/-- What stays below the bound was not cut. -/
theorem sum_min_eq_of_lt (h : (l.map (min n)).sum < n) : (l.map (min n)).sum = l.sum := by
  induction l with
  | nil => rfl
  | cons x l ih =>
    rw [List.map_cons, List.sum_cons] at h ⊢
    rw [List.sum_cons, ih (by omega)]
    omega

theorem countP_pos_of_sum_min_eq_zero (hn : 0 < n) (h : (l.map (min n)).sum = 0) : l.countP (0 < ·) = 0 := by
  induction l with
  | nil => rfl
  | cons x l ih =>
    rw [List.map_cons, List.sum_cons] at h
    have hx : x = 0 := by omega
    rw [hx, List.countP_cons_of_neg (by simp), ih (by omega)]

/-- Numbers that are cut at `n` each, and at one for `n = 0`, add up to at most `n` exactly if they do so uncut, or if
all but one of them are zero. -/
theorem sum_min_le_iff (l : List Nat) (n : Nat) :
    (l.map (min (max n 1))).sum ≤ n ↔ l.sum ≤ n ∨ (0 < n ∧ l.countP (0 < ·) ≤ 1) := by
  constructor
  · intro h
    by_cases hn : 0 < n
    · rw [Nat.max_eq_left hn] at h
      induction l with
      | nil => exact .inl (Nat.zero_le _)
      | cons x l ih =>
        rw [List.map_cons, List.sum_cons] at h
        by_cases hl : (l.map (min n)).sum = 0
        · refine .inr ⟨hn, ?_⟩
          rw [List.countP_cons, countP_pos_of_sum_min_eq_zero hn hl]
          split <;> omega
        · by_cases hx : x = 0
          · rw [hx, List.sum_cons, List.countP_cons_of_neg (by simp), Nat.zero_add]
            exact ih (by omega)
          · -- both parts are below the bound, so that neither was cut
            have heq := sum_min_eq_of_lt (l := l) (n := n) (by omega)
            rw [List.sum_cons]
            omega
    · have h0 : n = 0 := by omega
      subst h0
      refine .inl ?_
      rw [← sum_min_eq_of_lt (n := 1) (Nat.lt_of_le_of_lt h Nat.one_pos)]
      exact h
  · rintro (h | ⟨hn, h⟩)
    · exact (sum_min_le l _).trans h
    · rw [Nat.max_eq_left hn]
      exact (sum_min_le_mul l n).trans (by simpa using Nat.mul_le_mul_left n h)

end Sums

/-! ## The call -/

/-- The futex tables of all nodes, and the `FUTEX_WAKE` messages of the call that are under way, by their receivers. -/
structure Cluster where
  nodes : UInt32 → Node
  flight : List UInt32

/-- What the call has done. -/
structure Tally where
  /-- The waiters that were marked, with their nodes. -/
  marks : List (UInt32 × Waiter) := []
  /-- How many waiters on the address each handling found. -/
  found : List Nat := []

/-- `uck_futex_wake_remote`: the receivers, by the entries of the node table as the loop finds them. -/
def uckFutexWakeRemote (view : List Membership.NodeEntry) : List UInt32 := (view.filter (·.alive)).map (·.nodeId)

/-- The loop runs on one node. -/
def Cluster.wakeOn (a : FutexAddr) (nr : UInt32) (nodes : UInt32 → Node) (n : UInt32) : UInt32 → Node :=
  Function.update nodes n ((nodes n).uckFutexWakeLocal a nr)

/-- What that adds to the tally. -/
def Tally.add (a : FutexAddr) (nr : UInt32) (nodes : UInt32 → Node) (n : UInt32) (y : Tally) : Tally where
  marks := ((nodes n).marked a nr).map (n, ·) ++ y.marks
  found := (nodes n).table.countP (·.addr = a) :: y.found

inductive ClusterEvent
  /-- A message arrives at a node and `uck_handle_futex_wake` runs. -/
  | deliver (n : UInt32)
  /-- It cannot be sent, or is dropped. -/
  | lose (n : UInt32)
  /-- Other activity on a node. -/
  | other (n : UInt32) (ev : Event)
  deriving DecidableEq, Repr

namespace Cluster

/-- One step. There is only one wake, so that the other activity is that of waits. -/
def step (a : FutexAddr) (nr : UInt32) (c : Cluster) : ClusterEvent → Option Cluster
  | .deliver n => if n ∈ c.flight then some ⟨wakeOn a nr c.nodes n, c.flight.erase n⟩ else none
  | .lose n => if n ∈ c.flight then some ⟨c.nodes, c.flight.erase n⟩ else none
  | .other _ (.wake _ _) => none
  | .other n ev => (Futex.step (c.nodes n) ev).map fun t => { c with nodes := Function.update c.nodes n t }

def tally (a : FutexAddr) (nr : UInt32) (c : Cluster) (ev : ClusterEvent) (_ : Cluster) (y : Tally) : Tally :=
  match ev with
  | .deliver n => y.add a nr c.nodes n
  | .lose _ => y
  | .other _ _ => y

/-- `uck_futex_op` with `UCK_FUTEX_WAKE` on the node `self`: the local wake is done, and the messages are out. -/
def uckFutexOp (self : UInt32) (view : List Membership.NodeEntry) (nodes : UInt32 → Node) (a : FutexAddr)
    (nr : UInt32) : Cluster × Tally :=
  (⟨wakeOn a nr nodes self, uckFutexWakeRemote view⟩, Tally.add a nr nodes self {})

end Cluster

/-! ## Statement -/

/-- The waiters that were marked, each by its node and its number. -/
def Tally.whom (y : Tally) : Finset (UInt32 × Nat) := (y.marks.map fun m => (m.1, m.2.id)).toFinset

/-- The handlings found at most as many waiters as are to be woken, or all of them on one node. -/
def Tally.Spread (nr : UInt32) (y : Tally) : Prop :=
  y.found.sum ≤ nr.toNat ∨ (0 < nr.toNat ∧ y.found.countP (0 < ·) ≤ 1)

instance (nr : UInt32) (y : Tally) : Decidable (y.Spread nr) := inferInstanceAs (Decidable (_ ∨ _))

/-- A waiter has its flag only if it had it before the call, or is on the address and was marked by the call. -/
def Accounted (a : FutexAddr) (before after : UInt32 → Node) (y : Tally) : Prop :=
  ∀ n, ∀ w ∈ (after n).table, w.woken = true →
    (∃ v ∈ (before n).table, v.id = w.id ∧ v.addr = w.addr ∧ v.woken = true) ∨ (w.addr = a ∧ (n, w.id) ∈ y.whom)

/-! ## Steps -/

variable {a : FutexAddr} {nr : UInt32} {c d : Cluster} {y : Tally} {before nodes : UInt32 → Node} {n : UInt32}
  {s t : Node}

namespace Cluster

inductive Step (a : FutexAddr) (nr : UInt32) (c : Cluster) (y : Tally) : ClusterEvent → Cluster → Tally → Prop
  | deliver {n : UInt32} (h : n ∈ c.flight) :
      Step a nr c y (.deliver n) ⟨wakeOn a nr c.nodes n, c.flight.erase n⟩ (y.add a nr c.nodes n)
  | lose (n : UInt32) : Step a nr c y (.lose n) ⟨c.nodes, c.flight.erase n⟩ y
  | other {n : UInt32} {ev : Event} {t : Node} (hev : ∀ b k, ev ≠ .wake b k) (h : Futex.step (c.nodes n) ev = some t) :
      Step a nr c y (.other n ev) { c with nodes := Function.update c.nodes n t } y

theorem Step.of_step {ev : ClusterEvent} {p q : Cluster × Tally} (h : observe (step a nr) (tally a nr) p ev = some q) :
    Step a nr p.1 p.2 ev q.1 q.2 := by
  obtain ⟨hs, hy⟩ := observe_eq_some h
  rw [hy]
  cases ev with
  | deliver n =>
    simp only [step, Option.ite_none_right_eq_some, Option.some.injEq] at hs
    obtain ⟨hn, hq⟩ := hs
    rw [← hq]
    exact .deliver hn
  | lose n =>
    simp only [step, Option.ite_none_right_eq_some, Option.some.injEq] at hs
    rw [← hs.2]
    exact .lose n
  | other n ev =>
    cases ev with
    | wake b k => cases hs
    | enqueue | compare | leave | resume =>
      simp only [step, Option.map_eq_some_iff] at hs
      obtain ⟨t, ht, hq⟩ := hs
      rw [← hq]
      exact .other nofun ht

end Cluster

/-- A step of a wait sets no flag. -/
theorem woken_of_step {ev : Event} (hev : ∀ b k, ev ≠ .wake b k) (hs : step s ev = some t) {w : Waiter}
    (hw : w ∈ t.table) (hwoken : w.woken = true) : ∃ v ∈ s.table, v.id = w.id ∧ v.addr = w.addr ∧ v.woken = true := by
  cases Step.of_step hs with
  | enqueue b expected =>
    obtain rfl | hw := List.mem_cons.1 hw
    · cases hwoken
    · exact ⟨w, hw, rfl, rfl, hwoken⟩
  | @compare i _ value _ _ =>
    obtain ⟨v, hv, rfl⟩ := List.mem_map.1 hw
    refine ⟨v, hv, ?_⟩
    by_cases hid : v.id = i
    · simpa [hid] using hwoken
    · simpa [hid] using hwoken
  | leave | resume => exact ⟨w, (List.mem_filter.1 hw).1, rfl, rfl, hwoken⟩
  | wake b k => exact absurd rfl (hev b k)

namespace Accounted

/-- The loop runs on one more node. -/
theorem wakeOn (h : Accounted a before nodes y) (nr : UInt32) (n : UInt32) :
    Accounted a before (Cluster.wakeOn a nr nodes n) (y.add a nr nodes n) := by
  have hold : ∀ m ∈ y.whom, m ∈ (y.add a nr nodes n).whom := by
    intro m hm
    simp only [Tally.whom, Tally.add, List.map_append, List.toFinset_append, Finset.mem_union]
    exact .inr hm
  intro m w hw hwoken
  by_cases hm : m = n
  · subst hm
    rw [Cluster.wakeOn, Function.update_self] at hw
    obtain hw | ⟨v, hv, rfl⟩ := mem_wake_table hw
    · exact (h m w hw hwoken).imp_right fun ⟨haddr, hmem⟩ => ⟨haddr, hold _ hmem⟩
    · refine .inr ⟨(addr_of_mem_marked hv : v.addr = a), ?_⟩
      simp only [Tally.whom, List.mem_toFinset, Tally.add]
      exact List.mem_map.2 ⟨(m, v), List.mem_append_left _ (List.mem_map_of_mem hv), rfl⟩
  · rw [Cluster.wakeOn, Function.update_of_ne hm] at hw
    exact (h m w hw hwoken).imp_right fun ⟨haddr, hmem⟩ => ⟨haddr, hold _ hmem⟩

theorem other (h : Accounted a before nodes y) {ev : Event} (hev : ∀ b k, ev ≠ .wake b k)
    (hs : step (nodes n) ev = some t) : Accounted a before (Function.update nodes n t) y := by
  intro m w hw hwoken
  by_cases hm : m = n
  · subst hm
    rw [Function.update_self] at hw
    obtain ⟨v, hv, hid, haddr, hv'⟩ := woken_of_step hev hs hw hwoken
    rw [← hid, ← haddr]
    exact h m v hv hv'
  · rw [Function.update_of_ne hm] at hw
    exact h m w hw hwoken

theorem step {ev : ClusterEvent} {z : Tally} (h : Accounted a before c.nodes y)
    (hs : Cluster.Step a nr c y ev d z) : Accounted a before d.nodes z := by
  cases hs with
  | @deliver n hn => exact h.wakeOn nr n
  | lose n => exact h
  | other hev ht => exact h.other hev ht

end Accounted

/-- What the handlings marked, by what they found. -/
def Counts (nr : UInt32) (y : Tally) : Prop := y.marks.length = (y.found.map (min (max nr.toNat 1))).sum

theorem Counts.add (h : Counts nr y) (a : FutexAddr) (nodes : UInt32 → Node) (n : UInt32) :
    Counts nr (y.add a nr nodes n) := by
  rw [Counts, Tally.add, List.length_append, List.length_map, length_marked, h, List.map_cons, List.sum_cons]

theorem Counts.step {ev : ClusterEvent} {z : Tally} (h : Counts nr y) (hs : Cluster.Step a nr c y ev d z) :
    Counts nr z := by
  cases hs with
  | @deliver n hn => exact h.add a c.nodes n
  | lose | other => exact h

/-- No node that a message is under way to has been visited, and no waiter was marked twice. -/
structure OncePerNode (c : Cluster) (y : Tally) : Prop where
  numbered : ∀ n, Numbered (c.nodes n)
  flight : c.flight.Nodup
  visited : ∀ m ∈ y.marks, m.1 ∉ c.flight
  nodup : (y.marks.map fun m => (m.1, m.2.id)).Nodup

namespace OncePerNode

/-- The loop runs on a node that was not visited before, and will not be again. -/
theorem wakeOn (hn : ∀ n, Numbered (nodes n)) (hy : (y.marks.map fun m => (m.1, m.2.id)).Nodup)
    (hnew : ∀ m ∈ y.marks, m.1 ≠ n) {flight : List UInt32} (hf : flight.Nodup) (hnf : n ∉ flight)
    (hv : ∀ m ∈ y.marks, m.1 ∉ flight) :
    OncePerNode ⟨Cluster.wakeOn a nr nodes n, flight⟩ (y.add a nr nodes n) where
  numbered m := by
    by_cases hm : m = n
    · subst hm
      simp only [Cluster.wakeOn, Function.update_self]
      exact (hn m).of_ids_eq (ids_wake _ _ _) rfl
    · simp only [Cluster.wakeOn, Function.update_of_ne hm]
      exact hn m
  flight := hf
  visited m hm := by
    obtain hm | hm := List.mem_append.1 hm
    · obtain ⟨w, -, rfl⟩ := List.mem_map.1 hm
      exact hnf
    · exact hv m hm
  nodup := by
    have hids : (((nodes n).marked a nr).map (·.id)).Nodup := (hn n).nodup.sublist ((marked_sublist _ a nr).map _)
    have hmarks : (((nodes n).marked a nr).map fun w => (n, w.id)).Nodup := by
      have hpair := hids.map (f := fun i => (n, i)) fun i j h => congrArg Prod.snd h
      rwa [List.map_map] at hpair
    rw [Tally.add, List.map_append, List.map_map]
    refine hmarks.append hy fun m hm hold => ?_
    obtain ⟨w, -, rfl⟩ := List.mem_map.1 hm
    obtain ⟨v, hv, heq⟩ := List.mem_map.1 hold
    exact hnew v hv (congrArg Prod.fst heq)

theorem step {ev : ClusterEvent} {z : Tally} (h : OncePerNode c y) (hs : Cluster.Step a nr c y ev d z) :
    OncePerNode d z := by
  have herase : ∀ n, ∀ m ∈ y.marks, m.1 ∉ c.flight.erase n := fun n m hm hmem =>
    h.visited m hm (List.mem_of_mem_erase hmem)
  cases hs with
  | @deliver n hn =>
    exact wakeOn h.numbered h.nodup (fun m hm heq => h.visited m hm (heq ▸ hn)) (h.flight.erase n)
      h.flight.not_mem_erase (herase n)
  | lose n => exact ⟨h.numbered, h.flight.erase n, herase n, h.nodup⟩
  | @other n ev t hev ht =>
    refine ⟨fun m => ?_, h.flight, h.visited, h.nodup⟩
    by_cases hm : m = n
    · subst hm
      simp only [Function.update_self]
      exact (h.numbered m).step ht
    · simp only [Function.update_of_ne hm]
      exact h.numbered m

end OncePerNode

/-- **One wake in the cluster**: whatever waiters there are on the nodes and in whatever order its messages arrive,
every flag that is set since a call is that of a waiter on its address that it marked, and it marked at most as many as
it was asked to if the handlings found no more, or found them on one node. Where every node is reached once, only
then. -/
theorem one_wake_bounded (self : UInt32) (view : List Membership.NodeEntry) (nodes : UInt32 → Node) (a : FutexAddr)
    (nr : UInt32) (es : List ClusterEvent) {p : Cluster × Tally}
    (hr : run (observe (Cluster.step a nr) (Cluster.tally a nr)) (Cluster.uckFutexOp self view nodes a nr) es =
      some p) :
    Accounted a nodes p.1.nodes p.2 ∧ (p.2.Spread nr → p.2.whom.card ≤ nr.toNat) ∧
      ((self :: uckFutexWakeRemote view).Nodup → (∀ n, Numbered (nodes n)) → p.2.whom.card ≤ nr.toNat →
        p.2.Spread nr) := by
  have hstart : Accounted a nodes nodes {} := fun n w hw hwoken => .inl ⟨w, hw, rfl, rfl, hwoken⟩
  have hacc : Accounted a nodes p.1.nodes p.2 := by
    refine run_inv (fun q => Accounted a nodes q.1.nodes q.2) (fun q ev u h hs => h.step (.of_step hs)) ?_ hr
    exact hstart.wakeOn nr self
  have hcounts : Counts nr p.2 := by
    refine run_inv (fun q => Counts nr q.2) (fun q ev u h hs => h.step (.of_step hs)) ?_ hr
    exact Counts.add (y := {}) rfl a nodes self
  have hspread : p.2.marks.length ≤ nr.toNat ↔ p.2.Spread nr := by
    rw [hcounts]
    exact sum_min_le_iff p.2.found nr.toNat
  refine ⟨hacc, fun h => ?_, fun hnodup hn hcard => ?_⟩
  · have hle := List.toFinset_card_le (p.2.marks.map fun m => (m.1, m.2.id))
    rw [List.length_map] at hle
    exact hle.trans (hspread.2 h)
  · have honce : OncePerNode p.1 p.2 := by
      refine run_inv (fun q => OncePerNode q.1 q.2) (fun q ev u h hs => h.step (.of_step hs)) ?_ hr
      obtain ⟨hself, hflight⟩ := List.nodup_cons.1 hnodup
      have hempty : ∀ (q : UInt32 × Waiter → Prop), ∀ m ∈ ({} : Tally).marks, q m := fun q m hm => by cases hm
      exact OncePerNode.wakeOn (y := {}) hn List.nodup_nil (hempty _) hflight hself (hempty _)
    rw [Tally.whom, List.toFinset_card_of_nodup honce.nodup, List.length_map] at hcard
    exact hspread.1 hcard

/-- The futex table with one waiter on the address `⟨1, 0⟩`. -/
def oneAsleep : Node := ⟨[{ id := 0, addr := ⟨1, 0⟩, expected := 5, phase := .asleep }], 1⟩

/-- A wake of one by node 1, where only node 2 has a waiter. -/
theorem remote_waiter_woken :
    ({ marks := [(2, { id := 0, addr := ⟨1, 0⟩, expected := 5, phase := .asleep })], found := [1, 0] } :
      Tally).whom.card ≤ 1 :=
  (one_wake_bounded 1 [{ nodeId := 2, alive := true }] (fun n => if n = 2 then oneAsleep else Node.init) ⟨1, 0⟩ 1
    [.deliver 2] rfl).2.1 (by decide)

/-- Whom a wake by node 1 wakes, with a waiter on node 1 and one on node 2. -/
def wokenOfTwo (nr : UInt32) : Option (Finset (UInt32 × Nat)) :=
  (run (observe (Cluster.step ⟨1, 0⟩ nr) (Cluster.tally ⟨1, 0⟩ nr))
    (Cluster.uckFutexOp 1 [{ nodeId := 2, alive := true }] (fun _ => oneAsleep) ⟨1, 0⟩ nr) [.deliver 2]).map (·.2.whom)

/-- A wake of one wakes both, and so does a wake of none. -/
theorem one_wake_wakes_two : wokenOfTwo 1 = some {(1, 0), (2, 0)} ∧ wokenOfTwo 0 = some {(1, 0), (2, 0)} := by
  decide

end UckSmp.Futex
