import Mathlib.Data.List.Nodup
import UckSmp.Lib.Transition

/-!
# Futex waits and wakes

`uck_futex.c` on one node: the hash table of waiters, the steps of `uck_futex_wait_local` and
`uck_futex_wake_local`, which runs under `uck_futex_lock` and is one step. A waiter is in the table from the step that
enqueues it to the one in which it dequeues itself and returns, whatever was done to it in between.

* `Step.of_step`: what a step does.
* `marked_eq_take`: whom a wake marks.
* `mem_table_of_wake`, `mem_wake_table`, `wake_mem_table`, `ids_wake`: what it makes of the table.
* `Numbered.step`: waits keep their numbers.
-/

namespace UckSmp.Futex

open Lib.Transition

/-! ## Waiters -/

structure FutexAddr where
  regionId : UInt64
  offset : UInt64
  deriving DecidableEq, Repr

/-- `uck_futex_hash_key`. -/
def uckFutexHashKey (a : FutexAddr) : UInt32 := (a.regionId ^^^ (a.offset >>> 12)).toUInt32

/-- The bucket of a key: `hash_32` with `UCK_FUTEX_HASH_BITS` bits. -/
def bucket (a : FutexAddr) : UInt32 := (uckFutexHashKey a * 0x61C88647) >>> 24

/-- Where a wait is. -/
inductive Phase
  /-- In the table, the value not yet compared. -/
  | enqueued
  /-- The value is another one: `-EAGAIN` is returned once the waiter is out of the table. -/
  | mismatched
  /-- In the loop around `schedule`. -/
  | asleep
  deriving DecidableEq, Repr

/-- `struct uck_futex_waiter`, with the number and the expected value of the wait that it is on the stack of. -/
structure Waiter where
  id : Nat
  addr : FutexAddr
  expected : UInt32
  woken : Bool := false
  phase : Phase := .enqueued
  deriving DecidableEq, Repr

/-- The waiters, in the order of the chains: `hash_add` puts the newest first. -/
structure Node where
  table : List Waiter
  /-- The number of the next wait. -/
  next : Nat
  deriving DecidableEq, Repr

/-- A waiter with its flag set. -/
def Waiter.wake (w : Waiter) : Waiter := { w with woken := true }

/-- The loop of `uck_futex_wake_local`, which has marked `woken` waiters: the waiters that it marks, and the table. It
compares after it has counted, so that it marks one where none was asked for. -/
def wakeLoop (a : FutexAddr) (nrWake : UInt32) : Nat → List Waiter → List Waiter × List Waiter
  | _, [] => ([], [])
  | woken, w :: ws =>
    if bucket w.addr = bucket a ∧ w.addr = a then
      if nrWake.toNat ≤ woken + 1 then ([w], w.wake :: ws)
      else
        let r := wakeLoop a nrWake (woken + 1) ws
        (w :: r.1, w.wake :: r.2)
    else
      let r := wakeLoop a nrWake woken ws
      (r.1, w :: r.2)

namespace Node

def init : Node := ⟨[], 0⟩

/-- The waiters that a wake marks; their number is what `uck_futex_wake_local` returns. -/
def marked (s : Node) (a : FutexAddr) (nrWake : UInt32) : List Waiter := (wakeLoop a nrWake 0 s.table).1

/-- `uck_futex_wake_local`. -/
def uckFutexWakeLocal (s : Node) (a : FutexAddr) (nrWake : UInt32) : Node :=
  { s with table := (wakeLoop a nrWake 0 s.table).2 }

/-- The waits that are in the table. -/
def ids (s : Node) : List Nat := s.table.map (·.id)

def waiter (s : Node) (i : Nat) : Option Waiter := s.table.find? (·.id = i)

/-- `hash_del`. -/
def remove (s : Node) (i : Nat) : Node := { s with table := s.table.filter (·.id ≠ i) }

def setPhase (s : Node) (i : Nat) (p : Phase) : Node :=
  { s with table := s.table.map fun w => if w.id = i then { w with phase := p } else w }

end Node

/-- Where a wait goes from the comparison, in which `none` is a page that is not there. -/
def Waiter.compared (w : Waiter) : Option UInt32 → Phase
  | some v => if v ≠ w.expected then .mismatched else .asleep
  | none => .asleep

inductive Event
  | enqueue (a : FutexAddr) (expected : UInt32)
  | compare (i : Nat) (value : Option UInt32)
  /-- A wait that found another value dequeues itself and returns. -/
  | leave (i : Nat)
  /-- A wait that was woken or has a signal pending dequeues itself and returns. -/
  | resume (i : Nat) (signal : Bool)
  | wake (a : FutexAddr) (nrWake : UInt32)
  deriving DecidableEq, Repr

/-- One step of some wait or wake. -/
def step (s : Node) : Event → Option Node
  | .enqueue a expected => some ⟨{ id := s.next, addr := a, expected } :: s.table, s.next + 1⟩
  | .compare i value => do
    let w ← s.waiter i
    guard (w.phase = .enqueued)
    return s.setPhase i (w.compared value)
  | .leave i => do
    let w ← s.waiter i
    guard (w.phase = .mismatched)
    return s.remove i
  | .resume i signal => do
    let w ← s.waiter i
    guard (w.phase = .asleep ∧ (w.woken ∨ signal))
    return s.remove i
  | .wake a nrWake => some (s.uckFutexWakeLocal a nrWake)

/-- What a wait returns. -/
inductive Result
  | zero
  | eagain
  | eintr
  deriving DecidableEq, Repr

/-- The end of `uck_futex_wait_local`. -/
def Waiter.result (w : Waiter) : Result := if w.woken then .zero else .eintr

/-! ## What a step does -/

variable {s t : Node} {a : FutexAddr} {nr : UInt32} {w : Waiter} {i : Nat}

inductive Step (s : Node) : Event → Node → Prop
  | enqueue (a : FutexAddr) (expected : UInt32) :
      Step s (.enqueue a expected) ⟨{ id := s.next, addr := a, expected } :: s.table, s.next + 1⟩
  | compare {i : Nat} {w : Waiter} (value : Option UInt32) (hw : s.waiter i = some w) (hp : w.phase = .enqueued) :
      Step s (.compare i value) (s.setPhase i (w.compared value))
  | leave {i : Nat} {w : Waiter} (hw : s.waiter i = some w) (hp : w.phase = .mismatched) :
      Step s (.leave i) (s.remove i)
  | resume {i : Nat} {w : Waiter} {signal : Bool} (hw : s.waiter i = some w) (hp : w.phase = .asleep)
      (h : w.woken ∨ signal) : Step s (.resume i signal) (s.remove i)
  | wake (a : FutexAddr) (nr : UInt32) : Step s (.wake a nr) (s.uckFutexWakeLocal a nr)

/-- A step of the wait `i` is taken if the wait is in the table and where the step begins. -/
theorem guarded_eq_some {p : Waiter → Prop} [DecidablePred p] {f : Waiter → Node} :
    (do
      let w ← s.waiter i
      guard (p w)
      return f w) = some t ↔ ∃ w, s.waiter i = some w ∧ p w ∧ f w = t := by
  simp only [bind, guard, Option.bind_eq_some_iff]
  refine exists_congr fun w => and_congr_right fun _ => ?_
  by_cases hp : p w
  · rw [if_pos hp]
    exact ⟨fun ⟨_, _, ht⟩ => ⟨hp, Option.some.inj ht⟩, fun ht => ⟨(), rfl, congrArg some ht.2⟩⟩
  · rw [if_neg hp]
    exact iff_of_false (fun ⟨_, hnone, _⟩ => nomatch hnone) fun ht => hp ht.1

theorem Step.of_step {ev : Event} (h : step s ev = some t) : Step s ev t := by
  cases ev with
  | enqueue a expected =>
    cases h
    exact .enqueue a expected
  | compare i value =>
    obtain ⟨w, hw, hp, rfl⟩ := guarded_eq_some.1 h
    exact .compare value hw hp
  | leave i =>
    obtain ⟨w, hw, hp, rfl⟩ := guarded_eq_some.1 h
    exact .leave hw hp
  | resume i signal =>
    obtain ⟨w, hw, hp, rfl⟩ := guarded_eq_some.1 h
    exact .resume hw hp.1 hp.2
  | wake a nr =>
    cases h
    exact .wake a nr

theorem mem_of_waiter (h : s.waiter i = some w) : w ∈ s.table ∧ w.id = i :=
  ⟨List.mem_of_find?_eq_some h, by simpa using List.find?_some h⟩

theorem ids_setPhase (s : Node) (i : Nat) (p : Phase) : (s.setPhase i p).ids = s.ids := by
  rw [Node.ids, Node.setPhase, List.map_map]
  refine List.map_congr_left fun w _ => ?_
  simp only [Function.comp_apply]
  split <;> rfl

/-! ## Wakes -/

/-- The waiters that are marked are the newest of the address: as many as asked for, and one if none was. -/
theorem marked_wakeLoop (a : FutexAddr) (nr : UInt32) (woken : Nat) (l : List Waiter) :
    (wakeLoop a nr woken l).1 = (l.filter (·.addr = a)).take (max (nr.toNat - woken) 1) := by
  induction l generalizing woken with
  | nil => simp [wakeLoop]
  | cons w l ih =>
    simp only [wakeLoop]
    split
    · rename_i h
      rw [List.filter_cons_of_pos (by simpa using h.2)]
      split
      · rw [show max (nr.toNat - woken) 1 = 1 by omega, List.take_succ_cons, List.take_zero]
      · rw [ih, show max (nr.toNat - woken) 1 = max (nr.toNat - (woken + 1)) 1 + 1 by omega, List.take_succ_cons]
    · rename_i h
      have hne : w.addr ≠ a := by
        rintro rfl
        exact h ⟨rfl, rfl⟩
      rw [List.filter_cons_of_neg (by simpa using hne), ih]

theorem marked_eq_take (s : Node) (a : FutexAddr) (nr : UInt32) :
    s.marked a nr = (s.table.filter (·.addr = a)).take (max nr.toNat 1) :=
  marked_wakeLoop a nr 0 s.table

theorem marked_sublist (s : Node) (a : FutexAddr) (nr : UInt32) : (s.marked a nr).Sublist s.table := by
  rw [marked_eq_take]
  exact (List.take_sublist _ _).trans List.filter_sublist

theorem addr_of_mem_marked (h : w ∈ s.marked a nr) : w.addr = a := by
  rw [marked_eq_take] at h
  simpa using (List.mem_filter.1 (List.mem_of_mem_take h)).2

/-- The number that `uck_futex_wake_local` returns. -/
theorem length_marked (s : Node) (a : FutexAddr) (nr : UInt32) :
    (s.marked a nr).length = min (max nr.toNat 1) (s.table.countP (·.addr = a)) := by
  rw [marked_eq_take, List.length_take, List.countP_eq_length_filter]

theorem mem_wakeLoop {woken : Nat} {l : List Waiter} (h : w ∈ (wakeLoop a nr woken l).2) :
    w ∈ l ∨ ∃ v ∈ (wakeLoop a nr woken l).1, w = v.wake := by
  induction l generalizing woken with
  | nil => exact .inl h
  | cons v l ih =>
    simp only [wakeLoop] at h ⊢
    split at h
    · rename_i hv
      split at h
      · rename_i hnr
        rw [if_pos hv, if_pos hnr]
        obtain rfl | h := List.mem_cons.1 h
        · exact .inr ⟨v, List.mem_cons_self, rfl⟩
        · exact .inl (List.mem_cons_of_mem _ h)
      · rename_i hnr
        rw [if_pos hv, if_neg hnr]
        obtain rfl | h := List.mem_cons.1 h
        · exact .inr ⟨v, List.mem_cons_self, rfl⟩
        · obtain h | ⟨u, hu, rfl⟩ := ih h
          · exact .inl (List.mem_cons_of_mem _ h)
          · exact .inr ⟨u, List.mem_cons_of_mem _ hu, rfl⟩
    · rename_i hv
      rw [if_neg hv]
      obtain rfl | h := List.mem_cons.1 h
      · exact .inl List.mem_cons_self
      · obtain h | ⟨u, hu, rfl⟩ := ih h
        · exact .inl (List.mem_cons_of_mem _ h)
        · exact .inr ⟨u, hu, rfl⟩

/-- A waiter after a wake was there before, or is one that was marked. -/
theorem mem_wake_table (h : w ∈ (s.uckFutexWakeLocal a nr).table) :
    w ∈ s.table ∨ ∃ v ∈ s.marked a nr, w = v.wake :=
  mem_wakeLoop h

theorem mem_wakeLoop_of_mem {woken : Nat} {l : List Waiter} (h : w ∈ l) :
    w ∈ (wakeLoop a nr woken l).2 ∨ w.wake ∈ (wakeLoop a nr woken l).2 := by
  induction l generalizing woken with
  | nil => cases h
  | cons v l ih =>
    simp only [wakeLoop]
    split
    · split
      · obtain rfl | h := List.mem_cons.1 h
        · exact .inr List.mem_cons_self
        · exact .inl (List.mem_cons_of_mem _ h)
      · obtain rfl | h := List.mem_cons.1 h
        · exact .inr List.mem_cons_self
        · exact (ih h).imp (List.mem_cons_of_mem _) (List.mem_cons_of_mem _)
    · obtain rfl | h := List.mem_cons.1 h
      · exact .inl List.mem_cons_self
      · exact (ih h).imp (List.mem_cons_of_mem _) (List.mem_cons_of_mem _)

/-- A waiter is still there after a wake, with its flag set or not. -/
theorem mem_table_of_wake (h : w ∈ s.table) (a : FutexAddr) (nr : UInt32) :
    w ∈ (s.uckFutexWakeLocal a nr).table ∨ w.wake ∈ (s.uckFutexWakeLocal a nr).table :=
  mem_wakeLoop_of_mem h

theorem wake_mem_wakeLoop {woken : Nat} {l : List Waiter} (h : w ∈ (wakeLoop a nr woken l).1) :
    w.wake ∈ (wakeLoop a nr woken l).2 := by
  induction l generalizing woken with
  | nil => cases h
  | cons v l ih =>
    simp only [wakeLoop] at h ⊢
    split at h
    · rename_i hv
      rw [if_pos hv]
      split at h
      · rename_i hnr
        rw [if_pos hnr, List.mem_singleton.1 h]
        exact List.mem_cons_self
      · rename_i hnr
        rw [if_neg hnr]
        obtain rfl | h := List.mem_cons.1 h
        · exact List.mem_cons_self
        · exact List.mem_cons_of_mem _ (ih h)
    · rename_i hv
      rw [if_neg hv]
      exact List.mem_cons_of_mem _ (ih h)

/-- A waiter that is marked has its flag set afterwards. -/
theorem wake_mem_table (h : w ∈ s.marked a nr) : w.wake ∈ (s.uckFutexWakeLocal a nr).table := wake_mem_wakeLoop h

theorem map_wakeLoop {β : Type*} {f : Waiter → β} (hf : ∀ w, f w.wake = f w) (a : FutexAddr) (nr : UInt32) (woken : Nat)
    (l : List Waiter) : (wakeLoop a nr woken l).2.map f = l.map f := by
  induction l generalizing woken with
  | nil => rfl
  | cons v l ih =>
    simp only [wakeLoop]
    split
    · split
      · rw [List.map_cons, hf, List.map_cons]
      · rw [List.map_cons, hf, List.map_cons, ih]
    · rw [List.map_cons, List.map_cons, ih]

theorem ids_wake (s : Node) (a : FutexAddr) (nr : UInt32) : (s.uckFutexWakeLocal a nr).ids = s.ids :=
  map_wakeLoop (fun _ => rfl) a nr 0 s.table

/-! ## Numbers of waits -/

/-- Every wait has its own number. -/
structure Numbered (s : Node) : Prop where
  nodup : s.ids.Nodup
  old : ∀ i ∈ s.ids, i < s.next

namespace Numbered

theorem eq_of_id (h : Numbered s) {v : Waiter} (hw : w ∈ s.table) (hv : v ∈ s.table) (hid : w.id = v.id) : w = v :=
  List.inj_on_of_nodup_map h.nodup hw hv hid

theorem of_ids_eq (h : Numbered s) (hids : t.ids = s.ids) (hnext : t.next = s.next) : Numbered t := by
  constructor
  · rw [hids]
    exact h.nodup
  · rw [hids, hnext]
    exact h.old

theorem remove (h : Numbered s) (i : Nat) : Numbered (s.remove i) := by
  have hsub : (s.remove i).ids.Sublist s.ids := List.filter_sublist.map _
  exact ⟨h.nodup.sublist hsub, fun j hj => h.old j (hsub.subset hj)⟩

theorem step {ev : Event} (h : Numbered s) (hs : step s ev = some t) : Numbered t := by
  cases Step.of_step hs with
  | enqueue a expected =>
    refine ⟨List.nodup_cons.2 ⟨fun hmem => ?_, h.nodup⟩, fun j hj => ?_⟩
    · exact absurd (h.old s.next hmem) (Nat.lt_irrefl _)
    · obtain rfl | hj := List.mem_cons.1 hj
      · exact Nat.lt_succ_self _
      · exact Nat.lt_succ_of_lt (h.old j hj)
  | compare => exact h.of_ids_eq (ids_setPhase s _ _) rfl
  | leave | resume => exact h.remove _
  | wake a nr => exact h.of_ids_eq (ids_wake s a nr) rfl

end Numbered

end UckSmp.Futex
