import UckSmp.Lib.Transition

/-!
# Writers of one stream

Threads that append to one stream, in any interleaving: a thread runs the code of one operation, a sequence of appends
in which it may take and release the one mutex there is. An append is one step.

* `Step.of_step`: what a step can be.
* `step_exclusive`: at most one thread holds the mutex.
-/

namespace Lib.Writers

variable {O α : Type}

inductive Act (α : Type)
  | lock
  | unlock
  | emit (a : α)
  deriving DecidableEq, Repr

/-- A thread: its operation, whether it holds the mutex, and what it has still to do. -/
structure Thread (O α : Type) where
  op : O
  held : Bool
  todo : List (Act α)
  deriving DecidableEq, Repr

structure State (O α : Type) where
  threads : List (Thread O α) := []
  out : List α := []
  deriving DecidableEq, Repr

/-- An operation starts on a thread of its own, or a thread takes its next step. -/
inductive Event (O : Type)
  | start (op : O)
  | act (i : Nat)
  deriving DecidableEq, Repr

def step (code : O → List (Act α)) (s : State O α) : Event O → Option (State O α)
  | .start op => some { s with threads := s.threads ++ [⟨op, false, code op⟩] }
  | .act i =>
    match s.threads[i]? with
    | some ⟨op, _, .lock :: todo⟩ =>
      if s.threads.all fun t => !t.held then some { s with threads := s.threads.set i ⟨op, true, todo⟩ } else none
    | some ⟨op, _, .unlock :: todo⟩ => some { s with threads := s.threads.set i ⟨op, false, todo⟩ }
    | some ⟨op, held, .emit a :: todo⟩ => some ⟨s.threads.set i ⟨op, held, todo⟩, s.out ++ [a]⟩
    | _ => none

/-- What a step does. -/
inductive Step (code : O → List (Act α)) (s : State O α) : Event O → State O α → Prop
  | start (op : O) : Step code s (.start op) { s with threads := s.threads ++ [⟨op, false, code op⟩] }
  | lock {i : Nat} {op : O} {held : Bool} {todo : List (Act α)} (hi : s.threads[i]? = some ⟨op, held, .lock :: todo⟩)
      (hfree : ∀ t ∈ s.threads, t.held = false) :
      Step code s (.act i) { s with threads := s.threads.set i ⟨op, true, todo⟩ }
  | unlock {i : Nat} {op : O} {held : Bool} {todo : List (Act α)}
      (hi : s.threads[i]? = some ⟨op, held, .unlock :: todo⟩) :
      Step code s (.act i) { s with threads := s.threads.set i ⟨op, false, todo⟩ }
  | emit {i : Nat} {op : O} {held : Bool} {a : α} {todo : List (Act α)}
      (hi : s.threads[i]? = some ⟨op, held, .emit a :: todo⟩) :
      Step code s (.act i) ⟨s.threads.set i ⟨op, held, todo⟩, s.out ++ [a]⟩

section Steps

variable {code : O → List (Act α)} {s t : State O α} {ev : Event O}

theorem Step.of_step (h : step code s ev = some t) : Step code s ev t := by
  cases ev with
  | start op =>
    cases h
    exact .start op
  | act i =>
    simp only [step] at h
    split at h
    · rename_i hi
      split at h
      · rename_i hall
        cases h
        refine .lock hi fun t ht => ?_
        simpa using List.all_eq_true.1 hall t ht
      · cases h
    · rename_i hi
      cases h
      exact .unlock hi
    · rename_i hi
      cases h
      exact .emit hi
    · cases h

/-- At most one thread holds the mutex. -/
def Exclusive (s : State O α) : Prop :=
  ∀ (i j : Nat) (x y : Thread O α), s.threads[i]? = some x → s.threads[j]? = some y → x.held = true → y.held = true →
    i = j

/-- A thread goes on without taking the mutex. -/
theorem Exclusive.set (h : Exclusive s) {i : Nat} {x x' : Thread O α} (hx : s.threads[i]? = some x)
    (hle : x'.held = true → x.held = true) {out : List α} : Exclusive ⟨s.threads.set i x', out⟩ := by
  have hback : ∀ (j : Nat) (y : Thread O α), (s.threads.set i x')[j]? = some y → y.held = true →
      ∃ z, s.threads[j]? = some z ∧ z.held = true := by
    intro j y hy hheld
    rw [List.getElem?_set] at hy
    split at hy
    · rename_i hij
      subst hij
      split at hy
      · cases hy
        exact ⟨x, hx, hle hheld⟩
      · cases hy
    · exact ⟨y, hy, hheld⟩
  intro j k y z hy hz hyh hzh
  obtain ⟨y', hy', hyh'⟩ := hback j y hy hyh
  obtain ⟨z', hz', hzh'⟩ := hback k z hz hzh
  exact h j k y' z' hy' hz' hyh' hzh'

theorem step_exclusive (h : Exclusive s) (hs : step code s ev = some t) : Exclusive t := by
  cases Step.of_step hs with
  | start op =>
    have hback : ∀ (j : Nat) (y : Thread O α), (s.threads ++ [⟨op, false, code op⟩])[j]? = some y → y.held = true →
        s.threads[j]? = some y := by
      intro j y hy hheld
      rw [List.getElem?_append] at hy
      split at hy
      · exact hy
      · rw [List.mem_singleton.1 (List.mem_of_getElem? hy)] at hheld
        cases hheld
    intro j k y z hy hz hyh hzh
    exact h j k y z (hback j y hy hyh) (hback k z hz hzh) hyh hzh
  | lock hi hfree =>
    rename_i i op held todo
    have hback : ∀ (j : Nat) (y : Thread O α), (s.threads.set i ⟨op, true, todo⟩)[j]? = some y → y.held = true →
        j = i := by
      intro j y hy hheld
      rw [List.getElem?_set] at hy
      split at hy
      · exact Eq.symm ‹_›
      · rw [hfree y (List.mem_of_getElem? hy)] at hheld
        cases hheld
    intro j k y z hy hz hyh hzh
    rw [hback j y hy hyh, hback k z hz hzh]
  | unlock hi => exact h.set hi (fun hh => by cases hh)
  | emit hi =>
    refine h.set hi ?_
    exact id

end Steps

end Lib.Writers
