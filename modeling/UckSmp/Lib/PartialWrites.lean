import UckSmp.Lib.Writers

/-!
# Writers whose appends are not atomic

The writers of `Lib.Writers`, one level down: an append is carried out in pieces, of any length, and the steps of other
threads come in between. `bytes` says what an append writes.

* `Simulates.step`: as long as no thread writes while another one is inside an append, a step is a step of the writers
  with atomic appends, or none.
* `alone_of_held`: threads that write only with the mutex never do.
-/

namespace Lib.PartialWrites

open Lib.Writers (Act)

variable {O α β : Type}

/-- A thread: its operation, whether it holds the mutex, what it has still to do, and how much of the first append
there is written. -/
structure Thread (O α : Type) where
  op : O
  held : Bool
  todo : List (Act α)
  done : Nat
  deriving DecidableEq, Repr

structure State (O α β : Type) where
  threads : List (Thread O α) := []
  out : List β := []
  deriving DecidableEq, Repr

/-- An operation starts, a thread takes or releases the mutex, or it writes `k` more of the append that it is at. -/
inductive Event (O : Type)
  | start (op : O)
  | act (i : Nat)
  | piece (i k : Nat)
  deriving DecidableEq, Repr

section Code

variable (code : O → List (Act α)) (bytes : α → List β)

/-- After `k` more of an append: the thread is still at it, or goes on. -/
def Thread.advance (x : Thread O α) (a : α) (todo : List (Act α)) (k : Nat) : Thread O α :=
  if x.done + k = (bytes a).length then { x with todo := todo, done := 0 } else { x with done := x.done + k }

/-- A piece is not empty, unless there is nothing to write. -/
def step (s : State O α β) : Event O → Option (State O α β)
  | .start op => some { s with threads := s.threads ++ [⟨op, false, code op, 0⟩] }
  | .act i =>
    match s.threads[i]? with
    | some ⟨op, _, .lock :: todo, _⟩ =>
      if s.threads.all fun t => !t.held then some { s with threads := s.threads.set i ⟨op, true, todo, 0⟩ } else none
    | some ⟨op, _, .unlock :: todo, _⟩ => some { s with threads := s.threads.set i ⟨op, false, todo, 0⟩ }
    | _ => none
  | .piece i k =>
    match s.threads[i]? with
    | some ⟨op, held, .emit a :: todo, done⟩ =>
      if (0 < k ∨ bytes a = []) ∧ done + k ≤ (bytes a).length then
        some ⟨s.threads.set i (Thread.advance bytes ⟨op, held, .emit a :: todo, done⟩ a todo k),
          s.out ++ ((bytes a).drop done).take k⟩
      else none
    | _ => none

/-- What a step does. -/
inductive Step (s : State O α β) : Event O → State O α β → Prop
  | start (op : O) : Step s (.start op) { s with threads := s.threads ++ [⟨op, false, code op, 0⟩] }
  | lock {i done : Nat} {op : O} {held : Bool} {todo : List (Act α)}
      (hi : s.threads[i]? = some ⟨op, held, .lock :: todo, done⟩) (hfree : ∀ t ∈ s.threads, t.held = false) :
      Step s (.act i) { s with threads := s.threads.set i ⟨op, true, todo, 0⟩ }
  | unlock {i done : Nat} {op : O} {held : Bool} {todo : List (Act α)}
      (hi : s.threads[i]? = some ⟨op, held, .unlock :: todo, done⟩) :
      Step s (.act i) { s with threads := s.threads.set i ⟨op, false, todo, 0⟩ }
  | part {i k done : Nat} {op : O} {held : Bool} {a : α} {todo : List (Act α)}
      (hi : s.threads[i]? = some ⟨op, held, .emit a :: todo, done⟩) (hlt : done + k < (bytes a).length) :
      Step s (.piece i k) ⟨s.threads.set i ⟨op, held, .emit a :: todo, done + k⟩,
        s.out ++ ((bytes a).drop done).take k⟩
  | last {i k done : Nat} {op : O} {held : Bool} {a : α} {todo : List (Act α)}
      (hi : s.threads[i]? = some ⟨op, held, .emit a :: todo, done⟩) (heq : done + k = (bytes a).length) :
      Step s (.piece i k) ⟨s.threads.set i ⟨op, held, todo, 0⟩, s.out ++ (bytes a).drop done⟩

end Code

section Steps

variable {code : O → List (Act α)} {bytes : α → List β} {s t : State O α β} {e : Event O}

theorem Step.of_step (h : step code bytes s e = some t) : Step code bytes s e t := by
  cases e with
  | start op =>
    cases h
    exact .start op
  | act i =>
    simp only [step] at h
    split at h
    · rename_i hi
      split at h
      · rename_i hall
        cases h
        refine .lock hi fun t ht => ?_
        simpa using List.all_eq_true.1 hall t ht
      · cases h
    · rename_i hi
      cases h
      exact .unlock hi
    · cases h
  | piece i k =>
    simp only [step] at h
    split at h
    · rename_i op held a todo done hi
      split at h
      · rename_i hk
        cases h
        by_cases heq : done + k = (bytes a).length
        · have htake : ((bytes a).drop done).take k = (bytes a).drop done :=
            List.take_of_length_le (by rw [List.length_drop]; omega)
          rw [Thread.advance, if_pos heq, htake]
          exact .last hi heq
        · rw [Thread.advance, if_neg heq]
          exact .part hi (Nat.lt_of_le_of_ne hk.2 heq)
      · cases h
    · cases h

/-! ## The writers with atomic appends -/

/-- A thread that is inside an append has it still to do. -/
def Thread.toThread (x : Thread O α) : Writers.Thread O α := ⟨x.op, x.held, x.todo⟩

/-- What is written of the append that a thread is at. -/
def inHand (bytes : α → List β) (x : Thread O α) : List β :=
  match x.todo with
  | .emit a :: _ => (bytes a).take x.done
  | _ => []

theorem inHand_of_done_eq_zero {x : Thread O α} (h : x.done = 0) : inHand bytes x = [] := by
  unfold inHand
  split
  · rw [h, List.take_zero]
  · rfl

/-- The event of the writers that a step amounts to. -/
def atomic (bytes : α → List β) (s : State O α β) : Event O → Option (Writers.Event O)
  | .start op => some (.start op)
  | .act i => some (.act i)
  | .piece i k =>
    match s.threads[i]? with
    | some ⟨_, _, .emit a :: _, done⟩ => if done + k = (bytes a).length then some (.act i) else none
    | _ => none

/-- A thread writes only while no other one is inside an append. -/
def Alone (s : State O α β) : Event O → Prop
  | .piece i _ => ∀ j y, j ≠ i → s.threads[j]? = some y → y.done = 0
  | _ => True

/-- What the two levels have in common. -/
structure Simulates (bytes : α → List β) (s : State O α β) (u : Writers.State O α) : Prop where
  threads : u.threads = s.threads.map Thread.toThread
  out : s.out = u.out.flatMap bytes ++ s.threads.flatMap (inHand bytes)

theorem Simulates.init : Simulates bytes (O := O) {} {} := ⟨rfl, rfl⟩

theorem Simulates.get {u : Writers.State O α} (h : Simulates bytes s u) {i : Nat} {x : Thread O α}
    (hi : s.threads[i]? = some x) : u.threads[i]? = some x.toThread := by
  rw [h.threads, List.getElem?_map, hi, Option.map_some]

/-- One element is replaced by another that gives the same. -/
theorem flatMap_set {γ : Type} {l : List γ} {f : γ → List β} {i : Nat} {x x' : γ} (hi : l[i]? = some x)
    (h : f x' = f x) : (l.set i x').flatMap f = l.flatMap f := by
  obtain ⟨hlt, rfl⟩ := List.getElem?_eq_some_iff.1 hi
  rw [List.flatMap_def, List.flatMap_def, List.map_set, h, ← List.getElem_map f (h := by simpa using hlt),
    List.set_getElem_self]

/-- All elements but one give nothing. -/
theorem flatMap_of_alone {γ : Type} {l : List γ} {f : γ → List β} {i : Nat} {x : γ} (hi : l[i]? = some x)
    (h : ∀ j y, j ≠ i → l[j]? = some y → f y = []) : l.flatMap f = f x := by
  induction l generalizing i with
  | nil => cases hi
  | cons y l ih =>
    cases i with
    | zero =>
      cases hi
      have hnil : l.flatMap f = [] := by
        rw [List.flatMap_eq_nil_iff]
        intro z hz
        obtain ⟨j, hj⟩ := List.mem_iff_getElem?.1 hz
        exact h (j + 1) z (Nat.succ_ne_zero j) hj
      rw [List.flatMap_cons, hnil, List.append_nil]
    | succ i =>
      have hy : f y = [] := h 0 y (Nat.succ_ne_zero i).symm rfl
      rw [List.flatMap_cons, hy, List.nil_append]
      exact ih hi fun j z hj hz => h (j + 1) z (by omega) hz

/-- A thread goes on without writing. -/
theorem Simulates.set {u : Writers.State O α} (h : Simulates bytes s u) {i : Nat} {x x' : Thread O α}
    (hi : s.threads[i]? = some x) (hx : inHand bytes x' = inHand bytes x) :
    Simulates bytes { s with threads := s.threads.set i x' } { u with threads := u.threads.set i x'.toThread } where
  threads := by simp only [h.threads, List.map_set]
  out := by simp only [h.out, flatMap_set hi hx]

/-- A thread writes while no other one is inside an append. -/
theorem Simulates.write {u : Writers.State O α} (h : Simulates bytes s u) {i : Nat} {x x' : Thread O α}
    (hi : s.threads[i]? = some x) (halone : ∀ j y, j ≠ i → s.threads[j]? = some y → y.done = 0) {bs : List β}
    {as : List α} (hbs : inHand bytes x ++ bs = as.flatMap bytes ++ inHand bytes x') :
    Simulates bytes ⟨s.threads.set i x', s.out ++ bs⟩ ⟨u.threads.set i x'.toThread, u.out ++ as⟩ where
  threads := by simp only [h.threads, List.map_set]
  out := by
    have hlt : i < s.threads.length := (List.getElem?_eq_some_iff.1 hi).1
    have hi' : (s.threads.set i x')[i]? = some x' := by simp [hlt]
    have hnone : ∀ j y, j ≠ i → s.threads[j]? = some y → inHand bytes y = [] :=
      fun j y hj hy => inHand_of_done_eq_zero (halone j y hj hy)
    have hnone' : ∀ j y, j ≠ i → (s.threads.set i x')[j]? = some y → inHand bytes y = [] := by
      intro j y hj hy
      rw [List.getElem?_set_ne (Ne.symm hj)] at hy
      exact hnone j y hj hy
    rw [h.out, flatMap_of_alone hi hnone, flatMap_of_alone hi' hnone', List.append_assoc, hbs, List.flatMap_append,
      List.append_assoc]

open Lib.Transition in
/-- **One step** of the partial writers is one step of the atomic ones, or none. -/
theorem Simulates.step {u : Writers.State O α} (h : Simulates bytes s u) (hg : Alone s e)
    (hs : PartialWrites.step code bytes s e = some t) :
    ∃ v, run (Writers.step code) u (atomic bytes s e).toList = some v ∧ Simulates bytes t v := by
  cases Step.of_step hs with
  | start op =>
    refine ⟨{ u with threads := u.threads ++ [⟨op, false, code op⟩] }, rfl, ?_, ?_⟩
    · simp [h.threads, Thread.toThread]
    · simp [h.out, inHand_of_done_eq_zero]
  | lock hi hfree =>
    rename_i i done op held todo
    have hall : (u.threads.all fun t => !t.held) = true := by
      simpa [h.threads, Thread.toThread] using hfree
    refine ⟨{ u with threads := u.threads.set i ⟨op, true, todo⟩ }, ?_, h.set hi (inHand_of_done_eq_zero rfl)⟩
    simp [atomic, run, Writers.step, h.get hi, Thread.toThread, hall]
  | unlock hi =>
    rename_i i done op held todo
    refine ⟨{ u with threads := u.threads.set i ⟨op, false, todo⟩ }, ?_, h.set hi (inHand_of_done_eq_zero rfl)⟩
    simp [atomic, run, Writers.step, h.get hi, Thread.toThread]
  | part hi hlt =>
    rename_i i k done op held a todo
    refine ⟨⟨u.threads.set i ⟨op, held, .emit a :: todo⟩, u.out ++ []⟩, ?_, h.write hi hg ?_⟩
    · have hsame : u.threads.set i ⟨op, held, .emit a :: todo⟩ = u.threads := by
        obtain ⟨hlt', hget⟩ := List.getElem?_eq_some_iff.1 (h.get hi)
        rw [show (⟨op, held, .emit a :: todo⟩ : Writers.Thread O α) = u.threads[i] from hget.symm,
          List.set_getElem_self]
      simp [atomic, hi, Nat.ne_of_lt hlt, run, hsame]
    · simp [inHand, List.take_add]
  | last hi heq =>
    rename_i i k done op held a todo
    refine ⟨⟨u.threads.set i ⟨op, held, todo⟩, u.out ++ [a]⟩, ?_, h.write hi hg ?_⟩
    · simp [atomic, hi, heq, run, Writers.step, h.get hi, Thread.toThread]
    · rw [inHand_of_done_eq_zero (x := ⟨op, held, todo, 0⟩) rfl]
      simp [inHand]

/-! ## The mutex -/

/-- A thread that writes with the mutex, beside threads that are inside an append only with the mutex. -/
theorem alone_of_held {u : Writers.State O α} (h : Simulates bytes s u) (hex : Writers.Exclusive u) {i j : Nat}
    {x y : Thread O α} (hi : s.threads[i]? = some x) (hheld : x.held = true) (hj : s.threads[j]? = some y)
    (hin : 0 < y.done → y.held = true) (hji : j ≠ i) : y.done = 0 := by
  by_contra hne
  exact hji (hex j i _ _ (h.get hj) (h.get hi) (hin (Nat.pos_of_ne_zero hne)) hheld)

end Steps

end Lib.PartialWrites
