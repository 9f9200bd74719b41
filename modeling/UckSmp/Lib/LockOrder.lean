import Mathlib.Logic.Relation
import Mathlib.Order.Defs.PartialOrder
import UckSmp.Lib.Transition

/-!
# Lock order

Threads that take and release locks, in any interleaving. A `Code` is a sequence of lock actions that leaves the locks
of its caller as they were, which is what block-structured critical sections do; a thread runs the code of one
operation, and a lock is granted while no thread holds it.

* `ordered_seq`, `ordered_critical`, `ordered_each`: the lock order of a code, from the order of its parts.
* `Disciplined`: every thread takes its remaining locks in the order of their ranks; `step_disciplined` keeps it when
  the operations that are started respect the order.
* `Disciplined.below`: a thread that asks for a lock holds only locks of lower rank.
* `Disciplined.no_deadlock`: no thread waits, through any chain of holders, for itself.
-/

namespace Lib.Lock

variable {L R O : Type} [DecidableEq L]

/-! ## Actions and codes -/

inductive Act (L : Type)
  | lock (l : L)
  | unlock (l : L)
  deriving DecidableEq, Repr

/-- The locks held after an action. -/
def Act.on (held : List L) : Act L → List L
  | .lock l => l :: held
  | .unlock l => held.erase l

/-- The locks held after a sequence of actions. -/
def heldAfter (held : List L) (as : List (Act L)) : List L := as.foldl Act.on held

/-- Lock actions that end with the locks they began with. -/
structure Code (L : Type) [DecidableEq L] where
  acts : List (Act L)
  neutral : ∀ held, heldAfter held acts = held

namespace Code

/-- No lock is touched. -/
def skip : Code L := ⟨[], fun _ => rfl⟩

/-- One code after the other. -/
def seq (c d : Code L) : Code L :=
  ⟨c.acts ++ d.acts, fun held => by
    simp only [heldAfter, List.foldl_append]
    exact (congrArg (List.foldl Act.on · d.acts) (c.neutral held)).trans (d.neutral held)⟩

/-- The body between `mutex_lock` and `mutex_unlock`. -/
def critical (l : L) (body : Code L) : Code L :=
  ⟨.lock l :: (body.acts ++ [.unlock l]), fun held => by
    have hb : List.foldl Act.on (l :: held) body.acts = l :: held := body.neutral _
    simp [heldAfter, Act.on, hb]⟩

/-- The codes of a loop, in turn. -/
def each {α : Type} (f : α → Code L) : List α → Code L
  | [] => skip
  | a :: as => (f a).seq (each f as)

end Code

/-- The locks that are taken have a higher rank than those that are held. -/
def Ordered [LT R] (rank : L → R) : List L → List (Act L) → Prop
  | _, [] => True
  | held, .lock l :: as => (∀ h ∈ held, rank h < rank l) ∧ Ordered rank (l :: held) as
  | held, .unlock l :: as => Ordered rank (held.erase l) as

section Ordered

variable [LT R] {rank : L → R} {held : List L}

theorem ordered_cons (a : Act L) (as : List (Act L)) :
    Ordered rank held (a :: as) ↔
      (∀ l, a = .lock l → ∀ h ∈ held, rank h < rank l) ∧ Ordered rank (a.on held) as := by
  cases a with
  | lock l => simp [Ordered, Act.on]
  | unlock l => simp [Ordered, Act.on]

theorem ordered_append_acts (as bs : List (Act L)) :
    Ordered rank held (as ++ bs) ↔ Ordered rank held as ∧ Ordered rank (heldAfter held as) bs := by
  induction as generalizing held with
  | nil => simp [Ordered, heldAfter]
  | cons a as ih => rw [List.cons_append, ordered_cons, ordered_cons, ih, and_assoc]; rfl

@[simp] theorem ordered_skip : Ordered rank held (Code.skip : Code L).acts := trivial

@[simp] theorem ordered_seq (c d : Code L) :
    Ordered rank held (c.seq d).acts ↔ Ordered rank held c.acts ∧ Ordered rank held d.acts := by
  rw [Code.seq, ordered_append_acts, c.neutral]

@[simp] theorem ordered_ite (p : Prop) [Decidable p] (c d : Code L) :
    Ordered rank held (if p then c else d).acts ↔
      (p → Ordered rank held c.acts) ∧ (¬ p → Ordered rank held d.acts) := by
  split <;> simp [*]

@[simp] theorem ordered_critical (l : L) (body : Code L) :
    Ordered rank held (body.critical l).acts ↔
      (∀ h ∈ held, rank h < rank l) ∧ Ordered rank (l :: held) body.acts := by
  simp only [Code.critical, Ordered, ordered_append_acts, and_true]

@[simp] theorem ordered_each {α : Type} (f : α → Code L) (as : List α) :
    Ordered rank held (Code.each f as).acts ↔ ∀ a ∈ as, Ordered rank held (f a).acts := by
  induction as with
  | nil => simp [Code.each]
  | cons a as ih => rw [Code.each, ordered_seq, ih, List.forall_mem_cons]

end Ordered

/-! ## Threads -/

/-- A thread: the locks it holds and what it has still to do. -/
structure Thread (L : Type) where
  held : List L
  todo : List (Act L)
  deriving DecidableEq, Repr

/-- An operation starts on a thread of its own, or a thread takes its next step. -/
inductive Event (O : Type)
  | start (op : O)
  | act (i : Nat)
  deriving DecidableEq, Repr

/-- A lock is granted while nobody holds it. -/
def grants (ts : List (Thread L)) : Act L → Bool
  | .lock l => ts.all fun t => l ∉ t.held
  | .unlock _ => true

def step (code : O → Code L) (ts : List (Thread L)) : Event O → Option (List (Thread L))
  | .start op => some (ts ++ [⟨[], (code op).acts⟩])
  | .act i =>
    match ts[i]? with
    | some ⟨held, a :: as⟩ => if grants ts a then some (ts.set i ⟨a.on held, as⟩) else none
    | _ => none

/-- What a step does. -/
theorem step_cases {code : O → Code L} {ts ts' : List (Thread L)} {e : Event O} (h : step code ts e = some ts') :
    (∃ op, e = .start op ∧ ts' = ts ++ [⟨[], (code op).acts⟩]) ∨
    (∃ i held a as, e = .act i ∧ ts[i]? = some ⟨held, a :: as⟩ ∧ grants ts a = true ∧
      ts' = ts.set i ⟨a.on held, as⟩) := by
  cases e with
  | start op => exact .inl ⟨op, rfl, (Option.some.inj h).symm⟩
  | act i =>
    simp only [step] at h
    split at h
    · rename_i held a as ht
      split at h
      · exact .inr ⟨i, held, a, as, rfl, ht, ‹_›, (Option.some.inj h).symm⟩
      · cases h
    · cases h

/-- The thread's next step is to take the lock. -/
def Wants (ts : List (Thread L)) (i : Nat) (l : L) : Prop := ∃ held as, ts[i]? = some ⟨held, .lock l :: as⟩

def Holds (ts : List (Thread L)) (i : Nat) (l : L) : Prop := ∃ t, ts[i]? = some t ∧ l ∈ t.held

/-- Thread `i` asks for a lock that thread `j` holds. -/
def WaitsFor (ts : List (Thread L)) (i j : Nat) : Prop := ∃ l, Wants ts i l ∧ Holds ts j l

/-- A cycle of threads, each waiting for a lock that the next one holds. -/
def Deadlock (ts : List (Thread L)) : Prop := ∃ i, Relation.TransGen (WaitsFor ts) i i

omit [DecidableEq L] in
theorem Wants.unique {ts : List (Thread L)} {i : Nat} {l m : L} (hl : Wants ts i l) (hm : Wants ts i m) : l = m := by
  obtain ⟨held, as, hl⟩ := hl
  obtain ⟨held', as', hm⟩ := hm
  have h := hl.symm.trans hm
  simp only [Option.some.injEq, Thread.mk.injEq, List.cons.injEq, Act.lock.injEq] at h
  exact h.2.1

/-! ## The discipline -/

/-- Every thread takes the locks it still has to take in their order. -/
def Disciplined [LT R] (rank : L → R) (ts : List (Thread L)) : Prop := ∀ t ∈ ts, Ordered rank t.held t.todo

section Discipline

variable {rank : L → R} {ts ts' : List (Thread L)}

theorem step_disciplined [LT R] {code : O → Code L} {e : Event O} (hd : Disciplined rank ts)
    (he : ∀ op, e = .start op → Ordered rank [] (code op).acts) (h : step code ts e = some ts') :
    Disciplined rank ts' := by
  rcases step_cases h with ⟨op, rfl, rfl⟩ | ⟨i, held, a, as, rfl, ht, -, rfl⟩
  · intro t ht
    rcases List.mem_append.1 ht with ht | ht
    · exact hd t ht
    · rw [List.mem_singleton.1 ht]
      exact he op rfl
  · intro t hm
    rcases List.mem_or_eq_of_mem_set hm with hm | rfl
    · exact hd t hm
    · exact ((ordered_cons a as).1 (hd _ (List.mem_of_getElem? ht))).2

theorem Disciplined.below [LT R] (hd : Disciplined rank ts) {i : Nat} {l h : L} (hl : Wants ts i l)
    (hh : Holds ts i h) : rank h < rank l := by
  obtain ⟨held, as, ht⟩ := hl
  obtain ⟨t, ht', hm⟩ := hh
  obtain rfl := Option.some.inj (ht.symm.trans ht')
  exact (hd _ (List.mem_of_getElem? ht)).1 h hm

/-- Along a chain of waiting threads the locks asked for rise. -/
theorem Disciplined.wants_rise [Preorder R] (hd : Disciplined rank ts) {i j : Nat}
    (hij : Relation.TransGen (WaitsFor ts) i j) {l m : L} (hl : Wants ts i l) (hm : Wants ts j m) :
    rank l < rank m := by
  induction hij generalizing m with
  | single h =>
    obtain ⟨l', hl', hh⟩ := h
    obtain rfl := hl.unique hl'
    exact hd.below hm hh
  | tail _ h ih =>
    obtain ⟨l', hl', hh⟩ := h
    exact lt_trans (ih hl') (hd.below hm hh)

theorem Disciplined.no_deadlock [Preorder R] (hd : Disciplined rank ts) : ¬ Deadlock ts := by
  rintro ⟨i, hi⟩
  obtain ⟨j, ⟨l, hl, -⟩, -⟩ := Relation.TransGen.head'_iff.1 hi
  exact lt_irrefl _ (hd.wants_rise hi hl hl)

end Discipline

end Lib.Lock
