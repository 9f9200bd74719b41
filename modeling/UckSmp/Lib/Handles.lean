import Mathlib.Data.Multiset.AddSub

/-!
# Code that holds handles

Memory, references, sockets and locks that a piece of code acquires and has to give up again. A run passes the multiset
of the handles that are held, and has no result when a handle is given up or used that is not held, or when the code
sleeps with an atomic one.

`Spec atomic P m Q` says that `m`, from the handles `P` and any others with which it may sleep, returns some `a` with
handles `H` such that `Q a H`, and the others. The rules follow the code from its first operation on.

* `Spec.bind`, `Spec.andThen`: a piece of code, and what comes after it.
* `Spec.each`: a loop whose body gives up what it acquires.
* `Stuck.after`, `Stuck.each`: code that goes wrong after other code, and in a loop.
-/

namespace Lib.Handles

variable {ρ α β γ : Type}

abbrev Run (ρ α : Type) := StateT (Multiset ρ) Option α

/-! ## Operations -/

def acquire (r : ρ) : Run ρ Unit := fun s => some ((), r ::ₘ s)

def release [DecidableEq ρ] (r : ρ) : Run ρ Unit := fun s => if r ∈ s then some ((), s.erase r) else none

def use [DecidableEq ρ] (r : ρ) : Run ρ Unit := fun s => if r ∈ s then some ((), s) else none

/-- All handles allow sleeping. -/
def Quiet (atomic : ρ → Bool) (P : Multiset ρ) : Prop := ∀ r ∈ P, atomic r = false

instance (atomic : ρ → Bool) (P : Multiset ρ) : Decidable (Quiet atomic P) :=
  inferInstanceAs (Decidable (∀ r ∈ P, atomic r = false))

/-- A call that may sleep. -/
def sleep (atomic : ρ → Bool) : Run ρ Unit := fun s => if Quiet atomic s then some ((), s) else none

/-- A loop over a list. -/
def each (f : γ → Run ρ Unit) : List γ → Run ρ Unit
  | [] => pure ()
  | x :: l => do
    f x
    each f l

theorem each_append (f : γ → Run ρ Unit) (l l' : List γ) :
    each f (l ++ l') = each f l >>= fun _ => each f l' := by
  induction l with
  | nil => rfl
  | cons x l ih => simp only [List.cons_append, each, ih, bind_assoc]

section Quiet

variable {atomic : ρ → Bool} {P P' : Multiset ρ}

@[simp] theorem quiet_zero : Quiet atomic 0 := fun r hr => absurd hr (Multiset.notMem_zero r)

@[simp] theorem quiet_cons {r : ρ} : Quiet atomic (r ::ₘ P) ↔ atomic r = false ∧ Quiet atomic P := by
  simp [Quiet]

@[simp] theorem quiet_add : Quiet atomic (P + P') ↔ Quiet atomic P ∧ Quiet atomic P' := by
  simp only [Quiet, Multiset.mem_add]
  exact ⟨fun h => ⟨fun r hr => h r (.inl hr), fun r hr => h r (.inr hr)⟩, fun h r hr => hr.elim (h.1 r) (h.2 r)⟩

end Quiet

/-! ## Triples -/

/-- From the handles `P`, and others with which it may sleep, `m` comes to `Q`, and leaves the others alone. -/
def Spec (atomic : ρ → Bool) (P : Multiset ρ) (m : Run ρ α) (Q : α → Multiset ρ → Prop) : Prop :=
  ∀ F : Multiset ρ, Quiet atomic F → ∃ a H, m (P + F) = some (a, H + F) ∧ Q a H

section Spec

variable {atomic : ρ → Bool} {P : Multiset ρ} {m : Run ρ α} {Q : α → Multiset ρ → Prop} {R : β → Multiset ρ → Prop}
  {r : ρ}

theorem bind_apply (m : Run ρ α) (f : α → Run ρ β) (s : Multiset ρ) :
    (m >>= f) s = (m s).bind fun p => f p.1 p.2 := rfl

theorem Spec.pure {a : α} (h : Q a P) : Spec atomic P (Pure.pure a) Q := fun _ _ => ⟨a, P, rfl, h⟩

theorem Spec.bind {f : α → Run ρ β} (hm : Spec atomic P m Q) (hf : ∀ a H, Q a H → Spec atomic H (f a) R) :
    Spec atomic P (m >>= f) R := by
  intro F hF
  obtain ⟨a, H, ha, hQ⟩ := hm F hF
  obtain ⟨b, K, hb, hR⟩ := hf a H hQ F hF
  refine ⟨b, K, ?_, hR⟩
  rw [bind_apply, ha, Option.bind_some, hb]

/-- Code that gives up what it acquires, and what comes after it. -/
theorem Spec.andThen {f : α → Run ρ β} (hm : Spec atomic P m fun _ H => H = P) (hf : ∀ a, Spec atomic P (f a) R) :
    Spec atomic P (m >>= f) R := by
  refine hm.bind fun a H hH => ?_
  rw [hH]
  exact hf a

theorem Spec.mono {Q' : α → Multiset ρ → Prop} (h : Spec atomic P m Q) (hQ : ∀ a H, Q a H → Q' a H) :
    Spec atomic P m Q' := by
  intro F hF
  obtain ⟨a, H, ha, hq⟩ := h F hF
  exact ⟨a, H, ha, hQ a H hq⟩

/-- With fewer others. -/
theorem Spec.bar {barred : ρ → Bool} (h : Spec atomic P m Q) (hb : ∀ r, atomic r = true → barred r = true) :
    Spec barred P m Q := by
  intro F hF
  refine h F fun r hr => Bool.eq_false_iff.2 fun ha => ?_
  exact Bool.false_ne_true ((hF r hr).symm.trans (hb r ha))

/-! The operations, alone and before other code. -/

theorem acquire_spec (r : ρ) : Spec atomic P (acquire r) fun _ H => H = r ::ₘ P :=
  fun F _ => ⟨(), r ::ₘ P, by rw [Multiset.cons_add]; rfl, rfl⟩

theorem sleep_spec (hP : Quiet atomic P) : Spec atomic P (sleep atomic) fun _ H => H = P :=
  fun _ hF => ⟨(), P, if_pos (quiet_add.2 ⟨hP, hF⟩), rfl⟩

theorem Spec.acquire (r : ρ) {f : Unit → Run ρ β} (h : Spec atomic (r ::ₘ P) (f ()) R) :
    Spec atomic P (acquire r >>= f) R := by
  refine (acquire_spec r).bind fun _ H hH => ?_
  rw [hH]
  exact h

theorem Spec.sleep {f : Unit → Run ρ β} (hP : Quiet atomic P) (h : Spec atomic P (f ()) R) :
    Spec atomic P (sleep atomic >>= f) R := (sleep_spec hP).andThen fun _ => h

section Release

variable [DecidableEq ρ] {f : Unit → Run ρ β}

theorem release_spec (hr : r ∈ P) : Spec atomic P (release r) fun _ H => H = P.erase r := by
  intro F _
  refine ⟨(), P.erase r, ?_, rfl⟩
  have hmem : r ∈ P + F := Multiset.mem_add.2 (.inl hr)
  rw [release, if_pos hmem, Multiset.erase_add_left_pos F hr]

theorem use_spec (hr : r ∈ P) : Spec atomic P (use r) fun _ H => H = P :=
  fun _ _ => ⟨(), P, if_pos (Multiset.mem_add.2 (.inl hr)), rfl⟩

theorem Spec.release (hr : r ∈ P) (h : Spec atomic (P.erase r) (f ()) R) : Spec atomic P (release r >>= f) R := by
  refine (release_spec hr).bind fun _ H hH => ?_
  rw [hH]
  exact h

/-- The handle that was acquired last is given up. -/
theorem Spec.releaseLast (h : Spec atomic P (f ()) R) : Spec atomic (r ::ₘ P) (Handles.release r >>= f) R := by
  refine .release (Multiset.mem_cons_self r P) ?_
  rwa [Multiset.erase_cons_head]

theorem Spec.use (hr : r ∈ P) (h : Spec atomic P (f ()) R) : Spec atomic P (use r >>= f) R :=
  (use_spec hr).andThen fun _ => h

end Release

/-- A loop whose body gives up what it acquires. -/
theorem Spec.each {f : γ → Run ρ Unit} {l : List γ} (h : ∀ x ∈ l, Spec atomic P (f x) fun _ H => H = P) :
    Spec atomic P (each f l) fun _ H => H = P := by
  induction l with
  | nil => exact .pure rfl
  | cons x l ih => exact (h x List.mem_cons_self).andThen fun _ => ih fun y hy => h y (List.mem_cons_of_mem _ hy)

/-- Giving up the handles of a list, which have to be there. -/
theorem each_release [DecidableEq ρ] (l : List ρ) (s : Multiset ρ) :
    each release l s = if (l : Multiset ρ) ≤ s then some ((), s - l) else none := by
  induction l generalizing s with
  | nil =>
    show some ((), s) = _
    rw [Multiset.coe_nil, if_pos (Multiset.zero_le s), Multiset.sub_zero]
  | cons r l ih =>
    show ((release r s).bind fun p => each release l p.2) = _
    rw [← Multiset.cons_coe]
    by_cases hr : r ∈ s
    · have hrelease : release r s = some ((), s.erase r) := if_pos hr
      have hle : r ::ₘ (l : Multiset ρ) ≤ s ↔ (l : Multiset ρ) ≤ s.erase r := by
        conv_lhs => rw [← Multiset.cons_erase hr]
        exact Multiset.cons_le_cons_iff r
      rw [hrelease, Option.bind_some, ih]
      simp only [hle, Multiset.sub_cons]
    · have hrelease : release r s = none := if_neg hr
      have hle : ¬ r ::ₘ (l : Multiset ρ) ≤ s := fun h => hr (Multiset.subset_of_le h (Multiset.mem_cons_self r l))
      rw [hrelease, Option.bind_none, if_neg hle]

/-- What a run from no handles leaves. -/
theorem Spec.run_zero (h : Spec atomic 0 m Q) : ∃ a H, m 0 = some (a, H) ∧ Q a H := by
  obtain ⟨a, H, ha, hq⟩ := h 0 quiet_zero
  rw [Multiset.add_zero, Multiset.add_zero] at ha
  exact ⟨a, H, ha, hq⟩

/-! ## Code that goes wrong -/

/-- From the handles `P`, and others with which it may sleep, `m` has no result. -/
def Stuck (atomic : ρ → Bool) (P : Multiset ρ) (m : Run ρ α) : Prop :=
  ∀ F : Multiset ρ, Quiet atomic F → m (P + F) = none

theorem Stuck.bind {f : α → Run ρ β} (h : Stuck atomic P m) : Stuck atomic P (m >>= f) := by
  intro F hF
  rw [bind_apply, h F hF, Option.bind_none]

/-- Code that goes wrong after other code. -/
theorem Stuck.after {f : α → Run ρ β} (hm : Spec atomic P m Q) (hf : ∀ a H, Q a H → Stuck atomic H (f a)) :
    Stuck atomic P (m >>= f) := by
  intro F hF
  obtain ⟨a, H, ha, hQ⟩ := hm F hF
  rw [bind_apply, ha, Option.bind_some, hf a H hQ F hF]

theorem Stuck.andThen {f : α → Run ρ β} {P' : Multiset ρ} (hm : Spec atomic P m fun _ H => H = P')
    (hf : ∀ a, Stuck atomic P' (f a)) : Stuck atomic P (m >>= f) := by
  refine .after hm fun a H hH => ?_
  rw [hH]
  exact hf a

/-- A loop whose body gives up what it acquires, but for an item on which it goes wrong. -/
theorem Stuck.each {f : γ → Run ρ Unit} {l : List γ} {bad : γ → Prop} (hbad : ∀ x, bad x → Stuck atomic P (f x))
    (hgood : ∀ x, ¬ bad x → Spec atomic P (f x) fun _ H => H = P) (h : ∃ x ∈ l, bad x) :
    Stuck atomic P (Handles.each f l) := by
  induction l with
  | nil => obtain ⟨x, hx, -⟩ := h; cases hx
  | cons y l ih =>
    by_cases hy : bad y
    · exact (hbad y hy).bind
    · refine .andThen (hgood y hy) fun _ => ih ?_
      obtain ⟨x, hx, hxb⟩ := h
      rcases List.mem_cons.1 hx with rfl | hx
      · exact absurd hxb hy
      · exact ⟨x, hx, hxb⟩

/-- Using a handle that neither the code nor the others hold. -/
theorem Stuck.use [DecidableEq ρ] (hbar : atomic r = true) (hr : r ∉ P) : Stuck atomic P (use r) := by
  intro F hF
  refine if_neg fun hmem => ?_
  rcases Multiset.mem_add.1 hmem with h | h
  · exact hr h
  · exact absurd (hF r h) (by simp [hbar])

/-- Sleeping with an atomic handle. -/
theorem Stuck.sleep (h : ¬ Quiet atomic P) : Stuck atomic P (sleep atomic) :=
  fun _ _ => if_neg fun hquiet => h (quiet_add.1 hquiet).1

theorem Stuck.run_zero (h : Stuck atomic 0 m) : m 0 = none := by
  have hnone := h 0 quiet_zero
  rwa [Multiset.add_zero] at hnone

end Spec

end Lib.Handles
