import Mathlib.Data.Sum.Basic

/-!
# Loops

A loop is given by its body, which goes on with a new state (`inl`) or leaves the loop with a result (`inr`). `iterate`
makes at most a given number of rounds, so that it computes; a loop that ends does so for every number that is large
enough.

* `iterate_total`: a loop with an invariant and a variant ends, with one result however many rounds it is given.
* `iterate_rel`: two loops that go through related states end together, with related results.
-/

namespace Lib.Loop

variable {σ τ ρ π : Type*} {body : σ → σ ⊕ ρ} {body' : τ → τ ⊕ π} {s : σ}

/-- The result of a loop that is left within so many rounds. -/
def iterate (body : σ → σ ⊕ ρ) : (rounds : Nat) → σ → Option ρ
  | 0, _ => none
  | rounds + 1, s =>
    match body s with
    | .inl t => iterate body rounds t
    | .inr r => some r

theorem iterate_inl {t : σ} (h : body s = .inl t) (rounds : Nat) :
    iterate body (rounds + 1) s = iterate body rounds t := by
  rw [iterate, h]

theorem iterate_inr {r : ρ} (h : body s = .inr r) (rounds : Nat) : iterate body (rounds + 1) s = some r := by
  rw [iterate, h]

/-- **Total correctness.** Every round that goes on keeps the invariant and lowers the variant. -/
theorem iterate_total (Inv : σ → Prop) (variant : σ → Nat) (Post : ρ → Prop)
    (hgo : ∀ s t, Inv s → body s = .inl t → Inv t ∧ variant t < variant s)
    (hleave : ∀ s r, Inv s → body s = .inr r → Post r) (h : Inv s) :
    ∃ r, Post r ∧ ∀ rounds, variant s < rounds → iterate body rounds s = some r := by
  induction hv : variant s using Nat.strongRecOn generalizing s with
  | ind v ih =>
    subst hv
    cases hbody : body s with
    | inl t =>
      obtain ⟨ht, hlt⟩ := hgo s t h hbody
      obtain ⟨r, hr, hend⟩ := ih (variant t) hlt ht rfl
      refine ⟨r, hr, fun rounds hrounds => ?_⟩
      cases rounds with
      | zero => omega
      | succ rounds =>
        rw [iterate_inl hbody]
        exact hend rounds (by omega)
    | inr r =>
      refine ⟨r, hleave s r h hbody, fun rounds hrounds => ?_⟩
      cases rounds with
      | zero => omega
      | succ rounds => exact iterate_inr hbody rounds

/-- Loops in step with each other. -/
theorem iterate_rel {R : σ → τ → Prop} {Q : ρ → π → Prop}
    (hbody : ∀ s t, R s t → Sum.LiftRel R Q (body s) (body' t)) {t : τ} (h : R s t) {rounds : Nat} {r : ρ}
    (hr : iterate body rounds s = some r) : ∃ p, iterate body' rounds t = some p ∧ Q r p := by
  induction rounds generalizing s t with
  | zero => cases hr
  | succ rounds ih =>
    have hrel := hbody s t h
    cases hs : body s with
    | inl s' =>
      rw [hs] at hrel
      cases ht : body' t with
      | inl t' =>
        rw [ht, Sum.liftRel_inl_inl] at hrel
        rw [iterate_inl hs] at hr
        rw [iterate_inl ht]
        exact ih hrel hr
      | inr p =>
        rw [ht] at hrel
        cases hrel
    | inr r' =>
      rw [hs] at hrel
      cases ht : body' t with
      | inl t' =>
        rw [ht] at hrel
        cases hrel
      | inr p =>
        rw [ht, Sum.liftRel_inr_inr] at hrel
        rw [iterate_inr hs] at hr
        cases hr
        exact ⟨p, iterate_inr ht rounds, hrel⟩

end Lib.Loop
