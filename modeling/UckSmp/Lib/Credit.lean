import UckSmp.Lib.Transition

/-!
# Accounting for what a run gains

Events happen at times that do not decrease, and some of them gain something. A state has a credit, which grows with the
time and out of which every gain is paid: `k` for each unit.

* `total_le`: what a run gains is paid for by the credit that it starts with and what accrues in the meantime.
-/

namespace Lib.Credit

variable {σ ε : Type*}

/-- What the events of a run gain. -/
def total (step : σ → ε → Option σ) (gain : σ → ε → Nat) : σ → List ε → Nat
  | _, [] => 0
  | s, e :: es => (step s e).elim 0 fun t => gain s e + total step gain t es

/-- **The rule of accounting.** The invariant is for what the credit depends on beside the time. -/
theorem total_le {step : σ → ε → Option σ} {gain : σ → ε → Nat} {time : ε → Nat} {credit : σ → Nat → Nat} {k c : Nat}
    (Inv : σ → Prop)
    (hstep : ∀ s e t, Inv s → step s e = some t → Inv t ∧ credit t (time e) + k * gain s e ≤ credit s (time e))
    (hwait : ∀ s a b, Inv s → a ≤ b → credit s b ≤ credit s a + c * (b - a)) {es : List ε}
    (hes : es.Pairwise fun e e' => time e ≤ time e') {s : σ} {a b : Nat} (h0 : Inv s) (hab : a ≤ b)
    (hin : ∀ e ∈ es, a ≤ time e ∧ time e ≤ b) : k * total step gain s es ≤ credit s a + c * (b - a) := by
  induction es generalizing s a with
  | nil => exact Nat.zero_le _
  | cons e es ih =>
    obtain ⟨hlater, hes⟩ := List.pairwise_cons.1 hes
    obtain ⟨hae, heb⟩ := hin e List.mem_cons_self
    rw [total]
    cases ht : step s e with
    | none => exact Nat.zero_le _
    | some t =>
      obtain ⟨hinv, hpaid⟩ := hstep s e t h0 ht
      -- the rest of the run starts at the time of this event
      have hrest := ih hes hinv heb fun e' he' => ⟨hlater e' he', (hin e' (List.mem_cons_of_mem _ he')).2⟩
      have hearned := hwait s a (time e) h0 hae
      have hsplit : c * (b - a) = c * (time e - a) + c * (b - time e) := by
        rw [← Nat.mul_add]
        congr 1
        omega
      rw [Option.elim_some, Nat.mul_add]
      omega

end Lib.Credit
