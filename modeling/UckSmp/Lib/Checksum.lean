import Mathlib.Data.List.Basic
import Mathlib.Logic.Function.Iterate

/-!
# Checksums

A checksum takes a register over the letters of a message. If a step loses neither the register nor the letter, two
messages that differ in one letter have different checksums. The register of a cyclic code is of that kind.

* `Reversible.foldl_set_ne`: one letter is changed.
* `shiftReg_injective`: the shift of a cyclic code.
-/

namespace Lib

variable {σ α : Type*} {step : σ → α → σ}

/-- A step that can be undone when the letter is known, and does something else for every letter. -/
structure Reversible (step : σ → α → σ) : Prop where
  register : ∀ a, Function.Injective fun s => step s a
  letter : ∀ s, Function.Injective (step s)

theorem Reversible.foldl_injective (h : Reversible step) (l : List α) :
    Function.Injective fun s => l.foldl step s := by
  induction l with
  | nil => exact fun _ _ heq => heq
  | cons a l ih => exact fun s t heq => h.register a (ih heq)

/-- The registers part at the letter that was changed, and never meet again. -/
theorem Reversible.foldl_set_ne (h : Reversible step) {l : List α} {k : Nat} {a : α} (hk : k < l.length)
    (ha : l[k]? ≠ some a) (s : σ) : (l.set k a).foldl step s ≠ l.foldl step s := by
  induction l generalizing k s with
  | nil => cases hk
  | cons b l ih =>
    cases k with
    | zero =>
      intro heq
      have hstep : step s a = step s b := h.foldl_injective l heq
      exact ha (congrArg some (h.letter s hstep).symm)
    | succ k => exact ih (Nat.lt_of_succ_lt_succ hk) ha (step s b)

/-! ## Cyclic codes -/

variable {w : Nat} {poly : BitVec w}

/-- A shift of the register; the polynomial stands in it with the lowest power on top. -/
def shiftReg (poly c : BitVec w) : BitVec w := (c >>> 1) ^^^ (if c.getLsbD 0 then poly else 0)

/-- The bit that was shifted out is on top. -/
theorem msb_shiftReg (hp : poly.msb = true) (c : BitVec w) : (shiftReg poly c).msb = c.getLsbD 0 := by
  have hmsb : (c >>> 1).msb = false := by
    rw [BitVec.msb_ushiftRight]
    simp
  rw [shiftReg, BitVec.msb_xor, hmsb, Bool.false_xor]
  cases c.getLsbD 0 with
  | true => exact hp
  | false => simp

theorem shiftReg_injective (hp : poly.msb = true) : Function.Injective (shiftReg poly) := by
  intro c d heq
  have hlow : c.getLsbD 0 = d.getLsbD 0 := by rw [← msb_shiftReg hp c, heq, msb_shiftReg hp d]
  have hshift : c >>> 1 = d >>> 1 := by
    rw [shiftReg, shiftReg, hlow] at heq
    exact (BitVec.xor_left_inj _).1 heq
  apply BitVec.eq_of_getLsbD_eq
  intro i hi
  cases i with
  | zero => exact hlow
  | succ i =>
    have hbit := congrArg (fun x => x.getLsbD i) hshift
    simp only [BitVec.getLsbD_ushiftRight] at hbit
    rwa [Nat.add_comm]

end Lib
