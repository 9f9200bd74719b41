import Mathlib.Data.List.Basic

/-!
# Classic BPF

Filters as the kernel runs them on the data of a system call: a list of instructions over an accumulator of 32 bits,
with jumps that only go forward, so that what is left to run is always an end of the list.

* `Valid`: what the kernel checks before it takes a filter.
* `valid_denyList`, `run_denyList`: the filter that turns away the values of a list, and what it returns.
-/

namespace Lib.Bpf

/-- The instructions, by what they do: `BPF_LD | BPF_W | BPF_ABS`, `BPF_JMP | BPF_JEQ | BPF_K` and `BPF_RET | BPF_K`. -/
inductive Insn
  | ldAbs (k : UInt32)
  | jeq (k : UInt32) (jt jf : UInt8)
  | ret (k : UInt32)
  deriving DecidableEq, Repr

abbrev Program := List Insn

/-- The value that a program returns on data from which `load` reads a word; `none` if it runs off its end, reads where
there is nothing or runs out of fuel. -/
def run (load : UInt32 → Option UInt32) : Nat → UInt32 → Program → Option UInt32
  | 0, _, _ => none
  | _ + 1, _, [] => none
  | n + 1, _, .ldAbs k :: p => (load k).bind fun a => run load n a p
  | n + 1, a, .jeq k jt jf :: p => run load n a (p.drop (if a = k then jt.toNat else jf.toNat))
  | _ + 1, _, .ret k :: _ => some k

/-- Every instruction runs at most once. -/
def verdict (load : UInt32 → Option UInt32) (p : Program) : Option UInt32 := run load p.length 0 p

/-- The instruction is fine before the rest of the program: it reads inside the data, it jumps to an instruction, and it
returns if it is the last. -/
def Insn.Fine (size : Nat) (rest : Program) : Insn → Prop
  | .ldAbs k => k.toNat % 4 = 0 ∧ k.toNat < size ∧ rest ≠ []
  | .jeq _ jt jf => jt.toNat < rest.length ∧ jf.toNat < rest.length
  | .ret _ => True

instance (size : Nat) (rest : Program) : DecidablePred (Insn.Fine size rest)
  | .ldAbs _ => inferInstanceAs (Decidable (_ ∧ _ ∧ _))
  | .jeq _ _ _ => inferInstanceAs (Decidable (_ ∧ _))
  | .ret _ => .isTrue trivial

/-- All instructions of a program are. -/
def AllFine (size : Nat) : Program → Prop
  | [] => True
  | i :: p => i.Fine size p ∧ AllFine size p

instance (size : Nat) : DecidablePred (AllFine size) := fun p =>
  p.rec (.isTrue trivial) fun i p ih => @instDecidableAnd (i.Fine size p) (AllFine size p) inferInstance ih

/-- What the kernel checks of a program on data of `size` bytes. -/
def Valid (size : Nat) (p : Program) : Prop := p ≠ [] ∧ p.length ≤ 4096 ∧ AllFine size p

instance (size : Nat) : DecidablePred (Valid size) := fun _ => inferInstanceAs (Decidable (_ ∧ _ ∧ _))

/-! ## Turning away a list of values -/

/-- The tests of a list of values, each followed by the return for it. -/
def denials (e : UInt32) (ks : List UInt32) (rest : Program) : Program :=
  ks.foldr (fun k p => .jeq k 0 1 :: .ret e :: p) rest

/-- The program that returns `e` on data with one of the values at the offset, and `a` on any other. -/
def denyList (off : UInt32) (ks : List UInt32) (e a : UInt32) : Program := .ldAbs off :: denials e ks [.ret a]

theorem length_denials (e : UInt32) (ks : List UInt32) (rest : Program) :
    (denials e ks rest).length = 2 * ks.length + rest.length := by
  induction ks with
  | nil => simp [denials]
  | cons k ks ih =>
    show (denials e ks rest).length + 1 + 1 = _
    rw [ih, List.length_cons]
    omega

theorem allFine_denials {size : Nat} (e : UInt32) (ks : List UInt32) {rest : Program} (hne : rest ≠ [])
    (h : AllFine size rest) : AllFine size (denials e ks rest) := by
  induction ks with
  | nil => exact h
  | cons k ks ih =>
    have hpos := List.length_pos_of_ne_nil hne
    have hlen := length_denials e ks rest
    refine ⟨⟨?_, ?_⟩, trivial, ih⟩
    · exact Nat.succ_pos _
    · show 1 < (denials e ks rest).length + 1
      omega

/-- The kernel takes the program if there are not too many values. -/
theorem valid_denyList {size : Nat} {off : UInt32} (hoff : off.toNat % 4 = 0 ∧ off.toNat < size) {ks : List UInt32}
    (hks : ks.length ≤ 2047) (e a : UInt32) : Valid size (denyList off ks e a) := by
  have hlen := length_denials e ks [.ret a]
  refine ⟨by simp [denyList], ?_, ⟨hoff.1, hoff.2, fun h => ?_⟩, allFine_denials e ks (by simp) ⟨trivial, trivial⟩⟩
  · simp only [denyList, List.length_cons, List.length_nil] at hlen ⊢
    omega
  · rw [h] at hlen
    simp at hlen

/-- The tests are gone through until one of them holds. -/
theorem run_denials (load : UInt32 → Option UInt32) (e a w : UInt32) {ks : List UInt32} {n : Nat}
    (hn : 2 * ks.length < n) : run load n w (denials e ks [.ret a]) = some (if w ∈ ks then e else a) := by
  induction ks generalizing n with
  | nil =>
    obtain ⟨n, rfl⟩ : ∃ m, n = m + 1 := ⟨n - 1, by simp at hn; omega⟩
    simp [denials, run]
  | cons k ks ih =>
    rw [List.length_cons] at hn
    obtain ⟨n, rfl⟩ : ∃ m, n = m + 2 := ⟨n - 2, by omega⟩
    show run load (n + 1) w ((Insn.ret e :: denials e ks [.ret a]).drop (if w = k then 0 else 1)) = _
    by_cases hk : w = k
    · simp [hk, run]
    · rw [if_neg hk, List.drop_one, List.tail_cons, ih (by omega)]
      simp [hk]

/-- **What the program returns.** -/
theorem run_denyList {load : UInt32 → Option UInt32} {off w : UInt32} (hw : load off = some w) (ks : List UInt32)
    (e a : UInt32) : verdict load (denyList off ks e a) = some (if w ∈ ks then e else a) := by
  have hlen := length_denials e ks [.ret a]
  show ((load off).bind fun a' => run load (denials e ks [.ret a]).length a' (denials e ks [.ret a])) = _
  rw [hw, Option.bind_some]
  refine run_denials load e a w ?_
  rw [hlen]
  simp

end Lib.Bpf
