import Mathlib.Data.List.Basic

/-!
# Decimal numerals in C strings

`strtol`, `strtoul` and the conversions of `sscanf` as glibc has them: white space and a sign in front, the digits as
far as they go, a result that stays at the end of the range when the number is outside. Each `Char` stands for one
`char`.

* `numeral?`: the number that a text writes, when it writes nothing else.
* `scan_append`: a numeral is read as its number, up to the character after it.
* `toNat_toULong`, `toNat_toLong_toInt32`: within their ranges the results are the number.
-/

namespace Lib.Numerals

abbrev Text := List Char

/-- `isspace` in the C locale. -/
def isSpace (c : Char) : Bool := c.toNat = 32 || (9 ≤ c.toNat && c.toNat ≤ 13)

/-- The sign in front of a number: whether it is a minus, and what follows. -/
def sign : Text → Bool × Text
  | [] => (false, [])
  | c :: t => if c = '-' then (true, t) else if c = '+' then (false, t) else (false, c :: t)

/-- The number with the given digits. -/
def digitsValue (ds : Text) : Nat := ds.foldl (fun n c => 10 * n + (c.toNat - '0'.toNat)) 0

def signed (neg : Bool) (n : Nat) : Int := if neg then -n else n

/-- The number at the beginning of a text, and the rest of the text. -/
def scan (t : Text) : Option (Int × Text) :=
  let (neg, t) := sign (t.dropWhile isSpace)
  let ds := t.takeWhile Char.isDigit
  if ds = [] then none else some (signed neg (digitsValue ds), t.dropWhile Char.isDigit)

/-- The result of `strtoul` for a number. -/
def toULong (v : Int) : UInt64 := if v.natAbs < UInt64.size then .ofInt v else .ofNat (UInt64.size - 1)

/-- The result of `strtol` for a number. -/
def toLong (v : Int) : Int64 :=
  if v < Int64.minValue.toInt then .minValue else if Int64.maxValue.toInt < v then .maxValue else .ofInt v

/-- `atoi`. -/
def atoi (t : Text) : Int32 :=
  match scan t with
  | none => 0
  | some (v, _) => (toLong v).toInt32

/-- The number that a text writes: an optional sign and digits, and nothing else. -/
def numeral? (t : Text) : Option Int :=
  let (neg, ds) := sign t
  if ds ≠ [] ∧ ds.all Char.isDigit then some (signed neg (digitsValue ds)) else none

/-! ## Scanning -/

theorem toNat_of_isDigit {c : Char} (h : c.isDigit = true) : 48 ≤ c.toNat ∧ c.toNat ≤ 57 := by
  simp only [Char.isDigit, Bool.and_eq_true, decide_eq_true_eq] at h
  exact h

/-- A numeral is a sign and digits. -/
theorem numeral?_eq_some {t : Text} {v : Int} (h : numeral? t = some v) :
    (sign t).2 ≠ [] ∧ (sign t).2.all Char.isDigit = true ∧ v = signed (sign t).1 (digitsValue (sign t).2) := by
  simp only [numeral?] at h
  split at h
  · rename_i hds
    exact ⟨hds.1, hds.2, (Option.some.inj h).symm⟩
  · cases h

/-- No white space is skipped in front of a numeral. -/
theorem dropWhile_isSpace {t rest : Text} {v : Int} (h : numeral? t = some v) :
    (t ++ rest).dropWhile isSpace = t ++ rest := by
  obtain ⟨hne, hall, -⟩ := numeral?_eq_some h
  cases t with
  | nil => exact absurd rfl hne
  | cons c t =>
    have hc : isSpace c = false := by
      by_cases hminus : c = '-'
      · rw [hminus]
        decide
      by_cases hplus : c = '+'
      · rw [hplus]
        decide
      rw [sign, if_neg hminus, if_neg hplus, List.all_cons, Bool.and_eq_true] at hall
      obtain ⟨hlow, -⟩ := toNat_of_isDigit hall.1
      have hblank : ¬ c.toNat = 32 := by omega
      have htab : ¬ c.toNat ≤ 13 := by omega
      simp [isSpace, hblank, htab]
    rw [List.cons_append, List.dropWhile_cons, if_neg (Bool.not_eq_true _ ▸ hc)]

/-- What follows a numeral does not matter for its sign. -/
theorem sign_append {t : Text} (rest : Text) (hne : (sign t).2 ≠ []) :
    sign (t ++ rest) = ((sign t).1, (sign t).2 ++ rest) := by
  cases t with
  | nil => exact absurd rfl hne
  | cons c t =>
    simp only [List.cons_append, sign]
    split
    · rfl
    · split <;> rfl

theorem takeWhile_digits {ds rest : Text} (hds : ds.all Char.isDigit = true)
    (hrest : ∀ c ∈ rest.head?, c.isDigit = false) :
    (ds ++ rest).takeWhile Char.isDigit = ds ∧ (ds ++ rest).dropWhile Char.isDigit = rest := by
  induction ds with
  | nil =>
    cases rest with
    | nil => exact ⟨rfl, rfl⟩
    | cons c rest => simp [hrest c rfl]
  | cons d ds ih =>
    obtain ⟨hd, hds⟩ := Bool.and_eq_true_iff.1 hds
    obtain ⟨htake, hdrop⟩ := ih hds
    simp [hd, htake, hdrop]

/-- **A numeral is read as its number**, up to a character that is no digit. -/
theorem scan_append {t rest : Text} {v : Int} (h : numeral? t = some v) (hrest : ∀ c ∈ rest.head?, c.isDigit = false) :
    scan (t ++ rest) = some (v, rest) := by
  obtain ⟨hne, hall, hv⟩ := numeral?_eq_some h
  obtain ⟨htake, hdrop⟩ := takeWhile_digits hall hrest
  simp only [scan, dropWhile_isSpace h, sign_append rest hne, htake, hdrop, if_neg hne, hv]

theorem scan_numeral {t : Text} {v : Int} (h : numeral? t = some v) : scan t = some (v, []) := by
  have hscan : scan (t ++ []) = some (v, []) := scan_append h nofun
  rwa [List.append_nil] at hscan

/-! ## Results within their ranges -/

theorem toNat_toULong {v : Int} (h0 : 0 ≤ v) (h : v < UInt64.size) : ((toULong v).toNat : Int) = v := by
  have habs : v.natAbs < UInt64.size := by omega
  rw [toULong, if_pos habs, UInt64.ofInt]
  simp only [UInt64.size] at h
  simp
  omega

theorem toLong_eq {v : Int} (h0 : 0 ≤ v) (h : v < UInt32.size) : toLong v = .ofInt v := by
  have hmin : ¬ v < Int64.minValue.toInt := Int.not_lt.2 (Int.le_trans (by decide) h0)
  have hmax : ¬ Int64.maxValue.toInt < v := Int.not_lt.2 (Int.le_trans (Int.le_of_lt h) (by decide))
  rw [toLong, if_neg hmin, if_neg hmax]

/-- A number below `2 ^ 32` is the same as an unsigned one, whether it was read by `%u` or by `%d`. -/
theorem toNat_toULong_toUInt32 {v : Int} (h0 : 0 ≤ v) (h : v < UInt32.size) :
    ((toULong v).toUInt32.toNat : Int) = v := by
  have hlong := toNat_toULong h0 (Int.lt_trans h (by decide))
  rw [UInt64.toNat_toUInt32]
  simp only [UInt32.size] at h
  omega

theorem toNat_toLong_toInt32 {v : Int} (h0 : 0 ≤ v) (h : v < UInt32.size) :
    ((toLong v).toInt32.toUInt32.toNat : Int) = v := by
  rw [toLong_eq h0 h, Int64.toInt32_ofInt]
  show (((BitVec.ofInt 32 v).toNat : Nat) : Int) = v
  simp only [UInt32.size] at h
  rw [BitVec.toNat_ofInt]
  omega

end Lib.Numerals
