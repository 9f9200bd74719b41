import Mathlib.Data.List.Basic
import Mathlib.Tactic.Ring

/-!
# Fixed-size binary layouts

A `Codec` lays a value out in a fixed number of bytes and reads it back from the front of any buffer that starts with
them. Codecs of C structures are built from those of their members with `seq` and `retract`; arrays of them are
`encAll` and `decAll`.

* `leNat_leBytes`, `leBytes_leNat`: integers, least significant byte first.
* `decAll_encAll`: arrays; `decAll_eq_take`: reading one looks at its own bytes (`Local`).
* `decUpTo_eq_iff`: what a loop that reads records until the buffer is short gets, when the layout has no padding
  (`Exact`).
-/

namespace Lib

abbrev Byte := UInt8

/-! ## Integers -/

/-- The `w` low bytes of `n`, the least significant first. -/
def leBytes (n : Nat) : Nat → List Byte
  | 0 => []
  | w + 1 => UInt8.ofNat n :: leBytes (n / 256) w

def leNat : List Byte → Nat
  | [] => 0
  | b :: bs => leNat bs * 256 + b.toNat

@[simp] theorem length_leBytes (n w : Nat) : (leBytes n w).length = w := by
  induction w generalizing n with
  | zero => rfl
  | succ w ih => simp [leBytes, ih]

theorem leNat_leBytes : ∀ (w n : Nat), n < 256 ^ w → leNat (leBytes n w) = n
  | 0, n, h => by
    have h0 : n < 1 := h
    simp only [leBytes, leNat]
    omega
  | w + 1, n, h => by
    have hq : n / 256 < 256 ^ w := by
      rw [Nat.pow_succ] at h
      exact Nat.div_lt_of_lt_mul (by omega)
    have hr : (UInt8.ofNat n).toNat = n % 256 := UInt8.toNat_ofNat'
    rw [leBytes, leNat, leNat_leBytes w _ hq, hr]
    omega

theorem leBytes_leNat (bs : List Byte) : leBytes (leNat bs) bs.length = bs := by
  induction bs with
  | nil => rfl
  | cons b bs ih =>
    have hb := b.toNat_lt
    have hq : (leNat bs * 256 + b.toNat) / 256 = leNat bs := by omega
    have hr : UInt8.ofNat (leNat bs * 256 + b.toNat) = b := by
      apply UInt8.toNat_inj.1
      rw [UInt8.toNat_ofNat']
      omega
    rw [leNat, List.length_cons, leBytes, hq, hr, ih]

theorem leNat_lt (bs : List Byte) : leNat bs < 256 ^ bs.length := by
  induction bs with
  | nil => exact Nat.one_pos
  | cons b bs ih =>
    have hb := b.toNat_lt
    rw [leNat, List.length_cons, Nat.pow_succ]
    omega

/-! ## Codecs -/

structure Codec (α : Type*) where
  size : Nat
  enc : α → List Byte
  dec : List Byte → α
  length_enc : ∀ a, (enc a).length = size
  dec_enc : ∀ a rest, dec (enc a ++ rest) = a

namespace Codec

variable {α β : Type*}

attribute [simp] length_enc dec_enc

@[simp] theorem dec_enc_self (c : Codec α) (a : α) : c.dec (c.enc a) = a := by
  simpa using c.dec_enc a []

/-- An integer type of `w` bytes. -/
def int (w : Nat) (toNat : α → Nat) (ofNat : Nat → α) (lt : ∀ a, toNat a < 256 ^ w) (inv : ∀ a, ofNat (toNat a) = a) :
    Codec α where
  size := w
  enc a := leBytes (toNat a) w
  dec bs := ofNat (leNat (bs.take w))
  length_enc a := length_leBytes _ _
  dec_enc a rest := by
    rw [List.take_left' (length_leBytes _ _), leNat_leBytes w _ (lt a), inv]

def u32 : Codec UInt32 :=
  int 4 UInt32.toNat UInt32.ofNat (fun a => a.toNat_lt) fun _ => UInt32.ofNat_toNat

def u64 : Codec UInt64 :=
  int 8 UInt64.toNat UInt64.ofNat (fun a => a.toNat_lt) fun _ => UInt64.ofNat_toNat

/-- An array of bytes. -/
def bytes (n : Nat) : Codec { bs : List Byte // bs.length = n } where
  size := n
  enc a := a.1
  dec bs := ⟨(bs ++ List.replicate n 0).take n, by simp⟩
  length_enc a := a.2
  dec_enc a rest := by
    apply Subtype.ext
    show (a.1 ++ rest ++ List.replicate n 0).take n = a.1
    rw [List.append_assoc]
    exact List.take_left' a.2

/-- Padding. -/
def zeros (n : Nat) : Codec Unit where
  size := n
  enc _ := List.replicate n 0
  dec _ := ()
  length_enc _ := List.length_replicate
  dec_enc _ _ := rfl

/-- One member after the other. -/
def seq (c : Codec α) (d : Codec β) : Codec (α × β) where
  size := c.size + d.size
  enc a := c.enc a.1 ++ d.enc a.2
  dec bs := (c.dec bs, d.dec (bs.drop c.size))
  length_enc a := by simp
  dec_enc a rest := by
    rw [List.append_assoc, c.dec_enc, List.drop_left' (c.length_enc a.1), d.dec_enc]

/-- A structure through the tuple of its members. -/
def retract (c : Codec α) (members : β → α) (mk : α → β) (h : ∀ b, mk (members b) = b) : Codec β where
  size := c.size
  enc b := c.enc (members b)
  dec bs := mk (c.dec bs)
  length_enc b := c.length_enc _
  dec_enc b rest := by rw [c.dec_enc, h]

/-! ## Layouts without padding -/

/-- Every buffer is the layout of what is read from it. -/
def Exact (c : Codec α) : Prop := ∀ bs : List Byte, c.size ≤ bs.length → c.enc (c.dec bs) = bs.take c.size

theorem int_exact {w : Nat} {toNat : α → Nat} {ofNat : Nat → α} {lt : ∀ a, toNat a < 256 ^ w}
    {inv : ∀ a, ofNat (toNat a) = a} (h : ∀ n, n < 256 ^ w → toNat (ofNat n) = n) :
    (int w toNat ofNat lt inv).Exact := by
  intro bs hl
  have hlen : (bs.take w).length = w := List.length_take_of_le hl
  have hlt := leNat_lt (bs.take w)
  rw [hlen] at hlt
  show leBytes (toNat (ofNat (leNat (bs.take w)))) w = bs.take w
  have hinv := leBytes_leNat (bs.take w)
  rw [hlen] at hinv
  rw [h _ hlt, hinv]

theorem u32_exact : u32.Exact := int_exact fun _ h => UInt32.toNat_ofNat_of_lt h

theorem u64_exact : u64.Exact := int_exact fun _ h => UInt64.toNat_ofNat_of_lt h

theorem bytes_exact (n : Nat) : (bytes n).Exact := by
  intro bs hl
  show (bs ++ List.replicate n 0).take n = bs.take n
  exact List.take_append_of_le_length hl

theorem seq_exact {c : Codec α} {d : Codec β} (hc : c.Exact) (hd : d.Exact) : (c.seq d).Exact := by
  intro bs hl
  have hl' : c.size + d.size ≤ bs.length := hl
  show c.enc (c.dec bs) ++ d.enc (d.dec (bs.drop c.size)) = bs.take (c.size + d.size)
  rw [hc bs (by omega), hd (bs.drop c.size) (by rw [List.length_drop]; omega), List.take_add]

theorem retract_exact {c : Codec α} {members : β → α} {mk : α → β} {h : ∀ b, mk (members b) = b} (hc : c.Exact)
    (hm : ∀ a, members (mk a) = a) : (c.retract members mk h).Exact := by
  intro bs hl
  show c.enc (members (mk (c.dec bs))) = bs.take c.size
  rw [hm]
  exact hc bs hl

/-- A byte of the layout cannot be changed unnoticed. -/
theorem Exact.dec_set_ne {c : Codec α} (hc : c.Exact) {bs : List Byte} (hl : c.size ≤ bs.length) {k : Nat} {b : Byte}
    (hk : k < c.size) (hb : bs[k]? ≠ some b) : c.dec (bs.set k b) ≠ c.dec bs := by
  intro heq
  have henc := congrArg c.enc heq
  rw [hc _ (by rwa [List.length_set]), hc bs hl] at henc
  have hbyte := congrArg (fun l => l[k]?) henc
  simp only [List.getElem?_take_of_lt hk, List.getElem?_set_self (Nat.lt_of_lt_of_le hk hl)] at hbyte
  exact hb hbyte.symm

/-! ## Layouts read from their own bytes -/

/-- What is read depends on the first `size` bytes only. -/
def Local (c : Codec α) : Prop := ∀ bs more : List Byte, c.size ≤ bs.length → c.dec (bs ++ more) = c.dec bs

theorem Local.dec_take {c : Codec α} (hc : c.Local) {bs : List Byte} {n : Nat} (hn : c.size ≤ n)
    (hl : c.size ≤ bs.length) : c.dec (bs.take n) = c.dec bs := by
  have happ := hc (bs.take n) (bs.drop n) (by rw [List.length_take]; omega)
  rw [List.take_append_drop] at happ
  exact happ.symm

/-- A byte behind the layout does not matter. -/
theorem Local.dec_set {c : Codec α} (hc : c.Local) {bs : List Byte} (hl : c.size ≤ bs.length) {k : Nat} (b : Byte)
    (hk : c.size ≤ k) : c.dec (bs.set k b) = c.dec bs := by
  rw [← hc.dec_take (Nat.le_refl _) (by rwa [List.length_set]), List.take_set_of_le hk,
    hc.dec_take (Nat.le_refl _) hl]

theorem int_local {w : Nat} {toNat : α → Nat} {ofNat : Nat → α} {lt : ∀ a, toNat a < 256 ^ w}
    {inv : ∀ a, ofNat (toNat a) = a} : (int w toNat ofNat lt inv).Local := by
  intro bs more hl
  have hw : w ≤ bs.length := hl
  show ofNat (leNat ((bs ++ more).take w)) = ofNat (leNat (bs.take w))
  rw [List.take_append_of_le_length hw]

theorem bytes_local (n : Nat) : (bytes n).Local := by
  intro bs more hl
  have hn : n ≤ bs.length := hl
  apply Subtype.ext
  show (bs ++ more ++ List.replicate n 0).take n = (bs ++ List.replicate n 0).take n
  rw [List.append_assoc, List.take_append_of_le_length hn, List.take_append_of_le_length hn]

theorem zeros_local (n : Nat) : (zeros n).Local := fun _ _ _ => rfl

theorem seq_local {c : Codec α} {d : Codec β} (hc : c.Local) (hd : d.Local) : (c.seq d).Local := by
  intro bs more hl
  have hl' : c.size + d.size ≤ bs.length := hl
  show (c.dec (bs ++ more), d.dec ((bs ++ more).drop c.size)) = (c.dec bs, d.dec (bs.drop c.size))
  rw [hc bs more (by omega), List.drop_append_of_le_length (by omega),
    hd (bs.drop c.size) more (by rw [List.length_drop]; omega)]

theorem retract_local {c : Codec α} {members : β → α} {mk : α → β} {h : ∀ b, mk (members b) = b} (hc : c.Local) :
    (c.retract members mk h).Local :=
  fun bs more hl => congrArg mk (hc bs more hl)

/-! ## Arrays -/

def encAll (c : Codec α) (as : List α) : List Byte := as.flatMap c.enc

/-- `n` values from the front of the buffer and what is left of it; `none` when it is too short. -/
def decAll (c : Codec α) : Nat → List Byte → Option (List α × List Byte)
  | 0, bs => some ([], bs)
  | n + 1, bs =>
    if bs.length < c.size then none
    else (c.decAll n (bs.drop c.size)).map fun r => (c.dec bs :: r.1, r.2)

/-- Bytes that begin with an encoded value are enough for one. -/
theorem not_length_enc_append_lt (c : Codec α) (a : α) (rest : List Byte) : ¬ (c.enc a ++ rest).length < c.size := by
  rw [List.length_append, c.length_enc]
  omega

@[simp] theorem encAll_cons (c : Codec α) (a : α) (as : List α) : c.encAll (a :: as) = c.enc a ++ c.encAll as := rfl

theorem length_encAll (c : Codec α) (as : List α) : (c.encAll as).length = c.size * as.length := by
  induction as with
  | nil => rfl
  | cons a as ih =>
    rw [encAll_cons, List.length_append, c.length_enc, ih, List.length_cons]
    ring

/-- Reading an array back. -/
theorem decAll_encAll (c : Codec α) (as : List α) (rest : List Byte) :
    c.decAll as.length (c.encAll as ++ rest) = some (as, rest) := by
  induction as with
  | nil => rfl
  | cons a as ih =>
    rw [encAll_cons, List.append_assoc, List.length_cons, decAll, if_neg (c.not_length_enc_append_lt a _),
      List.drop_left' (c.length_enc a), ih, c.dec_enc]
    rfl

theorem decAll_append (c : Codec α) (hc : c.Local) (more : List Byte) : ∀ (n : Nat) (bs : List Byte),
    n * c.size ≤ bs.length → ∃ as, c.decAll n bs = some (as, bs.drop (n * c.size)) ∧
      c.decAll n (bs ++ more) = some (as, bs.drop (n * c.size) ++ more)
  | 0, bs, _ => ⟨[], by rw [Nat.zero_mul, List.drop_zero]; exact ⟨rfl, rfl⟩⟩
  | n + 1, bs, h => by
    have hmul : (n + 1) * c.size = c.size + n * c.size := by ring
    rw [hmul] at h ⊢
    obtain ⟨as, hbs, hmore⟩ := decAll_append c hc more n (bs.drop c.size) (by rw [List.length_drop]; omega)
    have hlen : ¬ bs.length < c.size := by omega
    have hlen' : ¬ (bs ++ more).length < c.size := by rw [List.length_append]; omega
    refine ⟨c.dec bs :: as, ?_, ?_⟩
    · rw [decAll, if_neg hlen, hbs, Option.map_some, List.drop_drop]
    · rw [decAll, if_neg hlen', List.drop_append_of_le_length (by omega), hmore, Option.map_some, List.drop_drop,
        hc bs more (by omega)]

/-- An array is read from the piece of the buffer that it lies in. -/
theorem decAll_eq_take (c : Codec α) (hc : c.Local) {n : Nat} {bs : List Byte} (h : n * c.size ≤ bs.length) :
    ∃ as, c.decAll n bs = some (as, bs.drop (n * c.size)) ∧ c.decAll n (bs.take (n * c.size)) = some (as, []) := by
  have hlen : (bs.take (n * c.size)).length = n * c.size := List.length_take_of_le h
  obtain ⟨as, hpiece, hbs⟩ := decAll_append c hc (bs.drop (n * c.size)) n (bs.take (n * c.size)) hlen.ge
  rw [List.drop_eq_nil_of_le hlen.le] at hpiece hbs
  rw [List.take_append_drop, List.nil_append] at hbs
  exact ⟨as, hbs, hpiece⟩

/-- A buffer that is too short. -/
theorem decAll_eq_none (c : Codec α) : ∀ {n : Nat} {bs : List Byte}, bs.length < n * c.size → c.decAll n bs = none
  | 0, bs, h => by omega
  | n + 1, bs, h => by
    have hmul : (n + 1) * c.size = c.size + n * c.size := by ring
    rw [decAll]
    split
    · rfl
    · rw [decAll_eq_none c (by rw [List.length_drop]; omega), Option.map_none]

/-- The elements of an array of `n`. -/
def elems (c : Codec α) : Nat → List Byte → List α
  | 0, _ => []
  | n + 1, bs => c.dec bs :: c.elems n (bs.drop c.size)

theorem length_elems (c : Codec α) (n : Nat) (bs : List Byte) : (c.elems n bs).length = n := by
  induction n generalizing bs with
  | zero => rfl
  | succ n ih => rw [elems, List.length_cons, ih]

theorem elems_encAll (c : Codec α) (as : List α) (rest : List Byte) : c.elems as.length (c.encAll as ++ rest) = as := by
  induction as with
  | nil => rfl
  | cons a as ih =>
    rw [encAll_cons, List.append_assoc, List.length_cons, elems, c.dec_enc, List.drop_left' (c.length_enc a), ih]

/-- An array of `n` elements as a member of a structure. -/
def array (c : Codec α) (n : Nat) : Codec { as : List α // as.length = n } where
  size := c.size * n
  enc a := c.encAll a.1
  dec bs := ⟨c.elems n bs, c.length_elems n bs⟩
  length_enc a := by rw [length_encAll, a.2]
  dec_enc a rest := by
    obtain ⟨as, rfl⟩ := a
    exact Subtype.ext (c.elems_encAll as rest)

/-- Up to `n` values, as long as the buffer holds another one. -/
def decUpTo (c : Codec α) : Nat → List Byte → List α
  | 0, _ => []
  | n + 1, bs => if bs.length < c.size then [] else c.dec bs :: c.decUpTo n (bs.drop c.size)

/-- What a buffer holds behind its first value. -/
theorem min_succ_div {size len : Nat} (hs : 0 < size) (h : ¬ len < size) (n : Nat) :
    min (n + 1) (len / size) = min n ((len - size) / size) + 1 := by
  rw [Nat.div_eq_sub_div hs (by omega : size ≤ len)]
  omega

theorem length_decUpTo (c : Codec α) (hs : 0 < c.size) :
    ∀ (n : Nat) (bs : List Byte), (c.decUpTo n bs).length = min n (bs.length / c.size)
  | 0, bs => by simp [decUpTo]
  | n + 1, bs => by
    rw [decUpTo]
    split
    · rename_i h
      rw [Nat.div_eq_of_lt h]
      simp
    · rename_i h
      rw [List.length_cons, length_decUpTo c hs n, List.length_drop, min_succ_div hs h]

/-- The values that are read stand one behind the other. -/
theorem mem_decUpTo_iff (c : Codec α) (hs : 0 < c.size) {x : α} : ∀ {n : Nat} {bs : List Byte},
    x ∈ c.decUpTo n bs ↔ ∃ i < min n (bs.length / c.size), x = c.dec (bs.drop (i * c.size))
  | 0, bs => by simp [decUpTo]
  | n + 1, bs => by
    by_cases h : bs.length < c.size
    · rw [decUpTo, if_pos h, Nat.div_eq_of_lt h]
      simp
    · rw [decUpTo, if_neg h, List.mem_cons, mem_decUpTo_iff c hs, min_succ_div hs h, List.length_drop]
      constructor
      · rintro (rfl | ⟨i, hi, rfl⟩)
        · exact ⟨0, Nat.succ_pos _, by simp⟩
        · exact ⟨i + 1, Nat.succ_lt_succ hi, by rw [List.drop_drop, Nat.succ_mul, Nat.add_comm]⟩
      · rintro ⟨i, hi, rfl⟩
        cases i with
        | zero => exact .inl (by simp)
        | succ i =>
          exact .inr ⟨i, Nat.lt_of_succ_lt_succ hi, by rw [List.drop_drop, Nat.succ_mul, Nat.add_comm]⟩

theorem encAll_decUpTo_isPrefix (c : Codec α) (hc : c.Exact) :
    ∀ (n : Nat) (bs : List Byte), c.encAll (c.decUpTo n bs) <+: bs
  | 0, bs => List.nil_prefix
  | n + 1, bs => by
    rw [decUpTo]
    split
    · exact List.nil_prefix
    · rename_i h
      obtain ⟨t, ht⟩ := encAll_decUpTo_isPrefix c hc n (bs.drop c.size)
      refine ⟨t, ?_⟩
      rw [encAll_cons, hc bs (by omega), List.append_assoc, ht, List.take_append_drop]

theorem decUpTo_encAll (c : Codec α) (as : List α) (rest : List Byte) :
    c.decUpTo as.length (c.encAll as ++ rest) = as := by
  induction as with
  | nil => rfl
  | cons a as ih =>
    rw [encAll_cons, List.append_assoc, List.length_cons, decUpTo, if_neg (c.not_length_enc_append_lt a _),
      List.drop_left' (c.length_enc a), ih, c.dec_enc]

/-- Reading more than the buffer holds is reading what it holds. -/
theorem decUpTo_min (c : Codec α) (hs : 0 < c.size) :
    ∀ (n : Nat) (bs : List Byte), c.decUpTo n bs = c.decUpTo (min n (bs.length / c.size)) bs
  | 0, bs => by simp
  | n + 1, bs => by
    by_cases h : bs.length < c.size
    · rw [Nat.div_eq_of_lt h, decUpTo, if_pos h]
      simp [decUpTo]
    · rw [min_succ_div hs h, decUpTo, decUpTo, if_neg h, if_neg h, decUpTo_min c hs n, List.length_drop]

/-- What a loop over a buffer reads: as many values as asked for or as the buffer holds, which lie at its front. -/
theorem decUpTo_eq_iff (c : Codec α) (hc : c.Exact) (hs : 0 < c.size) (n : Nat) (bs : List Byte) (as : List α) :
    c.decUpTo n bs = as ↔ min n (bs.length / c.size) = as.length ∧ c.encAll as <+: bs := by
  constructor
  · rintro rfl
    exact ⟨(length_decUpTo c hs n bs).symm, encAll_decUpTo_isPrefix c hc n bs⟩
  · rintro ⟨hlen, rest, rfl⟩
    rw [decUpTo_min c hs, hlen, decUpTo_encAll]

end Codec

end Lib
