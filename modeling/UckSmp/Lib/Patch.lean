import UckSmp.Lib.Codec

/-!
# Writing records into a cleared buffer

A buffer is written piece by piece. `slotWrites` are the writes of a loop that puts one record after the other into the
slots of an array and stops when the array is full or the records are at an end.

* `within_slotWrites`: the loop stays inside its array.
* `foldl_slotWrites`: it leaves the records that had room, and zeros in the slots it did not get to.
-/

namespace Lib

/-- Some bytes and where they are written. -/
structure Write where
  off : Nat
  bytes : List Byte
  deriving DecidableEq, Repr

/-- A write that touches nothing outside of the bytes from `lo` to `hi`. -/
def Write.Within (lo hi : Nat) (w : Write) : Prop := lo ≤ w.off ∧ w.off + w.bytes.length ≤ hi

def patch (buf : List Byte) (w : Write) : List Byte :=
  buf.take w.off ++ (w.bytes ++ buf.drop (w.off + w.bytes.length))

theorem patch_append {pre mid bs : List Byte} {off : Nat} (post : List Byte) (ho : off = pre.length)
    (hl : bs.length = mid.length) : patch (pre ++ (mid ++ post)) ⟨off, bs⟩ = pre ++ (bs ++ post) := by
  have htake : (pre ++ (mid ++ post)).take pre.length = pre := List.take_left
  have hdrop : (pre ++ (mid ++ post)).drop (pre.length + mid.length) = post := by
    rw [← List.append_assoc]
    exact List.drop_left' List.length_append
  show (pre ++ (mid ++ post)).take off ++ (bs ++ (pre ++ (mid ++ post)).drop (off + bs.length)) = _
  rw [ho, hl, htake, hdrop]

namespace Codec

variable {α : Type*}

/-- The writes of a loop that puts records into an array of `max` slots at `base`, from slot `i` on. -/
def slotWrites (c : Codec α) (base max : Nat) : Nat → List α → List Write
  | _, [] => []
  | i, a :: as => if max ≤ i then [] else ⟨base + i * c.size, c.enc a⟩ :: slotWrites c base max (i + 1) as

theorem within_slotWrites (c : Codec α) (base max i : Nat) (as : List α) :
    ∀ w ∈ c.slotWrites base max i as, w.Within base (base + max * c.size) := by
  induction as generalizing i with
  | nil => nofun
  | cons a as ih =>
    rw [slotWrites]
    split
    · nofun
    next hi =>
      refine List.forall_mem_cons.2 ⟨⟨Nat.le_add_right _ _, ?_⟩, ih (i + 1)⟩
      have hle : (i + 1) * c.size ≤ max * c.size := Nat.mul_le_mul_right _ (by omega)
      rw [Nat.succ_mul] at hle
      show base + i * c.size + (c.enc a).length ≤ _
      rw [c.length_enc]
      omega

/-- `k` records: the first ones of `as`, and `z` for those that are missing. -/
def fill (z : α) (k : Nat) (as : List α) : List α := as.take k ++ List.replicate (k - as.length) z

theorem length_fill (z : α) (k : Nat) (as : List α) : (fill z k as).length = k := by
  rw [fill, List.length_append, List.length_take, List.length_replicate]
  omega

theorem encAll_append (c : Codec α) (as bs : List α) : c.encAll (as ++ bs) = c.encAll as ++ c.encAll bs :=
  List.flatMap_append

theorem encAll_replicate (c : Codec α) {z : α} (hz : c.enc z = List.replicate c.size 0) (k : Nat) :
    c.encAll (List.replicate k z) = List.replicate (k * c.size) 0 := by
  induction k with
  | zero => rw [Nat.zero_mul]; rfl
  | succ k ih =>
    rw [List.replicate_succ, encAll_cons, ih, hz, List.replicate_append_replicate, Nat.succ_mul, Nat.add_comm]

/-- The loop over a cleared array leaves the records that had room, and records of zeros. -/
theorem foldl_slotWrites (c : Codec α) {z : α} (hz : c.enc z = List.replicate c.size 0) (base max : Nat)
    (post : List Byte) (as : List α) (i k : Nat) (hk : i + k = max) (pre : List Byte)
    (hpre : base + i * c.size = pre.length) :
    (c.slotWrites base max i as).foldl patch (pre ++ (List.replicate (k * c.size) 0 ++ post)) =
      pre ++ (c.encAll (fill z k as) ++ post) := by
  induction as generalizing i k pre with
  | nil => simp [slotWrites, fill, encAll_replicate c hz]
  | cons a as ih =>
    rw [slotWrites]
    cases k with
    | zero =>
      rw [if_pos (by omega)]
      simp [fill, encAll]
    | succ k =>
      have hwrite : patch (pre ++ (List.replicate ((k + 1) * c.size) 0 ++ post)) ⟨base + i * c.size, c.enc a⟩ =
          (pre ++ c.enc a) ++ (List.replicate (k * c.size) 0 ++ post) := by
        rw [Nat.succ_mul, Nat.add_comm, ← List.replicate_append_replicate, List.append_assoc (List.replicate c.size 0),
          patch_append _ hpre (by rw [c.length_enc, List.length_replicate]), List.append_assoc]
      rw [if_neg (by omega), List.foldl_cons, hwrite, ih (i + 1) k (by omega) (pre ++ c.enc a) (by
        rw [List.length_append, c.length_enc, ← hpre, Nat.succ_mul, Nat.add_assoc])]
      have hfill : fill z (k + 1) (a :: as) = a :: fill z k as := by
        simp [fill]
      rw [hfill, encAll_cons, List.append_assoc, List.append_assoc]

/-- A slot of an array of records at `base`. -/
def slot (c : Codec α) (buf : List Byte) (base i : Nat) : List Byte := (buf.drop (base + i * c.size)).take c.size

theorem slot_encAll (c : Codec α) {pre post : List Byte} {as : List α} {base i : Nat} {a : α}
    (hbase : base = pre.length) (ha : as[i]? = some a) : c.slot (pre ++ (c.encAll as ++ post)) base i = c.enc a := by
  obtain ⟨hi, rfl⟩ := List.getElem?_eq_some_iff.1 ha
  have hsplit : as = as.take i ++ (as[i] :: as.drop (i + 1)) := by
    rw [List.getElem_cons_drop, List.take_append_drop]
  have hlen : base + i * c.size = (pre ++ c.encAll (as.take i)).length := by
    rw [List.length_append, c.length_encAll, List.length_take_of_le hi.le, hbase, Nat.mul_comm]
  have hbuf : pre ++ (c.encAll as ++ post) =
      (pre ++ c.encAll (as.take i)) ++ (c.enc as[i] ++ (c.encAll (as.drop (i + 1)) ++ post)) := by
    conv_lhs => rw [hsplit]
    rw [encAll_append, encAll_cons]
    simp only [List.append_assoc]
  rw [slot, hlen, hbuf, List.drop_left, ← c.length_enc as[i], List.take_left]

theorem getElem?_fill {z : α} {k i : Nat} {as : List α} (hi : as.length ≤ i) (hk : i < k) :
    (fill z k as)[i]? = some z := by
  rw [fill, List.take_of_length_le (hi.trans hk.le), List.getElem?_append_right hi]
  exact List.getElem?_replicate_of_lt (by omega)

end Codec

end Lib
