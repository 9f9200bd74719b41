import Mathlib.Algebra.GroupWithZero.Nat
import Mathlib.Algebra.Ring.Nat
import Mathlib.Data.Nat.GCD.Basic
import UckSmp.Exec.Wrap
import UckSmp.Migrate.RoundTrip

/-!
# The restore stub and its buffers

`main` of `uck_restore.c` with the sizes it computes: the arrays of descriptors are allocated and read in one piece,
whose size is a product of 64 bits, and their loops run up to the count as an `int`. `malloc` says which sizes the
allocator grants.

* `inBounds_iff`: when the loops stay inside the bytes that were read.
* `oversized_loop`: a header with which they do not.
* `uckStub_eq_uckRestore`: as long as nothing wraps, this is the stub of `Migrate.Format`.
* `VmaDesc.mmapArgs`, `FdDesc.reopenArgs`: what the loops do with a descriptor.
-/

namespace UckSmp.Migrate

open Lib
open UckSmp.Exec (ascii)

/-! ## Code -/

/-- `MAX_RW_COUNT`: no `read` transfers more. -/
def maxRwCount : Nat := 0x7ffff000

/-- `read` of `count` bytes of what is left of a regular file: its result and the bytes. -/
def readFile (count : UInt64) (rest : List Byte) : Int × List Byte :=
  if 2 ^ 63 ≤ count.toNat then (-1, [])
  else
    let got := rest.take (min count.toNat maxRwCount)
    (got.length, got)

/-- An array of `size` bytes is allocated and read; what is left of the file comes with it. -/
def readArray (malloc : Nat → Bool) (size : UInt64) (rest : List Byte) : Option (List Byte × List Byte) :=
  if !malloc size.toNat then none
  else if (readFile size rest).1 ≠ size.toInt64.toInt then none
  else some ((readFile size rest).2, rest.drop (readFile size rest).2.length)

/-- The descriptors are read if there are any. -/
def readDescs (malloc : Nat → Bool) (any : Bool) (size : UInt64) (rest : List Byte) : Option (List Byte × List Byte) :=
  if any then readArray malloc size rest else some ([], rest)

/-- What `main` has read before its loops. -/
structure Parsed where
  hdr : ProcStateHdr
  vmaBuf : List Byte
  fdBuf : List Byte
  rest : List Byte

/-- `main` up to the page count. -/
def parse (malloc : Nat → Bool) (file : List Byte) : Option Parsed :=
  if file.length < ProcStateHdr.codec.size then none
  else
    let hdr := ProcStateHdr.codec.dec file
    (readDescs malloc (0 < hdr.nrVmas) (hdr.nrVmas * 296) (file.drop ProcStateHdr.codec.size)).bind fun a =>
      (readDescs malloc (0 < hdr.nrFds) (hdr.nrFds.toUInt64 * 272) a.2).map fun b => ⟨hdr, a.1, b.1, b.2⟩

/-- `(int)state_hdr.nr_vmas`, as the bound of the loop. -/
def Parsed.vmaCount (p : Parsed) : Nat := loopBound p.hdr.nrVmas.toUInt32

/-- `(int)state_hdr.nr_fds`. -/
def Parsed.fdCount (p : Parsed) : Nat := loopBound p.hdr.nrFds

/-- The page count, 0 if it cannot be read. -/
def Parsed.nrPages (p : Parsed) : Nat := if p.rest.length < 4 then 0 else loopBound (Codec.u32.dec p.rest)

/-- What the loops of `main` go over; `none` is an error of `main` or a descriptor outside its buffer. -/
def uckStub (malloc : Nat → Bool) (file : List Byte) : Option Restored :=
  (parse malloc file).bind fun p =>
    (VmaDesc.codec.decAll p.vmaCount p.vmaBuf).bind fun a =>
      (FdDesc.codec.decAll p.fdCount p.fdBuf).map fun b =>
        ⟨p.hdr, a.1, b.1, restorePages p.nrPages (p.rest.drop 4)⟩

/-- The arguments of an `mmap` with `MAP_PRIVATE | MAP_ANONYMOUS | MAP_FIXED`. -/
structure Mmap where
  (start len : UInt64)
  (protRead protWrite protExec : Bool)
  deriving DecidableEq, Repr

/-- What the loop over the mappings makes of a descriptor; `none` if it goes on to the next one. -/
def VmaDesc.mmapArgs (v : VmaDesc) : Option Mmap :=
  let len := v.end - v.start
  if v.isAnon = 0 then none
  else if len = 0 then none
  else if 0x7ffffffffffff000 ≤ v.start then none
  else some ⟨v.start, len, v.flags &&& 1 ≠ 0, v.flags &&& 2 ≠ 0, v.flags &&& 4 ≠ 0⟩

/-- The arguments of an `open` and of what makes it the descriptor `fdNum`. -/
structure Reopen where
  path : List Byte
  accMode : UInt32
  fdNum : UInt32
  pos : UInt64
  deriving DecidableEq, Repr

/-- Paths that cannot be opened again. -/
def specialPaths : List (List Byte) := ["/dev/", "/proc/", "pipe:", "socket:", "anon_inode:"].map ascii

/-- What the loop over the file descriptors makes of one; `none` if it goes on to the next one. -/
def FdDesc.reopenArgs (f : FdDesc) : Option Reopen :=
  if f.path.1.head? = some 0 then none
  else if specialPaths.any fun special => special.isPrefixOf f.path.1 then none
  else some ⟨f.path.1.takeWhile (· ≠ 0), f.flags &&& 3, f.fdNum, f.pos⟩

/-! ## Statement -/

/-- Every descriptor that a loop looks at was read from the file. -/
structure Parsed.InBounds (p : Parsed) : Prop where
  vmas : ∀ i < p.vmaCount, (i + 1) * VmaDesc.codec.size ≤ p.vmaBuf.length
  fds : ∀ i < p.fdCount, (i + 1) * FdDesc.codec.size ≤ p.fdBuf.length

/-- The count, up to multiples of `2 ^ 61`, with which the product wraps by whole turns, is one that an `int` holds. -/
def Parsed.CountFits (p : Parsed) : Prop := p.hdr.nrVmas.toNat % 2 ^ 61 < 2 ^ 31

/-! ## The buffers -/

/-- `(ssize_t)size`. -/
theorem toInt_toInt64 (x : UInt64) : x.toInt64.toInt = (x.toNat : Int).bmod (2 ^ 64) :=
  BitVec.toInt_eq_toNat_bmod x.toBitVec

/-- An array of a multiple of eight bytes is read when there is memory and the file and one `read` hold it. -/
theorem readArray_eq_some_iff {malloc : Nat → Bool} {size : UInt64} {rest got left : List Byte}
    (h8 : size.toNat % 8 = 0) : readArray malloc size rest = some (got, left) ↔
      (malloc size.toNat = true ∧ size.toNat ≤ maxRwCount ∧ size.toNat ≤ rest.length) ∧
        got = rest.take size.toNat ∧ left = rest.drop size.toNat := by
  have hmax : maxRwCount = 2147479552 := rfl
  have hread : (readFile size rest).1 = size.toInt64.toInt ↔
      size.toNat ≤ maxRwCount ∧ size.toNat ≤ rest.length := by
    have hlt := size.toNat_lt
    rw [toInt_toInt64, readFile]
    split
    · -- a negative size: `read` fails with -1, which the size is not, being a multiple of eight
      simp only [Int.bmod_def]
      omega
    · rw [Int.bmod_eq_of_le (by omega) (by omega)]
      simp only [List.length_take]
      omega
  unfold readArray
  by_cases hm : malloc size.toNat = true
  · by_cases hr : (readFile size rest).1 = size.toInt64.toInt
    · obtain ⟨hle, hlen⟩ := hread.1 hr
      have hgot : (readFile size rest).2 = rest.take size.toNat := by
        rw [readFile, if_neg (by omega), Nat.min_eq_left hle]
      simp [hm, hr, hle, hlen, hgot, eq_comm]
    · simp [hm, hr, ← hread]
  · simp [hm]

theorem readDescs_eq_some_iff {malloc : Nat → Bool} {any : Bool} {size : UInt64} {rest got left : List Byte}
    (h8 : size.toNat % 8 = 0) (h0 : any = false → size.toNat = 0) :
    readDescs malloc any size rest = some (got, left) ↔
      ((any = true → malloc size.toNat = true) ∧ size.toNat ≤ maxRwCount ∧ size.toNat ≤ rest.length) ∧
        got = rest.take size.toNat ∧ left = rest.drop size.toNat := by
  cases any with
  | true => simp [readDescs, readArray_eq_some_iff h8]
  | false =>
    rw [readDescs, h0 rfl, if_neg Bool.false_ne_true, Option.some.injEq, Prod.mk.injEq, List.take_zero, List.drop_zero]
    exact ⟨fun h => ⟨⟨nofun, Nat.zero_le _, Nat.zero_le _⟩, h.1.symm, h.2.symm⟩, fun h => ⟨h.2.1.symm, h.2.2.symm⟩⟩

section Parsed

variable {malloc : Nat → Bool} {file : List Byte} {p : Parsed}

/-- `nr_vmas * sizeof(struct uck_vma_desc)`. -/
theorem toNat_vmaSize (n : UInt64) : (n * 296).toNat = n.toNat * 296 % 2 ^ 64 := UInt64.toNat_mul _ _

/-- `nr_fds * sizeof(struct uck_fd_desc)` does not wrap. -/
theorem toNat_fdSize (n : UInt32) : (n.toUInt64 * 272).toNat = n.toNat * 272 := by
  have hlt := n.toNat_lt
  have hmul : (n.toUInt64 * 272).toNat = n.toUInt64.toNat * 272 % 2 ^ 64 := UInt64.toNat_mul _ _
  rw [hmul, UInt32.toNat_toUInt64]
  omega

theorem readDescs_vmas_iff {n : UInt64} {rest got left : List Byte} :
    readDescs malloc (0 < n) (n * 296) rest = some (got, left) ↔
      ((0 < n → malloc (n * 296).toNat = true) ∧ (n * 296).toNat ≤ maxRwCount ∧ (n * 296).toNat ≤ rest.length) ∧
        got = rest.take (n * 296).toNat ∧ left = rest.drop (n * 296).toNat := by
  rw [readDescs_eq_some_iff, decide_eq_true_iff]
  · rw [toNat_vmaSize]
    omega
  · intro h
    have hn : n = 0 := UInt64.le_antisymm (UInt64.not_lt.1 (of_decide_eq_false h)) UInt64.zero_le
    rw [hn]
    rfl

theorem readDescs_fds_iff {n : UInt32} {rest got left : List Byte} :
    readDescs malloc (0 < n) (n.toUInt64 * 272) rest = some (got, left) ↔
      ((0 < n → malloc (n.toNat * 272) = true) ∧ n.toNat * 272 ≤ maxRwCount ∧ n.toNat * 272 ≤ rest.length) ∧
        got = rest.take (n.toNat * 272) ∧ left = rest.drop (n.toNat * 272) := by
  rw [readDescs_eq_some_iff, decide_eq_true_iff, toNat_fdSize]
  · rw [toNat_fdSize]
    omega
  · intro h
    have hn : n = 0 := UInt32.le_antisymm (UInt32.not_lt.1 (of_decide_eq_false h)) UInt32.zero_le
    rw [hn]
    rfl

/-- What it takes to read the descriptors of a header from the bytes behind it. -/
structure Readable (malloc : Nat → Bool) (hdr : ProcStateHdr) (rest : List Byte) : Prop where
  vmas : (0 < hdr.nrVmas → malloc (hdr.nrVmas * 296).toNat = true) ∧ (hdr.nrVmas * 296).toNat ≤ maxRwCount ∧
    (hdr.nrVmas * 296).toNat ≤ rest.length
  fds : (0 < hdr.nrFds → malloc (hdr.nrFds.toNat * 272) = true) ∧ hdr.nrFds.toNat * 272 ≤ maxRwCount ∧
    hdr.nrFds.toNat * 272 ≤ (rest.drop (hdr.nrVmas * 296).toNat).length

/-- The pieces of the file. -/
def Parsed.cut (hdr : ProcStateHdr) (rest : List Byte) : Parsed where
  hdr
  vmaBuf := rest.take (hdr.nrVmas * 296).toNat
  fdBuf := (rest.drop (hdr.nrVmas * 296).toNat).take (hdr.nrFds.toNat * 272)
  rest := (rest.drop (hdr.nrVmas * 296).toNat).drop (hdr.nrFds.toNat * 272)

theorem parse_eq_some_iff : parse malloc file = some p ↔
    ProcStateHdr.codec.size ≤ file.length ∧
      Readable malloc (ProcStateHdr.codec.dec file) (file.drop ProcStateHdr.codec.size) ∧
      p = .cut (ProcStateHdr.codec.dec file) (file.drop ProcStateHdr.codec.size) := by
  rw [parse]
  by_cases hlen : file.length < ProcStateHdr.codec.size
  · rw [if_pos hlen]
    exact ⟨nofun, fun h => absurd h.1 (Nat.not_le.2 hlen)⟩
  · rw [if_neg hlen]
    constructor
    · intro h
      obtain ⟨a, ha, h⟩ := Option.bind_eq_some_iff.1 h
      obtain ⟨b, hb, rfl⟩ := Option.map_eq_some_iff.1 h
      obtain ⟨hv, hva, hvr⟩ := readDescs_vmas_iff.1 ha
      obtain ⟨hf, hfd, hfr⟩ := readDescs_fds_iff.1 hb
      rw [hvr] at hf hfd hfr
      exact ⟨Nat.not_lt.1 hlen, ⟨hv, hf⟩, by rw [hva, hfd, hfr, Parsed.cut]⟩
    · rintro ⟨-, ⟨hv, hf⟩, rfl⟩
      dsimp only
      rw [readDescs_vmas_iff.2 ⟨hv, rfl, rfl⟩, Option.bind_some, readDescs_fds_iff.2 ⟨hf, rfl, rfl⟩]
      rfl

/-- The sizes of the buffers that were read. -/
theorem length_of_parse (h : parse malloc file = some p) :
    p.vmaBuf.length = p.hdr.nrVmas.toNat * 296 % 2 ^ 64 ∧ p.hdr.nrVmas.toNat * 296 % 2 ^ 64 ≤ maxRwCount ∧
      p.fdBuf.length = p.hdr.nrFds.toNat * 272 := by
  obtain ⟨-, ⟨hv, hf⟩, rfl⟩ := parse_eq_some_iff.1 h
  rw [← toNat_vmaSize]
  exact ⟨List.length_take_of_le hv.2.2, hv.2.1, List.length_take_of_le hf.2.2⟩

theorem loopBound_le (n : UInt32) : loopBound n ≤ n.toNat := by
  unfold loopBound
  split <;> omega

/-- A loop stays inside its buffer exactly if the buffer holds as many descriptors as the loop has rounds. -/
theorem forall_lt_iff {count size len : Nat} : (∀ i < count, (i + 1) * size ≤ len) ↔ count * size ≤ len := by
  constructor
  · intro h
    cases count with
    | zero => omega
    | succ n => exact h n (Nat.lt_succ_self n)
  · intro h i hi
    exact (Nat.mul_le_mul_right size hi).trans h

/-- The product of the count, and the low half of the count, which the loop runs up to. -/
theorem wrapped_size_iff {n : Nat} (hsize : n * 296 % 2 ^ 64 ≤ maxRwCount) (hlow : n % 2 ^ 32 < 2 ^ 31) :
    n % 2 ^ 32 * 296 ≤ n * 296 % 2 ^ 64 ↔ n % 2 ^ 61 < 2 ^ 31 := by
  have hmax : maxRwCount = 2147479552 := rfl
  constructor
  · intro hle
    -- the difference of the two sides is a multiple of `2 ^ 35`, and less than that
    have hmul : 2 ^ 29 * (n * 296 / 2 ^ 64) = 37 * (n / 2 ^ 32) := by omega
    have hdvd : 2 ^ 29 ∣ n / 2 ^ 32 := Nat.Coprime.dvd_of_dvd_mul_left (by decide) (Dvd.intro _ hmul)
    obtain ⟨q, hq⟩ := hdvd
    clear hle hmul hsize
    omega
  · intro hlt
    have hturns : n * 296 % 2 ^ 64 = n % 2 ^ 61 * 296 := by omega
    omega

/-- Once the arrays are read, the loops stay inside them exactly if the loop over the mappings does nothing or its
count fits. -/
theorem inBounds_iff (h : parse malloc file = some p) : p.InBounds ↔ p.vmaCount = 0 ∨ p.CountFits := by
  obtain ⟨hvma, hmax, hfd⟩ := length_of_parse h
  have hfds : ∀ i < p.fdCount, (i + 1) * FdDesc.codec.size ≤ p.fdBuf.length := by
    rw [forall_lt_iff, hfd, FdDesc.codec_size]
    exact Nat.mul_le_mul_right 272 (loopBound_le _)
  have hvmas : (∀ i < p.vmaCount, (i + 1) * VmaDesc.codec.size ≤ p.vmaBuf.length) ↔
      p.vmaCount = 0 ∨ p.CountFits := by
    rw [forall_lt_iff, hvma, VmaDesc.codec_size, Parsed.vmaCount, loopBound, UInt64.toNat_toUInt32, Parsed.CountFits]
    split
    next hlow =>
      have hiff := wrapped_size_iff hmax hlow
      exact ⟨fun h => .inr (hiff.1 h), fun h => h.elim (fun h0 => by rw [h0, Nat.zero_mul]; exact Nat.zero_le _) hiff.2⟩
    next => simp
  exact ⟨fun hin => hvmas.1 hin.vmas, fun hok => ⟨hvmas.2 hok, hfds⟩⟩

theorem vmaDesc_local : VmaDesc.codec.Local :=
  Codec.retract_local <| Codec.seq_local Codec.int_local <| Codec.seq_local Codec.int_local <|
    Codec.seq_local Codec.int_local <| Codec.seq_local Codec.int_local <| Codec.seq_local Codec.int_local <|
    Codec.seq_local (Codec.zeros_local 4) (Codec.bytes_local 256)

theorem fdDesc_local : FdDesc.codec.Local :=
  Codec.retract_local <| Codec.seq_local Codec.int_local <| Codec.seq_local Codec.int_local <|
    Codec.seq_local Codec.int_local (Codec.bytes_local 256)

theorem loopBound_of_le {n : UInt32} (size : Nat) (hs : 2 ≤ size) (h : n.toNat * size ≤ maxRwCount) :
    loopBound n = n.toNat := by
  have hmax : maxRwCount < 2 ^ 31 := by decide
  have hle : n.toNat * 2 ≤ n.toNat * size := Nat.mul_le_mul_left _ hs
  exact if_pos (by omega)

/-- Without wrapped sizes and failed allocations, the stub reads what `uckRestore` does. -/
theorem uckStub_eq_uckRestore (hm : ∀ n, malloc n = true) (file : List Byte)
    (hv : (ProcStateHdr.codec.dec file).nrVmas.toNat * 296 ≤ maxRwCount)
    (hf : (ProcStateHdr.codec.dec file).nrFds.toNat * 272 ≤ maxRwCount) : uckStub malloc file = uckRestore file := by
  have hmax : maxRwCount < 2 ^ 31 := by decide
  rw [uckStub, uckRestore]
  by_cases hlen : file.length < ProcStateHdr.codec.size
  · rw [parse, if_pos hlen, if_pos hlen, Option.bind_none]
  have hparse : ∀ p, parse malloc file = some p ↔ _ := fun p => parse_eq_some_iff
  rw [if_neg hlen]
  dsimp only
  generalize ProcStateHdr.codec.dec file = hdr at hv hf hparse ⊢
  generalize file.drop ProcStateHdr.codec.size = rest at hparse ⊢
  have hsize : (hdr.nrVmas * 296).toNat = hdr.nrVmas.toNat * 296 := by
    rw [toNat_vmaSize]
    exact Nat.mod_eq_of_lt (by omega)
  have hcount : loopBound hdr.nrVmas.toUInt32 = hdr.nrVmas.toNat := by
    have hnat : hdr.nrVmas.toUInt32.toNat = hdr.nrVmas.toNat := by
      rw [UInt64.toNat_toUInt32]
      exact Nat.mod_eq_of_lt (by omega)
    rw [loopBound_of_le 296 (by omega) (by rw [hnat]; exact hv), hnat]
  have hread : Readable malloc hdr rest ↔
      hdr.nrVmas.toNat * 296 ≤ rest.length ∧ hdr.nrFds.toNat * 272 ≤ (rest.drop (hdr.nrVmas.toNat * 296)).length := by
    rw [← hsize]
    exact ⟨fun h => ⟨h.vmas.2.2, h.fds.2.2⟩, fun h => ⟨⟨fun _ => hm _, hsize ▸ hv, h.1⟩, fun _ => hm _, hf, h.2⟩⟩
  by_cases hok : Readable malloc hdr rest
  · obtain ⟨hvlen, hflen⟩ := hread.1 hok
    obtain ⟨vmas, hvmas, hvbuf⟩ := VmaDesc.codec.decAll_eq_take vmaDesc_local hvlen
    obtain ⟨fds, hfds, hfbuf⟩ := FdDesc.codec.decAll_eq_take fdDesc_local hflen
    rw [VmaDesc.codec_size] at hvmas hvbuf
    rw [FdDesc.codec_size] at hfds hfbuf
    rw [(hparse _).2 ⟨Nat.not_lt.1 hlen, hok, rfl⟩, Option.bind_some, hvmas]
    dsimp only [Parsed.cut, Parsed.vmaCount, Parsed.fdCount, Parsed.nrPages]
    rw [hsize, hcount, loopBound_of_le 272 (by omega) hf, hvbuf, Option.bind_some, hfbuf, hfds]
    rfl
  · have hnone : parse malloc file = none := by
      cases hp : parse malloc file with
      | none => rfl
      | some p => exact absurd ((hparse p).1 hp).2.1 hok
    rw [hnone, Option.bind_none]
    by_cases hvlen : hdr.nrVmas.toNat * 296 ≤ rest.length
    · obtain ⟨vmas, hvmas, -⟩ := VmaDesc.codec.decAll_eq_take vmaDesc_local hvlen
      have hflen : (rest.drop (hdr.nrVmas.toNat * 296)).length < hdr.nrFds.toNat * 272 :=
        Nat.not_le.1 fun h => hok (hread.2 ⟨hvlen, h⟩)
      rw [hvmas]
      dsimp only
      rw [VmaDesc.codec_size, FdDesc.codec.decAll_eq_none hflen]
    · rw [VmaDesc.codec.decAll_eq_none (Nat.not_le.1 hvlen)]

end Parsed

/-- A header with the given counts. -/
def countsHdr (nrVmas : UInt64) (nrFds : UInt32) : ProcStateHdr := ⟨1, 7, nrVmas, 0, zeroRegs, nrFds, 0⟩

/-- A file with such a header and zeros behind it. -/
def countsFile (nrVmas : UInt64) (nrFds : UInt32) (len : Nat) : List Byte :=
  ProcStateHdr.codec.enc (countsHdr nrVmas nrFds) ++ List.replicate len 0

theorem parse_countsFile (nrVmas : UInt64) (nrFds : UInt32) (len : Nat) (hv : (nrVmas * 296).toNat ≤ maxRwCount)
    (hf : nrFds.toNat * 272 ≤ maxRwCount) (hlen : (nrVmas * 296).toNat + nrFds.toNat * 272 ≤ len) :
    parse (fun _ => true) (countsFile nrVmas nrFds len) =
      some (.cut (countsHdr nrVmas nrFds) (List.replicate len 0)) := by
  have hread : Readable (fun _ => true) (countsHdr nrVmas nrFds) (List.replicate len 0) := by
    refine ⟨⟨fun _ => rfl, hv, ?_⟩, fun _ => rfl, hf, ?_⟩
    · rw [List.length_replicate]
      exact (Nat.le_add_right _ _).trans hlen
    · rw [List.length_drop, List.length_replicate]
      exact Nat.le_sub_of_add_le' hlen
  have hdec : ProcStateHdr.codec.dec (countsFile nrVmas nrFds len) = countsHdr nrVmas nrFds :=
    ProcStateHdr.codec.dec_enc _ _
  have hdrop : (countsFile nrVmas nrFds len).drop ProcStateHdr.codec.size = List.replicate len 0 :=
    List.drop_left' (ProcStateHdr.codec.length_enc _)
  rw [parse_eq_some_iff, hdec, hdrop]
  refine ⟨?_, hread, rfl⟩
  rw [countsFile, List.length_append, ProcStateHdr.codec.length_enc]
  exact Nat.le_add_right _ _

theorem inBounds_one : ∃ p, parse (fun _ => true) (countsFile 1 1 568) = some p ∧ p.vmaCount = 1 ∧ p.InBounds := by
  have hp := parse_countsFile 1 1 568 (by decide) (by decide) (by decide)
  exact ⟨_, hp, rfl, (inBounds_iff hp).2 (.inr (by decide : (1 : UInt64).toNat % 2 ^ 61 < 2 ^ 31))⟩

/-- With this count the array has sixteen bytes, all of which are read, and the loop goes over 580400986 descriptors. -/
theorem oversized_loop : ∃ p, parse (fun _ => true) (countsFile 685520894631098202 0 16) = some p ∧
    p.vmaBuf.length = 16 ∧ p.vmaCount = 580400986 ∧ ¬ p.InBounds := by
  have hp := parse_countsFile 685520894631098202 0 16 (by decide) (by decide) (by decide)
  refine ⟨_, hp, rfl, rfl, fun h => ?_⟩
  have h0 : (0 + 1) * 296 ≤ 16 := h.vmas 0 (by decide)
  exact absurd h0 (by decide)

end UckSmp.Migrate
