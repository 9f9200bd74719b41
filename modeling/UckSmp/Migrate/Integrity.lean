import UckSmp.Lib.Checksum
import UckSmp.Migrate.Atomic
import UckSmp.Migrate.RoundTrip

/-!
# Changed bytes of a migration

The header of the state carries a checksum of the bytes before it. The destination compares it, unless it is zero,
after it has read everything, and launches the restore stub. A migration is received in which one byte behind the first
message header is not the one that was sent.

* `crc32_set_ne`: the checksum tells apart bytes that differ in one place.
* `refused_iff`: the changes that the destination refuses.
* `changed_page_launched`: changes that it does not.
-/

namespace UckSmp.Migrate

open Lib

/-! ## Statement -/

/-- Byte `k` behind the message header of the state is not `b`. -/
structure Changed (sent : List Byte) (k : Nat) (b : Byte) : Prop where
  lt : 40 + k < sent.length
  ne : sent[40 + k]? ≠ some b

/-- There is memory for the state at the destination. -/
def Room (kv : Nat → Bool) (s : Snapshot) : Prop :=
  kv (256 * pageRecord.size) = true ∧ kv s.descs.length = true

/-- The change is in the header, up to the checksum, and the checksum that arrives is not zero. -/
def Snapshot.Detected (s : Snapshot) (k : Nat) (b : Byte) : Prop :=
  k < 196 ∧ (ProcStateHdr.codec.dec (s.buf.set k b)).crc32 ≠ 0

/-! ## The checksum -/

/-- One bit of the loop of `crc32`. -/
def crcShift (crc : UInt32) : UInt32 := (crc >>> 1) ^^^ (if crc &&& 1 = 1 then 0xEDB88320 else 0)

theorem low_bit_iff (crc : UInt32) : crc &&& 1 = 1 ↔ crc.toBitVec.getLsbD 0 = true := by
  rw [← UInt32.toBitVec_inj, UInt32.toBitVec_and]
  have hand : crc.toBitVec &&& 1#32 = BitVec.setWidth 32 (BitVec.ofBool (crc.toBitVec.getLsbD 0)) :=
    BitVec.and_one_eq_setWidth_ofBool_getLsbD
  show crc.toBitVec &&& 1#32 = 1#32 ↔ _
  rw [hand]
  cases crc.toBitVec.getLsbD 0 with
  | true => decide
  | false => decide

theorem toBitVec_crcShift (crc : UInt32) :
    (crcShift crc).toBitVec = shiftReg (UInt32.toBitVec 0xEDB88320) crc.toBitVec := by
  rw [crcShift, shiftReg, UInt32.toBitVec_xor]
  by_cases h : crc &&& 1 = 1
  · rw [if_pos h, if_pos ((low_bit_iff crc).1 h)]
    rfl
  · rw [if_neg h, if_neg (mt (low_bit_iff crc).2 h)]
    rfl

theorem crcShift_injective : Function.Injective crcShift := by
  intro c d heq
  have hbits := congrArg UInt32.toBitVec heq
  rw [toBitVec_crcShift, toBitVec_crcShift] at hbits
  exact UInt32.toBitVec_inj.1 (shiftReg_injective (by decide) hbits)

/-- One byte. -/
def crcByte (crc : UInt32) (b : Byte) : UInt32 := crcShift^[8] (crc ^^^ b.toUInt32)

theorem crc32_eq_foldl (data : List Byte) : crc32 data = data.foldl crcByte 0 := rfl

theorem crcByte_reversible : Reversible crcByte where
  register b c d heq := by
    have hxor : c ^^^ b.toUInt32 = d ^^^ b.toUInt32 := crcShift_injective.iterate 8 heq
    exact (UInt32.xor_left_inj _).1 hxor
  letter c b b' heq := by
    have hxor : c ^^^ b.toUInt32 = c ^^^ b'.toUInt32 := crcShift_injective.iterate 8 heq
    have hbyte := congrArg UInt32.toNat ((UInt32.xor_right_inj _).1 hxor)
    rw [UInt8.toNat_toUInt32, UInt8.toNat_toUInt32] at hbyte
    exact UInt8.toNat_inj.1 hbyte

/-- **The checksum tells apart** bytes that differ in one place. -/
theorem crc32_set_ne {data : List Byte} {k : Nat} {b : Byte} (hk : k < data.length) (hb : data[k]? ≠ some b) :
    crc32 (data.set k b) ≠ crc32 data := by
  rw [crc32_eq_foldl, crc32_eq_foldl]
  exact crcByte_reversible.foldl_set_ne hk hb 0

/-! ## The check -/

theorem crc32_dec (bs : List Byte) : (ProcStateHdr.codec.dec bs).crc32 = Codec.u32.dec (bs.drop 192) := rfl

theorem crcOk_eq_false_iff (hdr : List Byte) :
    crcOk hdr = false ↔ Codec.u32.dec (hdr.drop 192) ≠ 0 ∧ crc32 (hdr.take 192) ≠ Codec.u32.dec (hdr.drop 192) := by
  rw [crcOk, crc32_dec, Bool.or_eq_false_iff, beq_eq_false_iff_ne, beq_eq_false_iff_ne]

/-- The check of a header with one changed byte. -/
theorem crcOk_set_iff {hdr : List Byte} (hlen : hdr.length = 200)
    (hcrc : crc32 (hdr.take 192) = Codec.u32.dec (hdr.drop 192)) {k : Nat} {b : Byte} (hb : hdr[k]? ≠ some b) :
    crcOk (hdr.set k b) = false ↔ k < 196 ∧ Codec.u32.dec ((hdr.set k b).drop 192) ≠ 0 := by
  have hdrop : (hdr.drop 192).length = 8 := by rw [List.length_drop, hlen]
  rw [crcOk_eq_false_iff]
  obtain h | h | h : k < 192 ∨ (192 ≤ k ∧ k < 196) ∨ 196 ≤ k := by omega
  · -- a covered byte: the checksum that arrives is the old one
    have hne : crc32 ((hdr.take 192).set k b) ≠ crc32 (hdr.take 192) :=
      crc32_set_ne (by rw [List.length_take]; omega) (by rwa [List.getElem?_take_of_lt h])
    rw [List.take_set, List.drop_set_of_lt h, ← hcrc]
    exact ⟨fun hc => ⟨by omega, hc.1⟩, fun hc => ⟨hc.2, hne⟩⟩
  · -- a byte of the checksum: it is another one then
    have hne : Codec.u32.dec ((hdr.drop 192).set (k - 192) b) ≠ Codec.u32.dec (hdr.drop 192) := by
      refine Codec.u32_exact.dec_set_ne (hdrop ▸ by decide) (Nat.sub_lt_left_of_lt_add h.1 h.2) ?_
      rw [List.getElem?_drop, Nat.add_sub_cancel' h.1]
      exact hb
    rw [List.take_set_of_le h.1, List.drop_set, if_neg (Nat.not_lt.2 h.1), hcrc]
    exact ⟨fun hc => ⟨h.2, hc.1⟩, fun hc => ⟨hc.2, hne.symm⟩⟩
  · -- padding, or no byte of the header at all
    have heq : Codec.u32.dec ((hdr.drop 192).set (k - 192) b) = Codec.u32.dec (hdr.drop 192) :=
      Codec.int_local.dec_set (hdrop ▸ by decide) b (Nat.le_sub_of_add_le h)
    rw [List.take_set_of_le (by omega), List.drop_set, if_neg (by omega), heq, hcrc]
    exact ⟨fun hc => absurd rfl hc.2, fun hc => absurd hc.1 (by omega)⟩

/-! ## The receiver -/

section Receiver

variable {kv : Nat → Bool} {src : UInt32} {s : Snapshot}

/-- Whatever follows the state, the checksum alone decides about the launch. -/
theorem receive_eq_none_iff (hs : s.buf.length < 2 ^ 32) {bs : List Byte} (hl : s.buf.length ≤ bs.length) :
    receive kv (MsgHdr.codec.enc (stateHdr src s) ++ bs) = none ↔ (Room kv s → crcOk (bs.take 200) = false) := by
  rw [receive_stateHdr s hs, recvState]
  by_cases hroom : Room kv s
  · rw [if_pos ((recvState_cond s _).2 ⟨hroom, hl⟩), Option.bind_some]
    simp only [(receivePages_frame kv _ _).1, ProcStateHdr.codec_size]
    cases crcOk (bs.take 200) with
    | true => simp [hroom]
    | false => simp
  · rw [if_neg fun hc => hroom ((recvState_cond s _).1 hc).1, Option.bind_none]
    simp [hroom]

/-- The stream with a changed byte. -/
theorem send_set (k : Nat) (b : Byte) : (uckSendProcess src s.buf s.pages).set (40 + k) b =
    MsgHdr.codec.enc (stateHdr src s) ++ (s.buf ++ s.tail src).set k b := by
  have hlen : (MsgHdr.codec.enc (stateHdr src s)).length = 40 := MsgHdr.codec.length_enc _
  rw [send_eq, List.set_append_right _ _ (by omega), hlen, Nat.add_sub_cancel_left]

/-- The header in it. -/
theorem take_set_stream (k : Nat) (b : Byte) :
    ((s.buf ++ s.tail src).set k b).take 200 = (ProcStateHdr.codec.enc s.hdr).set k b := by
  rw [List.take_set, Snapshot.buf, List.append_assoc]
  exact congrArg (fun hdr => hdr.set k b) (List.take_left' (ProcStateHdr.codec.length_enc _))

theorem receive_set_eq_none_iff (hs : s.buf.length < 2 ^ 31) (k : Nat) (b : Byte) :
    receive kv ((uckSendProcess src s.buf s.pages).set (40 + k) b) = none ↔
      (Room kv s → crcOk ((ProcStateHdr.codec.enc s.hdr).set k b) = false) := by
  rw [send_set, receive_eq_none_iff (Nat.lt_trans hs (by decide)), take_set_stream]
  rw [List.length_set, List.length_append]
  exact Nat.le_add_right _ _

end Receiver

theorem crc32_hdr (s : Snapshot) : crc32 ((ProcStateHdr.codec.enc s.hdr).take 192) =
    Codec.u32.dec ((ProcStateHdr.codec.enc s.hdr).drop 192) := by
  rw [hdr_take, ← crc32_dec, ProcStateHdr.codec.dec_enc_self]
  rfl

/-- **The changes that are refused** are those in the header, up to the checksum, but for those that leave or make the
checksum zero. `kvmalloc` grants no size above `INT_MAX`. -/
theorem refused_iff (kv : Nat → Bool) (src : UInt32) (s : Snapshot) (hs : s.buf.length < 2 ^ 31) (k : Nat) (b : Byte)
    (h : Changed (uckSendProcess src s.buf s.pages) k b) :
    receive kv ((uckSendProcess src s.buf s.pages).set (40 + k) b) = none ↔ (Room kv s → s.Detected k b) := by
  have hlen : (ProcStateHdr.codec.enc s.hdr).length = 200 := ProcStateHdr.codec.length_enc _
  have hb : (ProcStateHdr.codec.enc s.hdr)[k]? ≠ some b := by
    intro hsome
    have hk : k < (ProcStateHdr.codec.enc s.hdr).length := (List.getElem?_eq_some_iff.1 hsome).1
    apply h.ne
    rw [send_eq, List.getElem?_append_right (by rw [MsgHdr.codec.length_enc]; exact Nat.le_add_right _ _),
      MsgHdr.codec.length_enc, MsgHdr.codec_size, Nat.add_sub_cancel_left, Snapshot.buf, List.append_assoc,
      List.getElem?_append_left hk, hsome]
  have hcrc : k < 196 → Codec.u32.dec (((ProcStateHdr.codec.enc s.hdr).set k b).drop 192) =
      (ProcStateHdr.codec.dec (s.buf.set k b)).crc32 := by
    intro hk
    rw [crc32_dec, Snapshot.buf, List.set_append_left _ _ (by omega),
      List.drop_append_of_le_length (by rw [List.length_set]; omega)]
    exact (Codec.int_local _ _ (by rw [List.length_drop, List.length_set, hlen]; decide)).symm
  rw [receive_set_eq_none_iff hs, crcOk_set_iff hlen (crc32_hdr s) hb]
  exact imp_congr_right fun _ => and_congr_right fun hk => by rw [hcrc hk]

/-! ## Changes of a process with one page -/

/-- What is sent of it: 40 bytes, the header, the state of one thread, and the page. -/
def sentOnePage : List Byte := uckSendProcess 1 onePage.buf onePage.pages

theorem length_sentOnePage : sentOnePage.length = 4584 := by
  rw [sentOnePage, send_eq, List.length_append, MsgHdr.codec.length_enc, List.length_append, length_onePage,
    Snapshot.tail, List.length_append, length_pageMsgs, doneMsg, MsgHdr.codec.length_enc]
  rfl

theorem onePage_room : Room kvmalloc onePage := by
  unfold Room
  rw [length_descs]
  exact ⟨rfl, rfl⟩

/-- The destination refuses the process if its number has changed. -/
theorem changed_pid_refused :
    Changed sentOnePage 4 8 ∧ receive kvmalloc (sentOnePage.set (40 + 4) 8) = none := by
  have hchanged : Changed sentOnePage 4 8 := ⟨by rw [length_sentOnePage]; decide, fun h => by cases h⟩
  refine ⟨hchanged, (refused_iff kvmalloc 1 onePage (by rw [length_onePage]; decide) 4 8 hchanged).2 fun _ => ?_⟩
  exact ⟨by decide, by decide +kernel⟩

/-- Nobody notices that the identifier of the thread, the address of the page or the page have changed. -/
theorem changed_page_launched :
    (Changed sentOnePage 200 1 ∧ receive kvmalloc (sentOnePage.set (40 + 200) 1) ≠ none) ∧
    (Changed sentOnePage 384 1 ∧ receive kvmalloc (sentOnePage.set (40 + 384) 1) ≠ none) ∧
    (Changed sentOnePage 408 1 ∧ receive kvmalloc (sentOnePage.set (40 + 408) 1) ≠ none) := by
  have hlaunch : ∀ k, 200 ≤ k → receive kvmalloc (sentOnePage.set (40 + k) 1) ≠ none := by
    intro k hk hnone
    have hcheck := (receive_set_eq_none_iff (by rw [length_onePage]; decide) k 1).1 hnone onePage_room
    rw [List.set_eq_of_length_le (by rw [ProcStateHdr.codec.length_enc]; exact hk), crcOk_hdr] at hcheck
    cases hcheck
  refine ⟨?_, ?_, ?_⟩
  · exact ⟨⟨by rw [length_sentOnePage]; decide, fun h => by cases h⟩, hlaunch _ (by decide)⟩
  · exact ⟨⟨by rw [length_sentOnePage]; decide, fun h => by cases h⟩, hlaunch _ (by decide)⟩
  · exact ⟨⟨by rw [length_sentOnePage]; decide, fun h => by cases h⟩, hlaunch _ (by decide)⟩

end UckSmp.Migrate
