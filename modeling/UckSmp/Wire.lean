import UckSmp.Defs
import UckSmp.Lib.Framing

/-!
# The wire protocol

Message types and the headers that the modelled handlers read and write, with their layouts.
-/

namespace UckSmp

open Lib

/-- `enum uck_msg_type`. -/
inductive MsgType
  | pageReq | pageResp | invalidate | invalidateAck | pageWriteReq | pageWriteResp | nodeJoin | nodeJoinAck
  | batchPageReq | batchPageResp
  | heartbeat
  | migrateReq | migrateAccept | migrateReject | procState | procPages | migrateDone | migrateFail
  | execReq | execStarted | execDone
  | nodeAnnounce | nodeAnnounceAck | nodeLeave | nodeLeaveAck
  | futexWait | futexWake | futexWakeResp
  | cgroupStats
  | futexWakeNack | migrateAbort
  | epochUpdate
  deriving DecidableEq, Repr

def MsgType.code : MsgType → UInt32
  | pageReq => 1 | pageResp => 2 | invalidate => 3 | invalidateAck => 4 | pageWriteReq => 5 | pageWriteResp => 6
  | nodeJoin => 7 | nodeJoinAck => 8
  | batchPageReq => 10 | batchPageResp => 11
  | heartbeat => 20
  | migrateReq => 30 | migrateAccept => 31 | migrateReject => 32 | procState => 33 | procPages => 34
  | migrateDone => 35 | migrateFail => 36
  | execReq => 40 | execStarted => 41 | execDone => 42
  | nodeAnnounce => 50 | nodeAnnounceAck => 51 | nodeLeave => 52 | nodeLeaveAck => 53
  | futexWait => 60 | futexWake => 61 | futexWakeResp => 62
  | cgroupStats => 70
  | futexWakeNack => 80 | migrateAbort => 81
  | epochUpdate => 90

def MsgType.all : List MsgType :=
  [pageReq, pageResp, invalidate, invalidateAck, pageWriteReq, pageWriteResp, nodeJoin, nodeJoinAck, batchPageReq,
    batchPageResp, heartbeat, migrateReq, migrateAccept, migrateReject, procState, procPages, migrateDone, migrateFail,
    execReq, execStarted, execDone, nodeAnnounce, nodeAnnounceAck, nodeLeave, nodeLeaveAck, futexWait, futexWake,
    futexWakeResp, cgroupStats, futexWakeNack, migrateAbort, epochUpdate]

/-- The message type with a code, if there is one. -/
def MsgType.ofCode (c : UInt32) : Option MsgType := all.find? fun t => t.code = c

@[simp] theorem MsgType.ofCode_code (t : MsgType) : ofCode t.code = some t := by
  cases t <;> rfl

/-- `struct uck_msg_hdr`; the defaults are those of the `memset`s. -/
structure MsgHdr where
  type : UInt32
  srcNode : UInt32
  regionId : UInt64 := 0
  pageOffset : UInt64 := 0
  payloadLen : UInt32 := 0
  flags : UInt32 := 0
  epoch : UInt32 := 0
  deriving DecidableEq, Repr

/-- The structure ends in four bytes of padding. -/
def MsgHdr.codec : Codec MsgHdr :=
  (Codec.u32.seq <| Codec.u32.seq <| Codec.u64.seq <| Codec.u64.seq <| Codec.u32.seq <| Codec.u32.seq <|
      Codec.u32.seq <| Codec.zeros 4).retract
    (fun h => (h.type, h.srcNode, h.regionId, h.pageOffset, h.payloadLen, h.flags, h.epoch, ()))
    (fun t => ⟨t.1, t.2.1, t.2.2.1, t.2.2.2.1, t.2.2.2.2.1, t.2.2.2.2.2.1, t.2.2.2.2.2.2.1⟩)
    fun _ => rfl

@[simp] theorem MsgHdr.codec_size : MsgHdr.codec.size = 40 := rfl

/-- A header is followed by the payload that it announces. -/
def MsgHdr.framing : Framing MsgHdr := ⟨MsgHdr.codec, fun h => h.payloadLen.toNat, by decide⟩

/-- A complete message. -/
abbrev Msg := MsgHdr.framing.Frame

/-- The contents of a page. -/
def Page.codec : Codec Page :=
  (Codec.bytes pageSize).retract (fun p => ⟨p.bytes, p.length_bytes⟩) (fun b => ⟨b.1, b.2⟩) fun _ => rfl

@[simp] theorem Page.codec_size : Page.codec.size = 4096 := rfl

@[simp] theorem Page.codec_enc (p : Page) : Page.codec.enc p = p.bytes := rfl

theorem Page.codec_exact : Page.codec.Exact := Codec.retract_exact (Codec.bytes_exact _) fun _ => rfl

theorem Page.codec_local : Page.codec.Local := Codec.retract_local (Codec.bytes_local _)

/-- `struct uck_batch_page_resp`, which is sent without a `struct uck_msg_hdr`. -/
structure BatchPageResp where
  regionId : UInt64
  nrPages : UInt32
  flags : UInt32
  deriving DecidableEq, Repr

def BatchPageResp.codec : Codec BatchPageResp :=
  (Codec.u64.seq <| Codec.u32.seq Codec.u32).retract (fun r => (r.regionId, r.nrPages, r.flags))
    (fun t => ⟨t.1, t.2.1, t.2.2⟩) fun _ => rfl

@[simp] theorem BatchPageResp.codec_size : BatchPageResp.codec.size = 16 := rfl

theorem BatchPageResp.codec_local : BatchPageResp.codec.Local :=
  Codec.retract_local (Codec.seq_local Codec.int_local (Codec.seq_local Codec.int_local Codec.int_local))

/-- `struct uck_batch_page_req`. -/
structure BatchPageReq where
  regionId : UInt64
  nrPages : UInt32
  offsets : { os : List UInt64 // os.length = uckBatchMaxPages }
  deriving DecidableEq, Repr

def BatchPageReq.codec : Codec BatchPageReq :=
  (Codec.u64.seq <| Codec.u32.seq <| (Codec.zeros 4).seq <| Codec.u64.array uckBatchMaxPages).retract
    (fun r => (r.regionId, r.nrPages, (), r.offsets)) (fun t => ⟨t.1, t.2.1, t.2.2.2⟩) fun _ => rfl

@[simp] theorem BatchPageReq.codec_size : BatchPageReq.codec.size = 272 := rfl

/-- A 32-bit count read as an `int` and used as the bound of an upward loop. -/
def loopBound (n : UInt32) : Nat := if n.toNat < 2 ^ 31 then n.toNat else 0

theorem loopBound_ofNat {n : Nat} (h : n < 2 ^ 31) : loopBound (UInt32.ofNat n) = n := by
  have hn : (UInt32.ofNat n).toNat = n := by
    rw [UInt32.toNat_ofNat']
    omega
  rw [loopBound, hn, if_pos h]

/-- `(u64)index << PAGE_SHIFT`. -/
def pageOffset (i : Nat) : UInt64 := UInt64.ofNat (i * pageSize)

/-- `offset >> PAGE_SHIFT`. -/
def pageIndex (o : UInt64) : Nat := o.toNat / pageSize

/-- The pages of a region are numbered below `2 ^ 52`, for its size in bytes is 64 bits wide. -/
theorem pageIndex_pageOffset {i : Nat} (h : i < 2 ^ 52) : pageIndex (pageOffset i) = i := by
  have hs : pageSize = 4096 := rfl
  unfold pageIndex pageOffset
  rw [UInt64.toNat_ofNat', hs]
  omega

end UckSmp
