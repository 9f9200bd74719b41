import UckSmp.Wire

/-!
# Process snapshots on the wire and in the state file

The four layouts of a migrating process: the buffer of `uck_checkpoint_process`, the messages of `uck_send_process`,
what `uck_handle_proc_state` makes of the bytes it receives and `uck_write_state_file` writes, and what the restore
stub reads from that file.

Receives get the bytes that arrive and fail when there are no more. `kv` says which sizes `kvmalloc` grants.
-/

namespace UckSmp.Migrate

open Lib

/-! ## Structures -/

/-- The saved registers, in the order of both structures that hold them. -/
structure Regs where
  (ip sp flags ax bx cx dx si di bp r8 r9 r10 r11 r12 r13 r14 r15 cs ss : UInt64)
  deriving DecidableEq, Repr

def Regs.codec : Codec Regs :=
  let c := Codec.u64
  (c.seq <| c.seq <| c.seq <| c.seq <| c.seq <| c.seq <| c.seq <| c.seq <| c.seq <| c.seq <| c.seq <| c.seq <| c.seq <|
      c.seq <| c.seq <| c.seq <| c.seq <| c.seq <| c.seq c).retract
    (fun r => (r.ip, r.sp, r.flags, r.ax, r.bx, r.cx, r.dx, r.si, r.di, r.bp, r.r8, r.r9, r.r10, r.r11, r.r12, r.r13,
      r.r14, r.r15, r.cs, r.ss))
    (fun (ip, sp, flags, ax, bx, cx, dx, si, di, bp, r8, r9, r10, r11, r12, r13, r14, r15, cs, ss) =>
      ⟨ip, sp, flags, ax, bx, cx, dx, si, di, bp, r8, r9, r10, r11, r12, r13, r14, r15, cs, ss⟩)
    fun _ => rfl

def zeroRegs : Regs := ⟨0, 0, 0, 0, 0, 0, 0, 0, 0, 0, 0, 0, 0, 0, 0, 0, 0, 0, 0, 0⟩

/-- `struct uck_proc_state_hdr`. -/
structure ProcStateHdr where
  srcNode : UInt32
  pid : UInt32
  nrVmas : UInt64
  nrPages : UInt64
  regs : Regs
  nrFds : UInt32
  crc32 : UInt32
  deriving DecidableEq, Repr

/-- Up to the checksum, whose offset is 192. -/
def ProcStateHdr.body : Codec (UInt32 × UInt32 × UInt64 × UInt64 × Regs × UInt32 × Unit) :=
  Codec.u32.seq <| Codec.u32.seq <| Codec.u64.seq <| Codec.u64.seq <| Regs.codec.seq <| Codec.u32.seq <| Codec.zeros 4

def ProcStateHdr.codec : Codec ProcStateHdr :=
  (ProcStateHdr.body.seq <| Codec.u32.seq <| Codec.zeros 4).retract
    (fun h => ((h.srcNode, h.pid, h.nrVmas, h.nrPages, h.regs, h.nrFds, ()), h.crc32, ()))
    (fun t => ⟨t.1.1, t.1.2.1, t.1.2.2.1, t.1.2.2.2.1, t.1.2.2.2.2.1, t.1.2.2.2.2.2.1, t.2.1⟩)
    fun _ => rfl

@[simp] theorem ProcStateHdr.codec_size : ProcStateHdr.codec.size = 200 := rfl

/-- `char path[256]`. -/
abbrev Path := { bs : List Byte // bs.length = 256 }

def zeroPath : Path := ⟨List.replicate 256 0, List.length_replicate⟩

/-- `struct uck_vma_desc`. -/
structure VmaDesc where
  (start «end» flags pgoff : UInt64)
  isAnon : UInt32
  path : Path
  deriving DecidableEq

def VmaDesc.codec : Codec VmaDesc :=
  (Codec.u64.seq <| Codec.u64.seq <| Codec.u64.seq <| Codec.u64.seq <| Codec.u32.seq <| (Codec.zeros 4).seq <|
      Codec.bytes 256).retract
    (fun v => (v.start, v.end, v.flags, v.pgoff, v.isAnon, (), v.path))
    (fun (start, stop, flags, pgoff, isAnon, _, path) => ⟨start, stop, flags, pgoff, isAnon, path⟩)
    fun _ => rfl

@[simp] theorem VmaDesc.codec_size : VmaDesc.codec.size = 296 := rfl

/-- `struct uck_fd_desc`. -/
structure FdDesc where
  (fdNum flags : UInt32)
  pos : UInt64
  path : Path
  deriving DecidableEq

def FdDesc.codec : Codec FdDesc :=
  (Codec.u32.seq <| Codec.u32.seq <| Codec.u64.seq <| Codec.bytes 256).retract
    (fun f => (f.fdNum, f.flags, f.pos, f.path)) (fun (fdNum, flags, pos, path) => ⟨fdNum, flags, pos, path⟩)
    fun _ => rfl

@[simp] theorem FdDesc.codec_size : FdDesc.codec.size = 272 := rfl

/-- `struct uck_thread_state`; the identifier is followed by padding. -/
structure ThreadState where
  tid : UInt32
  regs : Regs
  deriving DecidableEq, Repr

def ThreadState.codec : Codec ThreadState :=
  (Codec.u32.seq <| (Codec.zeros 4).seq Regs.codec).retract (fun t => (t.tid, (), t.regs))
    (fun t => ⟨t.1, t.2.2⟩) fun _ => rfl

@[simp] theorem ThreadState.codec_size : ThreadState.codec.size = 168 := rfl

theorem one_thread_ne : [(⟨7, zeroRegs⟩ : ThreadState)] ≠ [] := List.cons_ne_nil _ _

/-- An anonymous page and its address, as in the state file. -/
def pageRecord : Codec (UInt64 × Page) := Codec.u64.seq Page.codec

@[simp] theorem pageRecord_size : pageRecord.size = 4104 := rfl

theorem pageRecord_exact : pageRecord.Exact := Codec.seq_exact Codec.u64_exact Page.codec_exact

/-- A process: what the checkpoint captures and the anonymous pages that are sent after it. -/
structure Snapshot where
  srcNode : UInt32
  pid : UInt32
  regs : Regs
  vmas : List VmaDesc
  fds : List FdDesc
  threads : List ThreadState
  threads_ne : threads ≠ []
  pages : List (UInt64 × Page)

/-! ## Sending -/

/-- `crc32(0, data, len)` of the kernel, bit by bit. -/
def crc32 (data : List Byte) : UInt32 :=
  data.foldl (fun crc b =>
    (List.range 8).foldl (fun crc _ => (crc >>> 1) ^^^ (if crc &&& 1 = 1 then 0xEDB88320 else 0))
      (crc ^^^ b.toUInt32)) 0

/-- The header before the checksum is put in. -/
def Snapshot.rawHdr (s : Snapshot) : ProcStateHdr :=
  ⟨s.srcNode, s.pid, UInt64.ofNat s.vmas.length, 0, s.regs, UInt32.ofNat s.fds.length, 0⟩

/-- The checksum is over what stands before it. -/
def Snapshot.hdr (s : Snapshot) : ProcStateHdr :=
  { s.rawHdr with crc32 := crc32 ((ProcStateHdr.codec.enc s.rawHdr).take 192) }

/-- The descriptors and the thread states behind the header. -/
def Snapshot.descs (s : Snapshot) : List Byte :=
  VmaDesc.codec.encAll s.vmas ++ FdDesc.codec.encAll s.fds ++ ThreadState.codec.encAll s.threads

/-- `uck_checkpoint_process`. The padding is zero, for the buffer was cleared. -/
def uckCheckpointProcess (kv : Nat → Bool) (s : Snapshot) : Option (List Byte) :=
  let buf := ProcStateHdr.codec.enc (s.hdr) ++ s.descs
  if kv buf.length then some buf else none

def stateMsg (src : UInt32) (buf : List Byte) : List Byte :=
  MsgHdr.codec.enc { type := MsgType.procState.code, srcNode := src, payloadLen := UInt32.ofNat buf.length } ++ buf

def pageMsg (src : UInt32) (r : UInt64 × Page) : List Byte :=
  MsgHdr.codec.enc { type := MsgType.procPages.code, srcNode := src, pageOffset := r.1,
                     payloadLen := UInt32.ofNat pageSize } ++ r.2.bytes

def doneMsg (src : UInt32) : List Byte := MsgHdr.codec.enc { type := MsgType.migrateDone.code, srcNode := src }

/-- The bytes that `uck_send_process` sends. -/
def uckSendProcess (src : UInt32) (buf : List Byte) (pages : List (UInt64 × Page)) : List Byte :=
  stateMsg src buf ++ (pages.flatMap (pageMsg src) ++ doneMsg src)

/-! ## Receiving -/

/-- `struct uck_incoming_proc`; `hdr` holds the bytes of the header. -/
structure Incoming where
  hdr : List Byte
  stateBuf : List Byte
  pages : List (UInt64 × Page)
  pagesCapacity : Nat

section Receiving

variable (kv : Nat → Bool)

/-- Room for one more page: the array doubles when it is full. An element has the size of a record. -/
def Incoming.grow (inc : Incoming) : Option Incoming :=
  if inc.pages.length < inc.pagesCapacity then some inc
  else if kv (inc.pagesCapacity * 2 * pageRecord.size) then some { inc with pagesCapacity := inc.pagesCapacity * 2 }
  else none

/-- The loop of `uck_handle_proc_state`: page after page until a receive or an allocation fails, or a message of
another type, the last one among them, arrives. -/
def receivePages (inc : Incoming) (bs : List Byte) : Incoming :=
  if bs.length < MsgHdr.codec.size then inc
  else if (MsgHdr.codec.dec bs).type ≠ MsgType.procPages.code then inc
  else match inc.grow kv with
    | none => inc
    | some inc =>
      if (bs.drop MsgHdr.codec.size).length < pageSize then inc
      else
        receivePages
          { inc with
            pages := inc.pages ++ [((MsgHdr.codec.dec bs).pageOffset, Page.codec.dec (bs.drop MsgHdr.codec.size))] }
          ((bs.drop MsgHdr.codec.size).drop pageSize)
termination_by bs.length
decreasing_by
  simp only [List.length_drop, MsgHdr.codec_size, pageSize] at *
  omega

/-- The first part of `uck_handle_proc_state`: the allocations and the two receives of the state, of which `len` bytes
were announced. What is left of the stream comes with it. -/
def recvState (len : Nat) (bs : List Byte) : Option (Incoming × List Byte) :=
  if kv (256 * pageRecord.size) ∧ ProcStateHdr.codec.size ≤ len ∧
      (len = ProcStateHdr.codec.size ∨ kv (len - ProcStateHdr.codec.size)) ∧ len ≤ bs.length then
    some (⟨bs.take ProcStateHdr.codec.size, (bs.take len).drop ProcStateHdr.codec.size, [], 256⟩, bs.drop len)
  else none

/-- The check of the checksum; zero stands for none. -/
def crcOk (hdr : List Byte) : Bool :=
  let crc := (ProcStateHdr.codec.dec hdr).crc32
  crc == 0 || crc32 (hdr.take 192) == crc

/-- `uck_handle_proc_state` up to the launch of the restore stub, with the header `hdr` of the message. -/
def uckHandleProcState (hdr : MsgHdr) (bs : List Byte) : Option Incoming :=
  (recvState kv hdr.payloadLen.toNat bs).bind fun (inc, rest) =>
    let inc := receivePages kv inc rest
    if crcOk inc.hdr then some inc else none

/-- The receiver of a whole migration: `uck_handle_client` dispatches on the header. -/
def receive (bs : List Byte) : Option Incoming :=
  if MsgHdr.codec.size ≤ bs.length ∧ (MsgHdr.codec.dec bs).type = MsgType.procState.code then
    uckHandleProcState kv (MsgHdr.codec.dec bs) (bs.drop MsgHdr.codec.size)
  else none

end Receiving

/-- The file that `uck_write_state_file` writes. -/
def uckWriteStateFile (inc : Incoming) : List Byte :=
  inc.hdr ++ inc.stateBuf ++ leBytes inc.pages.length 4 ++ pageRecord.encAll inc.pages

/-! ## Restoring -/

/-- What the restore stub reads. -/
structure Restored where
  hdr : ProcStateHdr
  vmas : List VmaDesc
  fds : List FdDesc
  pages : List (UInt64 × Page)
  deriving DecidableEq

/-- The page loop of the stub: an address and a page, as long as both can be read. -/
def restorePages : Nat → List Byte → List (UInt64 × Page)
  | 0, _ => []
  | n + 1, bs =>
    if bs.length < 8 then []
    else if (bs.drop 8).length < pageSize then []
    else (Codec.u64.dec bs, Page.codec.dec (bs.drop 8)) :: restorePages n (bs.drop (8 + pageSize))

/-- `main` of the restore stub, up to the restored data. -/
def uckRestore (file : List Byte) : Option Restored :=
  if file.length < ProcStateHdr.codec.size then none
  else
    let hdr := ProcStateHdr.codec.dec file
    match VmaDesc.codec.decAll hdr.nrVmas.toNat (file.drop ProcStateHdr.codec.size) with
    | none => none
    | some (vmas, rest) => match FdDesc.codec.decAll hdr.nrFds.toNat rest with
      | none => none
      | some (fds, rest) =>
        let nrPages := if rest.length < 4 then 0 else loopBound (Codec.u32.dec rest)
        some ⟨hdr, vmas, fds, restorePages nrPages (rest.drop 4)⟩

end UckSmp.Migrate
