import UckSmp.Lib.Patch
import UckSmp.Migrate.Stub

/-!
# Capturing a process that does not stand still

`uck_checkpoint_process` looks at the mappings, the descriptors and the threads of a task twice: to count them, and,
when the buffer is there, to write them down. Nothing holds them in between. Every write into the buffer is kept, with
the part of the buffer that it is meant for.

* `buf_eq`: what is in the buffer is a snapshot, with empty descriptors where the task has shrunk.
* `capture_bounded`: no write leaves its part, and the empty descriptors are harmless to the restore stub.
* `uckCheckpoint_eq`: the checkpoint of the other modules.
-/

namespace UckSmp.Migrate

open Lib
open UckSmp.Exec (strscpy)

/-! ## What is captured -/

/-- What `d_path` says of an open file; `none` if it fails or there is no memory for its answer. -/
abbrev DPath := Option (List Byte)

/-- The member `path` of a descriptor, in a buffer that was cleared. -/
def pathOf (name : DPath) : Path :=
  ⟨(strscpy 256 (name.getD []) ++ List.replicate 256 0).take 256, by
    rw [List.length_take, List.length_append, List.length_replicate]
    omega⟩

/-- What is read of a `struct vm_area_struct`. -/
structure VmArea where
  (start «end» flags pgoff : UInt64)
  file : Option DPath

/-- What `uck_serialize_vmas` writes for a mapping. -/
def VmArea.desc (vma : VmArea) : VmaDesc :=
  ⟨vma.start, vma.end, vma.flags, vma.pgoff, if vma.file.isSome then 0 else 1, pathOf (vma.file.getD none)⟩

/-- What is read of a `struct file`. -/
structure OpenFile where
  flags : UInt32
  pos : UInt64
  path : DPath

/-- What `uck_serialize_fds` writes for the descriptor `fd`. -/
def OpenFile.desc (fd : Nat) (f : OpenFile) : FdDesc := ⟨UInt32.ofNat fd, f.flags, f.pos, pathOf f.path⟩

/-- The table of a `struct files_struct`, or none. -/
abbrev Files := Option (List (Option OpenFile))

/-- What a checkpoint sees of a task, every time it looks. Counts are of type `int`, which the kernel's own limits on
mappings and descriptors keep them in. -/
structure Looks where
  srcNode : UInt32
  pid : UInt32
  regs : Regs
  countedVmas : List VmArea
  countedFds : Files
  countedThreads : List ThreadState
  capturedVmas : List VmArea
  capturedFds : Files
  capturedThreads : List ThreadState
  vmas_lt : countedVmas.length < 2 ^ 31
  fds_lt : (countedFds.getD []).length < 2 ^ 31

/-! ## Code -/

/-- `uck_count_fds`. -/
def uckCountFds (files : Files) : Nat := (files.getD []).countP (·.isSome)

/-- `uck_serialize_vmas`, into the array at `base`. -/
def uckSerializeVmas (vmas : List VmArea) (base max : Nat) : List Write :=
  VmaDesc.codec.slotWrites base max 0 (vmas.map VmArea.desc)

/-- The loop of `uck_serialize_fds`, from the descriptor `fd` on, when `count` have been written. -/
def serializeFrom (base max : Nat) : Nat → Nat → List (Option OpenFile) → List Write
  | _, _, [] => []
  | fd, count, f :: fs =>
    if max ≤ count then []
    else
      match f with
      | none => serializeFrom base max (fd + 1) count fs
      | some f =>
        ⟨base + count * FdDesc.codec.size, FdDesc.codec.enc (f.desc fd)⟩ ::
          serializeFrom base max (fd + 1) (count + 1) fs

/-- `uck_serialize_fds`. -/
def uckSerializeFds (files : Files) (base max : Nat) : List Write := serializeFrom base max 0 0 (files.getD [])

/-- The parts of the buffer. -/
inductive Part
  | hdr
  | vmas
  | fds
  | threads
  deriving DecidableEq, Repr

namespace Looks

variable (l : Looks)

/-- `uck_count_vmas`. -/
def nrVmas : Nat := l.countedVmas.length

def nrFds : Nat := uckCountFds l.countedFds

def nrThreads : Nat := if l.countedThreads.length = 0 then 1 else l.countedThreads.length

def size : Part → Nat
  | .hdr => ProcStateHdr.codec.size
  | .vmas => l.nrVmas * VmaDesc.codec.size
  | .fds => l.nrFds * FdDesc.codec.size
  | .threads => l.nrThreads * ThreadState.codec.size

def start : Part → Nat
  | .hdr => 0
  | .vmas => l.size .hdr
  | .fds => l.size .hdr + l.size .vmas
  | .threads => l.size .hdr + l.size .vmas + l.size .fds

def totalLen : Nat := l.size .hdr + l.size .vmas + l.size .fds + l.size .threads

/-- The header as it is filled in before the checksum is known. -/
def rawHdr : ProcStateHdr :=
  ⟨l.srcNode, l.pid, UInt64.ofNat l.nrVmas, 0, l.regs, UInt32.ofNat l.nrFds, 0⟩

/-- The writes before the one of the checksum. -/
def bodyWrites : List (Part × Write) :=
  (.hdr, ⟨0, ProcStateHdr.codec.enc l.rawHdr⟩) ::
    ((uckSerializeVmas l.capturedVmas (l.start .vmas) l.nrVmas).map (Part.vmas, ·) ++
      ((uckSerializeFds l.capturedFds (l.start .fds) l.nrFds).map (Part.fds, ·) ++
        (ThreadState.codec.slotWrites (l.start .threads) l.nrThreads 0 l.capturedThreads).map (Part.threads, ·)))

/-- The buffer before the checksum is put in. -/
def body : List Byte := (l.bodyWrites.map (·.2)).foldl patch (List.replicate l.totalLen 0)

/-- The write of the checksum of what stands before it. -/
def crcWrite : Write := ⟨192, Codec.u32.enc (crc32 (l.body.take 192))⟩

/-- All writes of `uck_checkpoint_process`. -/
def writes : List (Part × Write) := l.bodyWrites ++ [(.hdr, l.crcWrite)]

/-- The buffer that it returns. -/
def buf : List Byte := (l.writes.map (·.2)).foldl patch (List.replicate l.totalLen 0)

/-- `uck_checkpoint_process`, for a task that has an `mm` or not. -/
def uckCheckpoint (hasMm : Bool) (kv : Nat → Bool) : Option (List Byte) :=
  if hasMm && kv l.totalLen then some l.buf else none

end Looks

/-! ## Statement -/

/-- The descriptors of the open files of a table that begins with number `fd`. -/
def fdDescs : Nat → List (Option OpenFile) → List FdDesc
  | _, [] => []
  | fd, none :: fs => fdDescs (fd + 1) fs
  | fd, some f :: fs => f.desc fd :: fdDescs (fd + 1) fs

/-- A capture stays inside its buffer, and what it leaves empty is harmless. -/
structure Looks.Bounded (l : Looks) : Prop where
  writes : ∀ x ∈ l.writes, x.2.Within (l.start x.1) (l.start x.1 + l.size x.1) ∧
    l.start x.1 + l.size x.1 ≤ l.totalLen
  length : l.buf.length = l.totalLen
  nrVmas : (ProcStateHdr.codec.dec l.buf).nrVmas.toNat * VmaDesc.codec.size = l.size .vmas
  nrFds : (ProcStateHdr.codec.dec l.buf).nrFds.toNat * FdDesc.codec.size = l.size .fds
  /-- Mappings that are gone leave zeros, which the loop over the mappings passes over. -/
  vmas : ∀ i, l.capturedVmas.length ≤ i → i < l.nrVmas →
    VmaDesc.codec.slot l.buf (l.start .vmas) i = List.replicate VmaDesc.codec.size 0 ∧
      (VmaDesc.codec.dec (VmaDesc.codec.slot l.buf (l.start .vmas) i)).mmapArgs = none
  /-- So do files that were closed. -/
  fds : ∀ i, uckCountFds l.capturedFds ≤ i → i < l.nrFds →
    FdDesc.codec.slot l.buf (l.start .fds) i = List.replicate FdDesc.codec.size 0 ∧
      (FdDesc.codec.dec (FdDesc.codec.slot l.buf (l.start .fds) i)).reopenArgs = none
  /-- And threads that ended. -/
  threads : ∀ i, l.capturedThreads.length ≤ i → i < l.nrThreads →
    ThreadState.codec.slot l.buf (l.start .threads) i = List.replicate ThreadState.codec.size 0

/-! ## Empty records -/

def zeroVma : VmaDesc := ⟨0, 0, 0, 0, 0, zeroPath⟩

def zeroFd : FdDesc := ⟨0, 0, 0, zeroPath⟩

def zeroThread : ThreadState := ⟨0, zeroRegs⟩

theorem enc_zeroVma : VmaDesc.codec.enc zeroVma = List.replicate VmaDesc.codec.size 0 := rfl

theorem enc_zeroFd : FdDesc.codec.enc zeroFd = List.replicate FdDesc.codec.size 0 := rfl

theorem enc_zeroThread : ThreadState.codec.enc zeroThread = List.replicate ThreadState.codec.size 0 := by
  decide +kernel

theorem mmapArgs_zeroVma : zeroVma.mmapArgs = none := rfl

theorem reopenArgs_zeroFd : zeroFd.reopenArgs = none := if_pos rfl

/-! ## The buffer -/

/-- The loop over the table of descriptors writes those of its open files. -/
theorem serializeFrom_eq (base max fd count : Nat) (fs : List (Option OpenFile)) :
    serializeFrom base max fd count fs = FdDesc.codec.slotWrites base max count (fdDescs fd fs) := by
  induction fs generalizing fd count with
  | nil => rfl
  | cons f fs ih =>
    cases f with
    | none =>
      rw [serializeFrom, fdDescs]
      split
      next hfull =>
        cases fdDescs (fd + 1) fs with
        | nil => rfl
        | cons a as => rw [Codec.slotWrites, if_pos hfull]
      next => exact ih (fd + 1) count
    | some f =>
      rw [serializeFrom, fdDescs, Codec.slotWrites, ih]

theorem length_fdDescs (fd : Nat) (fs : List (Option OpenFile)) : (fdDescs fd fs).length = fs.countP (·.isSome) := by
  induction fs generalizing fd with
  | nil => rfl
  | cons f fs ih =>
    cases f with
    | none => rw [fdDescs, ih, List.countP_cons_of_neg (by simp)]
    | some f => rw [fdDescs, List.length_cons, ih, List.countP_cons_of_pos (by simp)]

namespace Looks

variable (l : Looks)

/-- What is sent of the task: as many records as were counted. -/
def snapshot (pages : List (UInt64 × Page)) : Snapshot where
  srcNode := l.srcNode
  pid := l.pid
  regs := l.regs
  vmas := Codec.fill zeroVma l.nrVmas (l.capturedVmas.map VmArea.desc)
  fds := Codec.fill zeroFd l.nrFds (fdDescs 0 (l.capturedFds.getD []))
  threads := Codec.fill zeroThread l.nrThreads l.capturedThreads
  threads_ne := by
    apply List.ne_nil_of_length_pos
    rw [Codec.length_fill, nrThreads]
    split <;> omega
  pages

theorem rawHdr_snapshot (pages : List (UInt64 × Page)) : (l.snapshot pages).rawHdr = l.rawHdr := by
  simp only [Snapshot.rawHdr, snapshot, rawHdr, Codec.length_fill]

/-- The cleared buffer, part by part. -/
theorem cleared : List.replicate l.totalLen (0 : Byte) =
    List.replicate ProcStateHdr.codec.size 0 ++ (List.replicate (l.nrVmas * VmaDesc.codec.size) 0 ++
      (List.replicate (l.nrFds * FdDesc.codec.size) 0 ++ List.replicate (l.nrThreads * ThreadState.codec.size) 0)) := by
  simp only [totalLen, size, List.replicate_append_replicate, Nat.add_assoc]

theorem patch_hdr (post : List Byte) :
    patch (List.replicate ProcStateHdr.codec.size 0 ++ post) ⟨0, ProcStateHdr.codec.enc l.rawHdr⟩ =
      ProcStateHdr.codec.enc l.rawHdr ++ post := by
  have h : patch ([] ++ (List.replicate ProcStateHdr.codec.size 0 ++ post)) ⟨0, ProcStateHdr.codec.enc l.rawHdr⟩ =
      [] ++ (ProcStateHdr.codec.enc l.rawHdr ++ post) :=
    patch_append post List.length_nil.symm (by rw [ProcStateHdr.codec.length_enc, List.length_replicate])
  rwa [List.nil_append, List.nil_append] at h

theorem patch_vmas (pre post : List Byte) (hpre : l.start .vmas = pre.length) :
    (uckSerializeVmas l.capturedVmas (l.start .vmas) l.nrVmas).foldl patch
        (pre ++ (List.replicate (l.nrVmas * VmaDesc.codec.size) 0 ++ post)) =
      pre ++ (VmaDesc.codec.encAll (Codec.fill zeroVma l.nrVmas (l.capturedVmas.map VmArea.desc)) ++ post) :=
  Codec.foldl_slotWrites _ enc_zeroVma _ _ _ _ 0 _ (Nat.zero_add _) _ (by rw [Nat.zero_mul, Nat.add_zero, hpre])

theorem patch_fds (pre post : List Byte) (hpre : l.start .fds = pre.length) :
    (uckSerializeFds l.capturedFds (l.start .fds) l.nrFds).foldl patch
        (pre ++ (List.replicate (l.nrFds * FdDesc.codec.size) 0 ++ post)) =
      pre ++ (FdDesc.codec.encAll (Codec.fill zeroFd l.nrFds (fdDescs 0 (l.capturedFds.getD []))) ++ post) := by
  rw [uckSerializeFds, serializeFrom_eq]
  exact Codec.foldl_slotWrites _ enc_zeroFd _ _ _ _ 0 _ (Nat.zero_add _) _ (by rw [Nat.zero_mul, Nat.add_zero, hpre])

theorem patch_threads (pre post : List Byte) (hpre : l.start .threads = pre.length) :
    (ThreadState.codec.slotWrites (l.start .threads) l.nrThreads 0 l.capturedThreads).foldl patch
        (pre ++ (List.replicate (l.nrThreads * ThreadState.codec.size) 0 ++ post)) =
      pre ++ (ThreadState.codec.encAll (Codec.fill zeroThread l.nrThreads l.capturedThreads) ++ post) :=
  Codec.foldl_slotWrites _ enc_zeroThread _ _ _ _ 0 _ (Nat.zero_add _) _ (by rw [Nat.zero_mul, Nat.add_zero, hpre])

/-- The parts of the buffer as they are in the end, apart from the checksum. -/
theorem body_eq (pages : List (UInt64 × Page)) :
    l.body = ProcStateHdr.codec.enc l.rawHdr ++ (l.snapshot pages).descs := by
  have hsnd : ∀ (part : Part) (ws : List Write), (ws.map (part, ·)).map (·.2) = ws := fun part ws => by
    rw [List.map_map]
    exact List.map_id ws
  have hhdr := ProcStateHdr.codec.length_enc l.rawHdr
  have hvmas := VmaDesc.codec.length_encAll (Codec.fill zeroVma l.nrVmas (l.capturedVmas.map VmArea.desc))
  have hfds := FdDesc.codec.length_encAll (Codec.fill zeroFd l.nrFds (fdDescs 0 (l.capturedFds.getD [])))
  rw [Codec.length_fill, Nat.mul_comm] at hvmas hfds
  rw [body, bodyWrites, List.map_cons, List.foldl_cons, List.map_append, List.map_append, hsnd, hsnd, hsnd,
    List.foldl_append, List.foldl_append, cleared, patch_hdr, patch_vmas _ _ _ hhdr.symm, ← List.append_assoc,
    patch_fds _ _ _ (by rw [List.length_append, hhdr, hvmas, start, size, size]), ← List.append_assoc]
  have hthreads := l.patch_threads (ProcStateHdr.codec.enc l.rawHdr ++
    VmaDesc.codec.encAll (Codec.fill zeroVma l.nrVmas (l.capturedVmas.map VmArea.desc)) ++
    FdDesc.codec.encAll (Codec.fill zeroFd l.nrFds (fdDescs 0 (l.capturedFds.getD [])))) []
    (by rw [List.length_append, List.length_append, hhdr, hvmas, hfds, start, size, size, size])
  rw [List.append_nil, List.append_nil] at hthreads
  rw [hthreads, Snapshot.descs, snapshot, List.append_assoc, List.append_assoc, List.append_assoc]

/-- The write of the checksum into a header. -/
theorem patch_crc (hdr : ProcStateHdr) (crc : UInt32) (rest : List Byte) :
    patch (ProcStateHdr.codec.enc hdr ++ rest) ⟨192, Codec.u32.enc crc⟩ =
      ProcStateHdr.codec.enc { hdr with crc32 := crc } ++ rest := by
  have henc : ∀ h : ProcStateHdr, ProcStateHdr.codec.enc h ++ rest =
      ProcStateHdr.body.enc (h.srcNode, h.pid, h.nrVmas, h.nrPages, h.regs, h.nrFds, ()) ++
        (Codec.u32.enc h.crc32 ++ ((Codec.zeros 4).enc () ++ rest)) := fun h => by
    rw [← List.append_assoc (Codec.u32.enc _), ← List.append_assoc]
    rfl
  rw [henc, henc]
  exact patch_append _ (ProcStateHdr.body.length_enc _).symm (by rw [Codec.u32.length_enc, Codec.u32.length_enc])

/-- **The buffer of a checkpoint** is the one of a snapshot. -/
theorem buf_eq (pages : List (UInt64 × Page)) : l.buf = (l.snapshot pages).buf := by
  have hlast : l.buf = patch l.body l.crcWrite := by
    rw [buf, writes, List.map_append, List.foldl_append, ← body]
    rfl
  have htake : l.body.take 192 = (ProcStateHdr.codec.enc (l.snapshot pages).rawHdr).take 192 := by
    rw [body_eq l pages, rawHdr_snapshot]
    exact List.take_append_of_le_length (by rw [ProcStateHdr.codec.length_enc]; decide)
  rw [hlast, crcWrite, htake, body_eq l pages, patch_crc, ← rawHdr_snapshot l pages]
  rfl

theorem length_buf : l.buf.length = l.totalLen := by
  rw [buf_eq l [], Migrate.length_buf, length_descs]
  simp only [snapshot, Codec.length_fill, totalLen, size, ProcStateHdr.codec_size, VmaDesc.codec_size,
    FdDesc.codec_size, ThreadState.codec_size]
  omega

/-- The parts do not leave the buffer. -/
theorem start_add_size_le (part : Part) : l.start part + l.size part ≤ l.totalLen := by
  cases part with
  | hdr | vmas | fds | threads =>
    simp only [start, totalLen]
    omega

/-- Every write stays in its part. -/
theorem within_writes : ∀ x ∈ l.writes, x.2.Within (l.start x.1) (l.start x.1 + l.size x.1) := by
  intro x hx
  simp only [writes, bodyWrites, List.cons_append, List.append_assoc, List.mem_cons, List.mem_append, List.mem_map,
    List.not_mem_nil, or_false] at hx
  obtain rfl | ⟨w, hw, rfl⟩ | ⟨w, hw, rfl⟩ | ⟨w, hw, rfl⟩ | rfl := hx
  · refine ⟨Nat.le_refl 0, ?_⟩
    rw [ProcStateHdr.codec.length_enc]
    exact Nat.le_refl _
  · exact Codec.within_slotWrites _ _ _ _ _ w hw
  · rw [uckSerializeFds, serializeFrom_eq] at hw
    exact Codec.within_slotWrites _ _ _ _ _ w hw
  · exact Codec.within_slotWrites _ _ _ _ _ w hw
  · refine ⟨Nat.zero_le _, ?_⟩
    show 192 + (Codec.u32.enc _).length ≤ 0 + 200
    rw [Codec.u32.length_enc]
    decide

theorem dec_buf : ProcStateHdr.codec.dec l.buf = (l.snapshot []).hdr := by
  rw [buf_eq l [], Snapshot.buf, ProcStateHdr.codec.dec_enc]

/-- The three arrays of the buffer. -/
theorem buf_arrays : l.buf = ProcStateHdr.codec.enc (l.snapshot []).hdr ++
    (VmaDesc.codec.encAll (l.snapshot []).vmas ++ (FdDesc.codec.encAll (l.snapshot []).fds ++
      ThreadState.codec.encAll (l.snapshot []).threads)) := by
  rw [buf_eq l [], Snapshot.buf, Snapshot.descs, List.append_assoc]

end Looks

/-- **A capture is bounded**, however the task changes while it is made. -/
theorem capture_bounded (l : Looks) : l.Bounded := by
  have hhdr := ProcStateHdr.codec.length_enc (l.snapshot []).hdr
  have hvmas := VmaDesc.codec.length_encAll (l.snapshot []).vmas
  have hfds := FdDesc.codec.length_encAll (l.snapshot []).fds
  have hnv : (l.snapshot []).vmas.length = l.nrVmas := Codec.length_fill _ _ _
  have hnf : (l.snapshot []).fds.length = l.nrFds := Codec.length_fill _ _ _
  rw [hnv, Nat.mul_comm] at hvmas
  rw [hnf, Nat.mul_comm] at hfds
  refine
    { writes := fun x hx => ⟨l.within_writes x hx, l.start_add_size_le x.1⟩
      length := l.length_buf
      nrVmas := ?_
      nrFds := ?_
      vmas := fun i hi hn => ?_
      fds := fun i hi hn => ?_
      threads := fun i hi hn => ?_ }
  · have hn : (ProcStateHdr.codec.dec l.buf).nrVmas = UInt64.ofNat (l.snapshot []).vmas.length := by
      rw [l.dec_buf]
      rfl
    have hlt := l.vmas_lt
    rw [hn, hnv, UInt64.toNat_ofNat_of_lt' (by exact Nat.lt_trans hlt (by decide))]
    rfl
  · have hn : (ProcStateHdr.codec.dec l.buf).nrFds = UInt32.ofNat (l.snapshot []).fds.length := by
      rw [l.dec_buf]
      rfl
    have hlt : l.nrFds < 2 ^ 31 := Nat.lt_of_le_of_lt List.countP_le_length l.fds_lt
    rw [hn, hnf, UInt32.toNat_ofNat_of_lt' (by exact Nat.lt_trans hlt (by decide))]
    rfl
  · have hslot : VmaDesc.codec.slot l.buf (l.start .vmas) i = VmaDesc.codec.enc zeroVma := by
      rw [l.buf_arrays]
      exact Codec.slot_encAll _ hhdr.symm (Codec.getElem?_fill (by rwa [List.length_map]) hn)
    rw [hslot, VmaDesc.codec.dec_enc_self]
    exact ⟨enc_zeroVma, mmapArgs_zeroVma⟩
  · have hslot : FdDesc.codec.slot l.buf (l.start .fds) i = FdDesc.codec.enc zeroFd := by
      rw [l.buf_arrays, ← List.append_assoc]
      exact Codec.slot_encAll _ (by rw [List.length_append, hhdr, hvmas]; rfl)
        (Codec.getElem?_fill (by rwa [length_fdDescs]) hn)
    rw [hslot, FdDesc.codec.dec_enc_self]
    exact ⟨enc_zeroFd, reopenArgs_zeroFd⟩
  · have hslot : ThreadState.codec.slot l.buf (l.start .threads) i = ThreadState.codec.enc zeroThread := by
      rw [l.buf_arrays, ← List.append_assoc, ← List.append_assoc,
        ← List.append_nil (ThreadState.codec.encAll (l.snapshot []).threads)]
      exact Codec.slot_encAll _ (by rw [List.length_append, List.length_append, hhdr, hvmas, hfds]; rfl)
        (Codec.getElem?_fill hi hn)
    rw [hslot, enc_zeroThread]

/-- The checkpoint of a task, as the rest of the development has it. -/
theorem uckCheckpoint_eq (l : Looks) (kv : Nat → Bool) (pages : List (UInt64 × Page)) :
    l.uckCheckpoint true kv = uckCheckpointProcess kv (l.snapshot pages) := by
  have hlen := l.length_buf
  rw [l.buf_eq pages] at hlen
  rw [Looks.uckCheckpoint, Bool.true_and, l.buf_eq pages, ← hlen]
  rfl

end UckSmp.Migrate
