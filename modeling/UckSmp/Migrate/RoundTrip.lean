import UckSmp.Migrate.Receive

/-!
# The round trip of a migrated process

The state file carries the thread states between the descriptors and the page count, and the restore stub is not told:
it takes the first thread's identifier for the page count and reads pages from the rest of the thread states on.

* `migrate_eq`: what the restore stub reads, for every process.
* `roundTrip_iff`: when that is the process.
* `page_is_garbled`: a process whose only page is not.
-/

namespace UckSmp.Migrate

open Lib

/-- A migration over a connection that loses nothing, from the checkpoint to the restore stub. -/
def migrate (kv : Nat → Bool) (s : Snapshot) : Option Restored :=
  (uckCheckpointProcess kv s).bind fun buf =>
    (receive kv (uckSendProcess s.srcNode buf s.pages)).bind fun inc => uckRestore (uckWriteStateFile inc)

section RoundTrip

variable {kv : Nat → Bool} {s : Snapshot}

theorem restorePages_eq_decUpTo : ∀ (n : Nat) (bs : List Byte), restorePages n bs = pageRecord.decUpTo n bs
  | 0, _ => rfl
  | n + 1, bs => by
    have hp : pageSize = 4096 := rfl
    rw [restorePages, Codec.decUpTo, pageRecord_size, List.length_drop]
    by_cases h8 : bs.length < 8
    · rw [if_pos h8, if_pos (by omega)]
    · by_cases h : bs.length - 8 < pageSize
      · rw [if_neg h8, if_pos h, if_pos (by omega)]
      · rw [if_neg h8, if_neg h, if_neg (by omega), restorePages_eq_decUpTo n]
        rfl

/-- The identifier of the first thread, which stands where the stub looks for the page count. -/
def Snapshot.tid (s : Snapshot) : UInt32 := (s.threads.head s.threads_ne).tid

/-- What stands where the stub looks for pages, when the file has the first `k` of them: the rest of the thread
states, the page count and the pages. -/
def Snapshot.fileTail (s : Snapshot) (k : Nat) : List Byte :=
  (ThreadState.codec.encAll s.threads).drop 4 ++ (leBytes k 4 ++ pageRecord.encAll (s.pages.take k))

theorem length_fileTail {k : Nat} (hk : k ≤ s.pages.length) :
    (s.fileTail k).length = 168 * s.threads.length + 4104 * k := by
  have hpos := List.length_pos_of_ne_nil s.threads_ne
  simp only [Snapshot.fileTail, List.length_append, List.length_drop, Codec.length_encAll, ThreadState.codec_size,
    length_leBytes, pageRecord_size, List.length_take]
  omega

/-- The thread states begin with the first thread's identifier. -/
theorem threads_eq (s : Snapshot) : ∃ rest, ThreadState.codec.encAll s.threads = Codec.u32.enc s.tid ++ rest := by
  unfold Snapshot.tid
  obtain ⟨t, ts, ht⟩ := List.exists_cons_of_ne_nil s.threads_ne
  simp only [ht, List.head_cons, Codec.encAll_cons]
  exact ⟨_, List.append_assoc _ _ _⟩

/-- **What the stub reads** from the file: the header and the descriptors as they were, but pages from the thread
states on. -/
theorem uckRestore_file (hs : s.buf.length < 2 ^ 32) {k : Nat} (hk : k ≤ s.pages.length) (cap : Nat) :
    uckRestore (uckWriteStateFile ⟨ProcStateHdr.codec.enc s.hdr, s.descs, s.pages.take k, cap⟩) =
      some ⟨s.hdr, s.vmas, s.fds, pageRecord.decUpTo (loopBound s.tid) (s.fileTail k)⟩ := by
  have hlen := length_buf s
  have hdl := length_descs s
  have hv : s.hdr.nrVmas.toNat = s.vmas.length := by
    show (UInt64.ofNat s.vmas.length).toNat = _
    rw [UInt64.toNat_ofNat']
    omega
  have hf : s.hdr.nrFds.toNat = s.fds.length := by
    show (UInt32.ofNat s.fds.length).toNat = _
    rw [UInt32.toNat_ofNat']
    omega
  have hkl : (s.pages.take k).length = k := List.length_take_of_le hk
  obtain ⟨rest, hrest⟩ := threads_eq s
  have hfile : uckWriteStateFile ⟨ProcStateHdr.codec.enc s.hdr, s.descs, s.pages.take k, cap⟩ =
      ProcStateHdr.codec.enc s.hdr ++ (VmaDesc.codec.encAll s.vmas ++ (FdDesc.codec.encAll s.fds ++
        (Codec.u32.enc s.tid ++ (rest ++ (leBytes k 4 ++ pageRecord.encAll (s.pages.take k)))))) := by
    simp only [uckWriteStateFile, Snapshot.descs, hrest, hkl, List.append_assoc]
  have hdrop : ∀ bs : List Byte, (Codec.u32.enc s.tid ++ bs).drop 4 = bs :=
    fun _ => List.drop_left' (Codec.u32.length_enc _)
  have htail : s.fileTail k = rest ++ (leBytes k 4 ++ pageRecord.encAll (s.pages.take k)) := by
    rw [Snapshot.fileTail, hrest, hdrop]
  have hl : ¬ (ProcStateHdr.codec.enc s.hdr ++ (VmaDesc.codec.encAll s.vmas ++ (FdDesc.codec.encAll s.fds ++
      (Codec.u32.enc s.tid ++ s.fileTail k)))).length < ProcStateHdr.codec.size :=
    ProcStateHdr.codec.not_length_enc_append_lt _ _
  have h4 : ¬ (Codec.u32.enc s.tid ++ s.fileTail k).length < 4 := Codec.u32.not_length_enc_append_lt _ _
  rw [hfile, ← htail, uckRestore, if_neg hl, ProcStateHdr.codec.dec_enc,
    List.drop_left' (ProcStateHdr.codec.length_enc _)]
  simp only [hv, hf, Codec.decAll_encAll, Codec.dec_enc, h4, if_false, hdrop, restorePages_eq_decUpTo]

/-- There is memory for the checkpoint at the source and for the state at the destination. -/
def Allocated (kv : Nat → Bool) (s : Snapshot) : Prop :=
  kv s.buf.length = true ∧ kv (256 * pageRecord.size) = true ∧ kv s.descs.length = true

/-- The pages that the destination has room for. -/
def Snapshot.kept (kv : Nat → Bool) (s : Snapshot) : Nat := roomFor kv s.pages.length 0 256

theorem kept_le (kv : Nat → Bool) (s : Snapshot) : s.kept kv ≤ s.pages.length := roomFor_le kv _ _ _

/-- The whole transfer. -/
theorem take_all (s : Snapshot) : (uckSendProcess s.srcNode s.buf s.pages).take
    (40 + (s.buf.length + (4136 * s.pages.length + 40))) = uckSendProcess s.srcNode s.buf s.pages := by
  apply List.take_of_length_le
  simp only [uckSendProcess, stateMsg, doneMsg, List.length_append, MsgHdr.codec.length_enc, MsgHdr.codec_size,
    length_pageMsgs]
  omega

theorem migrate_eq (hkv : ∀ n, kv n = true → n < 2 ^ 31) (h : Allocated kv s) :
    migrate kv s = some ⟨s.hdr, s.vmas, s.fds, pageRecord.decUpTo (loopBound s.tid) (s.fileTail (s.kept kv))⟩ := by
  obtain ⟨hbuf, halloc⟩ := h
  have hs : s.buf.length < 2 ^ 32 := Nat.lt_trans (hkv _ hbuf) (by decide)
  have hck : uckCheckpointProcess kv s = some s.buf := if_pos hbuf
  obtain ⟨cap, hr⟩ := receive_some s.srcNode s hs halloc (4136 * s.pages.length + 40)
  have hdiv : (4136 * s.pages.length + 40) / 4136 = s.pages.length := by omega
  rw [take_all, hdiv, Nat.min_eq_right (roomFor_le kv _ _ _)] at hr
  rw [migrate, hck, Option.bind_some, hr, Option.bind_some]
  exact uckRestore_file hs (kept_le kv s) cap

theorem migrate_none (hkv : ∀ n, kv n = true → n < 2 ^ 31) (h : ¬ Allocated kv s) : migrate kv s = none := by
  rw [migrate]
  by_cases hbuf : kv s.buf.length = true
  · have hck : uckCheckpointProcess kv s = some s.buf := if_pos hbuf
    have hr := receive_none s.srcNode s (Nat.lt_trans (hkv _ hbuf) (by decide))
      (r := 40 + (s.buf.length + (4136 * s.pages.length + 40))) (Or.inr fun halloc => h ⟨hbuf, halloc⟩)
    rw [take_all] at hr
    rw [hck, Option.bind_some, hr, Option.bind_none]
  · have hck : uckCheckpointProcess kv s = none := if_neg hbuf
    rw [hck, Option.bind_none]

/-- The page records lie where the stub reads as many as there are: the first thread's identifier, or else the number
of records in what stands there, is the number of pages, and it begins with them. -/
def PagesInPlace (kv : Nat → Bool) (s : Snapshot) : Prop :=
  min (loopBound s.tid) (168 * s.threads.length / 4104 + s.kept kv) = s.pages.length ∧
    pageRecord.encAll s.pages <+: s.fileTail (s.kept kv)

/-- In other words, the stub reads the pages. -/
theorem pagesInPlace_iff (kv : Nat → Bool) (s : Snapshot) :
    PagesInPlace kv s ↔ pageRecord.decUpTo (loopBound s.tid) (s.fileTail (s.kept kv)) = s.pages := by
  have hlen : (s.fileTail (s.kept kv)).length / pageRecord.size = 168 * s.threads.length / 4104 + s.kept kv := by
    rw [length_fileTail (kept_le kv s), pageRecord_size]
    omega
  rw [PagesInPlace, ← hlen, ← Codec.decUpTo_eq_iff pageRecord pageRecord_exact (by decide)]

/-- **The round trip of a migrated process.** `kvmalloc` grants no size above `INT_MAX`. -/
theorem roundTrip_iff (kv : Nat → Bool) (hkv : ∀ n, kv n = true → n < 2 ^ 31) (s : Snapshot) :
    migrate kv s = some ⟨s.hdr, s.vmas, s.fds, s.pages⟩ ↔ Allocated kv s ∧ PagesInPlace kv s := by
  by_cases h : Allocated kv s
  · rw [migrate_eq hkv h, Option.some.injEq, Restored.mk.injEq, pagesInPlace_iff]
    simp [h]
  · simp [migrate_none hkv h, h]

/-- A process without anonymous pages arrives whole if its thread states are shorter than one page record. -/
theorem pagesInPlace_of_no_pages (kv : Nat → Bool) (hp : s.pages = []) (ht : s.threads.length ≤ 24) :
    PagesInPlace kv s := by
  have hk : s.kept kv = 0 := by
    have := kept_le kv s
    rw [hp, List.length_nil] at this
    omega
  have hdiv : 168 * s.threads.length / 4104 = 0 := Nat.div_eq_of_lt (by omega)
  refine ⟨?_, ?_⟩
  · rw [hk, hdiv, hp, List.length_nil]
    omega
  · rw [hp]
    exact List.nil_prefix

end RoundTrip

/-! ## A process with one page -/

/-- A process with one thread, number 7, and the given pages. -/
def oneThread (pages : List (UInt64 × Page)) : Snapshot :=
  ⟨1, 7, zeroRegs, [], [], [⟨7, zeroRegs⟩], one_thread_ne, pages⟩

/-- `kvmalloc` as long as there is memory. -/
def kvmalloc (n : Nat) : Bool := decide (n < 2 ^ 31)

theorem kvmalloc_lt (n : Nat) (h : kvmalloc n = true) : n < 2 ^ 31 := of_decide_eq_true h

theorem oneThread_allocated (pages : List (UInt64 × Page)) : Allocated kvmalloc (oneThread pages) := by
  unfold Allocated
  rw [length_buf, length_descs]
  exact ⟨rfl, rfl, rfl⟩

/-- A process with a mapping of a file, a stack that is not in memory, and two open files. -/
def withoutPages : Snapshot :=
  ⟨1, 7, zeroRegs, [⟨0x400000, 0x401000, 5, 0, 0, zeroPath⟩, ⟨0x7ffe00000000, 0x7ffe00021000, 3, 0, 1, zeroPath⟩],
    [⟨3, 0, 0, zeroPath⟩, ⟨4, 2, 100, zeroPath⟩], [⟨7, zeroRegs⟩, ⟨8, zeroRegs⟩], List.cons_ne_nil _ _, []⟩

theorem withoutPages_allocated : Allocated kvmalloc withoutPages := by
  unfold Allocated
  rw [length_buf, length_descs]
  exact ⟨rfl, rfl, rfl⟩

theorem process_without_pages_arrives : migrate kvmalloc withoutPages =
    some ⟨withoutPages.hdr, withoutPages.vmas, withoutPages.fds, []⟩ :=
  (roundTrip_iff kvmalloc kvmalloc_lt withoutPages).2
    ⟨withoutPages_allocated, pagesInPlace_of_no_pages kvmalloc rfl (by decide)⟩

/-- The page at `0x1000` is restored at an address made of padding and the thread's instruction pointer. -/
theorem page_is_garbled : migrate kvmalloc (oneThread [(0x1000, 0)]) ≠
    some ⟨(oneThread [(0x1000, 0)]).hdr, [], [], [(0x1000, 0)]⟩ := by
  rw [migrate_eq kvmalloc_lt (oneThread_allocated _)]
  intro h
  rw [Option.some.injEq, Restored.mk.injEq] at h
  obtain ⟨-, -, -, hp⟩ := h
  obtain ⟨-, t, ht⟩ := (Codec.decUpTo_eq_iff pageRecord pageRecord_exact (by decide) _ _ _).1 hp
  have hbyte := congrArg (fun bs => bs[1]?) ht
  cases hbyte

end UckSmp.Migrate
