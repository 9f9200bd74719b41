import UckSmp.Migrate.Format

/-!
# What the receiver of a migration gets

The receiver's side of a transfer that may be cut off after any number of bytes.

* `receivePages_take`: the pages that arrive.
* `receive_none`, `receive_some`: whether a process arrives, and with which pages.
-/

namespace UckSmp.Migrate

open Lib

/-! ## Receiving -/

/-- How many of `k` more pages the receiver keeps that has `n` in an array of `cap`. -/
def roomFor (kv : Nat → Bool) : Nat → Nat → Nat → Nat
  | 0, _, _ => 0
  | k + 1, n, cap =>
    if n < cap then roomFor kv k (n + 1) cap + 1
    else if kv (cap * 2 * pageRecord.size) then roomFor kv k (n + 1) (cap * 2) + 1
    else 0

theorem roomFor_le (kv : Nat → Bool) : ∀ k n cap : Nat, roomFor kv k n cap ≤ k
  | 0, _, _ => Nat.le_refl 0
  | k + 1, n, cap => by
    have h1 := roomFor_le kv k (n + 1) cap
    have h2 := roomFor_le kv k (n + 1) (cap * 2)
    rw [roomFor]
    split
    · omega
    · split
      · omega
      · omega

section Receiving

variable {kv : Nat → Bool} {src : UInt32}

theorem length_pageMsg (src : UInt32) (r : UInt64 × Page) : (pageMsg src r).length = 4136 := by
  have hp : pageSize = 4096 := rfl
  rw [pageMsg, List.length_append, MsgHdr.codec.length_enc, r.2.length_bytes, MsgHdr.codec_size, hp]

theorem length_pageMsgs (ps : List (UInt64 × Page)) : (ps.flatMap (pageMsg src)).length = 4136 * ps.length := by
  induction ps with
  | nil => rfl
  | cons r ps ih => rw [List.flatMap_cons, List.length_append, length_pageMsg, ih, List.length_cons]; omega

theorem grow_frame {inc inc' : Incoming} (h : inc.grow kv = some inc') :
    inc'.hdr = inc.hdr ∧ inc'.stateBuf = inc.stateBuf ∧ inc'.pages = inc.pages := by
  unfold Incoming.grow at h
  split at h
  · cases h; exact ⟨rfl, rfl, rfl⟩
  · split at h
    · cases h; exact ⟨rfl, rfl, rfl⟩
    · cases h

/-- The loop touches neither the header nor the descriptors. -/
theorem receivePages_frame (kv : Nat → Bool) (inc : Incoming) (bs : List Byte) :
    (receivePages kv inc bs).hdr = inc.hdr ∧ (receivePages kv inc bs).stateBuf = inc.stateBuf := by
  induction inc, bs using receivePages.induct kv with
  | case1 inc bs h => rw [receivePages, if_pos h]; exact ⟨rfl, rfl⟩
  | case2 inc bs h ht => rw [receivePages, if_neg h, if_pos ht]; exact ⟨rfl, rfl⟩
  | case3 inc bs h ht hg =>
    rw [receivePages, if_neg h, if_neg ht, hg]
    exact ⟨rfl, rfl⟩
  | case4 inc bs h ht inc' hg hs =>
    obtain ⟨hh, hb, -⟩ := grow_frame hg
    rw [receivePages, if_neg h, if_neg ht, hg]
    simp only [hs, if_true]
    exact ⟨hh, hb⟩
  | case5 inc bs h ht inc' hg hs ih =>
    obtain ⟨hh, hb, -⟩ := grow_frame hg
    rw [receivePages, if_neg h, if_neg ht, hg]
    simp only [hs, if_false]
    exact ⟨ih.1.trans hh, ih.2.trans hb⟩

theorem receivePages_done (inc : Incoming) (j : Nat) : receivePages kv inc ((doneMsg src).take j) = inc := by
  rw [receivePages]
  split
  · rfl
  · rename_i h
    rw [doneMsg, List.length_take, MsgHdr.codec.length_enc] at h
    have hj : (doneMsg src).take j = MsgHdr.codec.enc { type := MsgType.migrateDone.code, srcNode := src } :=
      List.take_of_length_le (by rw [doneMsg, MsgHdr.codec.length_enc]; omega)
    rw [hj, MsgHdr.codec.dec_enc_self, if_pos (by decide : MsgType.migrateDone.code ≠ MsgType.procPages.code)]

/-- A page message that does not arrive whole. -/
theorem receivePages_cut (inc : Incoming) (r : UInt64 × Page) (rest : List Byte) {j : Nat} (h : j < 4136) :
    (receivePages kv inc ((pageMsg src r ++ rest).take j)).pages = inc.pages := by
  have hlen : ((pageMsg src r ++ rest).take j).length ≤ j := List.length_take_le _ _
  have hsize : MsgHdr.codec.size = 40 := rfl
  have hpage : pageSize = 4096 := rfl
  rw [receivePages]
  split
  · rfl
  · split
    · rfl
    · split
      · rfl
      · rename_i inc' hg
        have hl : (((pageMsg src r ++ rest).take j).drop MsgHdr.codec.size).length < pageSize := by
          rw [List.length_drop]
          omega
        rw [if_pos hl]
        exact (grow_frame hg).2.2

theorem not_length_pageMsg_append_lt (src : UInt32) (r : UInt64 × Page) (rest : List Byte) :
    ¬ (pageMsg src r ++ rest).length < MsgHdr.codec.size := by
  rw [pageMsg, List.append_assoc]
  exact MsgHdr.codec.not_length_enc_append_lt _ _

/-- What follows a page. -/
theorem drop_enc_page (p : Page) (rest : List Byte) : (Page.codec.enc p ++ rest).drop pageSize = rest :=
  List.drop_left' (Page.codec.length_enc p)

/-- A page message that arrives. -/
theorem receivePages_pageMsg (inc : Incoming) (r : UInt64 × Page) (rest : List Byte) :
    receivePages kv inc (pageMsg src r ++ rest) =
      (inc.grow kv).elim inc fun inc' => receivePages kv { inc' with pages := inc'.pages ++ [r] } rest := by
  rw [receivePages, if_neg (not_length_pageMsg_append_lt src r rest), pageMsg, List.append_assoc,
    MsgHdr.codec.dec_enc, if_neg (not_not_intro rfl), List.drop_left' (MsgHdr.codec.length_enc _), ← Page.codec_enc,
    Page.codec.dec_enc, drop_enc_page]
  cases inc.grow kv with
  | none => rfl
  | some inc' => exact if_neg (Page.codec.not_length_enc_append_lt _ _)

/-- **The pages that arrive** of a transfer cut off after `j` bytes: those that came whole and found room. -/
theorem receivePages_take (kv : Nat → Bool) (src : UInt32) : ∀ (ps : List (UInt64 × Page)) (inc : Incoming) (j : Nat),
    (receivePages kv inc ((ps.flatMap (pageMsg src) ++ doneMsg src).take j)).pages =
      inc.pages ++ ps.take (min (j / 4136) (roomFor kv ps.length inc.pages.length inc.pagesCapacity))
  | [], inc, j => by
    rw [List.flatMap_nil, List.nil_append, receivePages_done]
    simp
  | r :: ps, inc, j => by
    rw [List.flatMap_cons, List.append_assoc]
    by_cases h : j < 4136
    · rw [receivePages_cut inc r _ h, Nat.div_eq_of_lt h]
      simp
    · obtain ⟨j, rfl⟩ := Nat.exists_eq_add_of_le (Nat.not_lt.1 h)
      have hdiv : (4136 + j) / 4136 = j / 4136 + 1 := Nat.add_div_left j (by decide)
      have htake : (pageMsg src r ++ (ps.flatMap (pageMsg src) ++ doneMsg src)).take (4136 + j) =
          pageMsg src r ++ (ps.flatMap (pageMsg src) ++ doneMsg src).take j := by
        rw [← length_pageMsg src r]
        exact List.take_length_add_append j
      rw [hdiv, htake, receivePages_pageMsg, List.length_cons, roomFor]
      unfold Incoming.grow
      by_cases hc : inc.pages.length < inc.pagesCapacity
      · rw [if_pos hc, if_pos hc, Option.elim_some, receivePages_take kv src ps, Nat.add_min_add_right,
          List.take_succ_cons, List.append_assoc, List.length_append]
        rfl
      · rw [if_neg hc, if_neg hc]
        by_cases hk : kv (inc.pagesCapacity * 2 * pageRecord.size) = true
        · rw [if_pos hk, if_pos hk, Option.elim_some, receivePages_take kv src ps, Nat.add_min_add_right,
            List.take_succ_cons, List.append_assoc, List.length_append]
          rfl
        · rw [if_neg hk, if_neg hk, Nat.min_zero, List.take_zero, List.append_nil]
          rfl

/-! ## A transfer cut off anywhere -/

/-- The bytes before the checksum do not depend on it. -/
theorem hdr_take (s : Snapshot) :
    (ProcStateHdr.codec.enc s.hdr).take 192 = (ProcStateHdr.codec.enc s.rawHdr).take 192 := by
  have h : ∀ h : ProcStateHdr, (ProcStateHdr.codec.enc h).take 192 =
      ProcStateHdr.body.enc (h.srcNode, h.pid, h.nrVmas, h.nrPages, h.regs, h.nrFds, ()) :=
    fun _ => List.take_left' (ProcStateHdr.body.length_enc _)
  rw [h, h]
  rfl

/-- The buffer of the checkpoint. -/
def Snapshot.buf (s : Snapshot) : List Byte := ProcStateHdr.codec.enc s.hdr ++ s.descs

theorem length_buf (s : Snapshot) : s.buf.length = 200 + s.descs.length := by
  rw [Snapshot.buf, List.length_append, ProcStateHdr.codec.length_enc, ProcStateHdr.codec_size]

theorem length_descs (s : Snapshot) :
    s.descs.length = 296 * s.vmas.length + 272 * s.fds.length + 168 * s.threads.length := by
  simp only [Snapshot.descs, List.length_append, Codec.length_encAll, VmaDesc.codec_size, FdDesc.codec_size,
    ThreadState.codec_size]

/-- There is at least one thread. -/
theorem descs_pos (s : Snapshot) : 0 < s.descs.length := by
  have := List.length_pos_of_ne_nil s.threads_ne
  rw [length_descs]
  omega

/-- The message header of the state. -/
def stateHdr (src : UInt32) (s : Snapshot) : MsgHdr :=
  { type := MsgType.procState.code, srcNode := src, payloadLen := UInt32.ofNat s.buf.length }

theorem crcOk_hdr (s : Snapshot) : crcOk (ProcStateHdr.codec.enc s.hdr) = true := by
  have hc : crc32 ((ProcStateHdr.codec.enc s.hdr).take 192) = s.hdr.crc32 := by rw [hdr_take]; rfl
  simp [crcOk, hc]

/-- What follows the message header of the state: the buffer, the pages and the last message. -/
def Snapshot.tail (src : UInt32) (s : Snapshot) : List Byte := s.pages.flatMap (pageMsg src) ++ doneMsg src

theorem send_eq (src : UInt32) (s : Snapshot) : uckSendProcess src s.buf s.pages =
    MsgHdr.codec.enc (stateHdr src s) ++ (s.buf ++ s.tail src) :=
  List.append_assoc _ _ _

theorem take_send (src : UInt32) (s : Snapshot) (i : Nat) : (uckSendProcess src s.buf s.pages).take (40 + i) =
    MsgHdr.codec.enc (stateHdr src s) ++ (s.buf ++ s.tail src).take i := by
  have hlen : (MsgHdr.codec.enc (stateHdr src s)).length = 40 := MsgHdr.codec.length_enc _
  rw [send_eq, ← hlen]
  exact List.take_length_add_append i

theorem toNat_payloadLen (src : UInt32) (s : Snapshot) (hs : s.buf.length < 2 ^ 32) :
    (stateHdr src s).payloadLen.toNat = s.buf.length := by
  show (UInt32.ofNat s.buf.length).toNat = _
  rw [UInt32.toNat_ofNat']
  exact Nat.mod_eq_of_lt hs

/-- The message header of the state is recognised. -/
theorem stateHdr_cond (src : UInt32) (s : Snapshot) (bs : List Byte) :
    MsgHdr.codec.size ≤ (MsgHdr.codec.enc (stateHdr src s) ++ bs).length ∧
      (MsgHdr.codec.dec (MsgHdr.codec.enc (stateHdr src s) ++ bs)).type = MsgType.procState.code := by
  rw [List.length_append, MsgHdr.codec.length_enc, MsgHdr.codec.dec_enc]
  exact ⟨Nat.le_add_right _ _, rfl⟩

/-- With the message header there, the handler runs on what follows. -/
theorem receive_stateHdr (s : Snapshot) (hs : s.buf.length < 2 ^ 32) (bs : List Byte) :
    receive kv (MsgHdr.codec.enc (stateHdr src s) ++ bs) =
      (recvState kv s.buf.length bs).bind fun (inc, rest) =>
        let inc := receivePages kv inc rest
        if crcOk inc.hdr then some inc else none := by
  rw [receive, if_pos (stateHdr_cond src s bs), MsgHdr.codec.dec_enc, List.drop_left' (MsgHdr.codec.length_enc _),
    uckHandleProcState, toNat_payloadLen src s hs]

/-- The condition under which the state is received, when `n` bytes of it and of what follows arrive. -/
theorem recvState_cond (s : Snapshot) (n : Nat) :
    (kv (256 * pageRecord.size) = true ∧ ProcStateHdr.codec.size ≤ s.buf.length ∧
        (s.buf.length = ProcStateHdr.codec.size ∨ kv (s.buf.length - ProcStateHdr.codec.size) = true) ∧
        s.buf.length ≤ n) ↔
      (kv (256 * pageRecord.size) = true ∧ kv s.descs.length = true) ∧ s.buf.length ≤ n := by
  have hpos := descs_pos s
  rw [length_buf, ProcStateHdr.codec_size, Nat.add_sub_cancel_left]
  constructor
  · rintro ⟨h1, -, h2, h3⟩
    exact ⟨⟨h1, h2.resolve_left (by omega)⟩, h3⟩
  · rintro ⟨⟨h1, h2⟩, h3⟩
    exact ⟨h1, by omega, Or.inr h2, h3⟩

/-- Nothing is received before the whole state is there, or without memory for it. -/
theorem receive_none (src : UInt32) (s : Snapshot) (hs : s.buf.length < 2 ^ 32) {r : Nat}
    (h : r < 40 + s.buf.length ∨ ¬ (kv (256 * pageRecord.size) = true ∧ kv s.descs.length = true)) :
    receive kv ((uckSendProcess src s.buf s.pages).take r) = none := by
  have hsize : MsgHdr.codec.size = 40 := rfl
  by_cases h40 : r < 40
  · refine if_neg fun hc => ?_
    have := List.length_take_le r (uckSendProcess src s.buf s.pages)
    omega
  · obtain ⟨i, rfl⟩ := Nat.exists_eq_add_of_le (Nat.not_lt.1 h40)
    rw [take_send, receive_stateHdr s hs, recvState, if_neg]
    · rfl
    · rw [recvState_cond]
      rintro ⟨hkv, hlen⟩
      have := List.length_take_le i (s.buf ++ s.tail src)
      rcases h with h | h
      · omega
      · exact h hkv

/-- The state is received, with memory for it, and what follows it is left. -/
theorem recvState_buf (s : Snapshot) (h : kv (256 * pageRecord.size) = true ∧ kv s.descs.length = true)
    (rest : List Byte) :
    recvState kv s.buf.length (s.buf ++ rest) = some (⟨ProcStateHdr.codec.enc s.hdr, s.descs, [], 256⟩, rest) := by
  have hlen : s.buf.length ≤ (s.buf ++ rest).length := by
    rw [List.length_append]
    exact Nat.le_add_right _ _
  have hhdr : (s.buf ++ rest).take ProcStateHdr.codec.size = ProcStateHdr.codec.enc s.hdr := by
    rw [Snapshot.buf, List.append_assoc]
    exact List.take_left' (ProcStateHdr.codec.length_enc _)
  have hdescs : s.buf.drop ProcStateHdr.codec.size = s.descs := List.drop_left' (ProcStateHdr.codec.length_enc _)
  rw [recvState, if_pos ((recvState_cond s _).2 ⟨h, hlen⟩), hhdr, List.take_left, List.drop_left, hdescs]

/-- The state and, of a transfer cut off `j` bytes after it, the pages that came whole and found room. -/
theorem receive_some (src : UInt32) (s : Snapshot) (hs : s.buf.length < 2 ^ 32)
    (h : kv (256 * pageRecord.size) = true ∧ kv s.descs.length = true) (j : Nat) :
    ∃ cap, receive kv ((uckSendProcess src s.buf s.pages).take (40 + (s.buf.length + j))) =
      some ⟨ProcStateHdr.codec.enc s.hdr, s.descs,
        s.pages.take (min (j / 4136) (roomFor kv s.pages.length 0 256)), cap⟩ := by
  obtain ⟨fh, fs⟩ := receivePages_frame kv ⟨ProcStateHdr.codec.enc s.hdr, s.descs, [], 256⟩ ((s.tail src).take j)
  have fp := receivePages_take kv src s.pages ⟨ProcStateHdr.codec.enc s.hdr, s.descs, [], 256⟩ j
  rw [take_send, List.take_length_add_append, receive_stateHdr s hs, recvState_buf s h, Option.bind_some]
  simp only
  rw [show s.pages.flatMap (pageMsg src) ++ doneMsg src = s.tail src from rfl] at fp
  generalize receivePages kv ⟨ProcStateHdr.codec.enc s.hdr, s.descs, [], 256⟩ ((s.tail src).take j) = inc at fh fs fp ⊢
  obtain ⟨ih, is, ip, ic⟩ := inc
  simp only at fh fs fp
  subst fh fs fp
  exact ⟨ic, by rw [if_pos (crcOk_hdr s)]; rfl⟩

end Receiving

end UckSmp.Migrate
