import UckSmp.Migrate.Mapping

/-!
# The pages of a process arrive

The two loops that the pages of a process go through: the one of `uck_send_process` over the mappings and the addresses
in them, and the one of `uck_handle_proc_state`, with the array that it keeps the pages in. The array is replaced by one
of twice its size when it is full; `nr_pages` and `pages_capacity` are of type `int`.

* `addrLoop_eq`: the addresses that the source visits.
* `Holds.grow`, `Holds.push`: what the array holds.
* `all_pages_arrive`: what it holds when the last message comes.
* `receiveArray_eq`: the loop of `Migrate.Format`.
-/

namespace UckSmp.Migrate

open Lib

/-! ## The source -/

/-- The loop of `uck_send_process` over the addresses of a mapping that ends at `stop`, for a number of rounds. -/
def addrLoop (stop : UInt64) : Nat → UInt64 → List UInt64
  | 0, _ => []
  | n + 1, addr => if addr < stop then addr :: addrLoop stop n (addr + UInt64.ofNat pageSize) else []

/-! ## The destination -/

/-- `kvmalloc_array(n, size)`: the count becomes a `size_t`, and a product that does not fit is refused. -/
def kvmallocArray (kv : Nat → Bool) (n : Int32) (size : Nat) : Bool :=
  let n := (n.toInt % 2 ^ 64).toNat
  decide (n * size < 2 ^ 64) && kv (n * size)

/-- The pages of a `struct uck_incoming_proc`. An element that was not written is `none`. -/
structure PageArray where
  pages : List (Option (UInt64 × Page))
  nrPages : Int32
  pagesCapacity : Int32

/-- The array that `uck_alloc_incoming` makes. -/
def uckAllocIncoming : PageArray := ⟨List.replicate 256 none, 0, 256⟩

namespace PageArray

/-- The pages that have been counted. -/
def records (a : PageArray) : List (Option (UInt64 × Page)) := a.pages.take a.nrPages.toInt.toNat

/-- Room for one more page. -/
def grow (kv : Nat → Bool) (a : PageArray) : Option PageArray :=
  if a.nrPages < a.pagesCapacity then some a
  else
    let newCap := a.pagesCapacity * 2
    if kvmallocArray kv newCap pageRecord.size then
      -- `memcpy` of `nr_pages` elements
      some { a with
        pages := a.records ++ List.replicate (newCap.toInt.toNat - a.nrPages.toInt.toNat) none
        pagesCapacity := newCap }
    else none

/-- The page is received into the element `nr_pages`, and counted. -/
def push (a : PageArray) (r : UInt64 × Page) : PageArray :=
  { a with pages := a.pages.set a.nrPages.toInt.toNat (some r), nrPages := a.nrPages + 1 }

end PageArray

/-- Why the loop of `uck_handle_proc_state` ends. -/
inductive Ended
  | recvFailed
  | noMemory
  /-- `UCK_MSG_MIGRATE_DONE`. -/
  | done
  | unexpected
  deriving DecidableEq, Repr

/-- The loop of `uck_handle_proc_state`. -/
def receiveArray (kv : Nat → Bool) (a : PageArray) (bs : List Byte) : Ended × PageArray :=
  if bs.length < MsgHdr.codec.size then (.recvFailed, a)
  else if (MsgHdr.codec.dec bs).type = MsgType.procPages.code then
    match a.grow kv with
    | none => (.noMemory, a)
    | some a =>
      if (bs.drop MsgHdr.codec.size).length < pageSize then (.recvFailed, a)
      else
        receiveArray kv
          (a.push ((MsgHdr.codec.dec bs).pageOffset, Page.codec.dec (bs.drop MsgHdr.codec.size)))
          ((bs.drop MsgHdr.codec.size).drop pageSize)
  else if (MsgHdr.codec.dec bs).type = MsgType.migrateDone.code then (.done, a)
  else (.unexpected, a)
termination_by bs.length
decreasing_by
  simp only [List.length_drop, MsgHdr.codec_size, pageSize] at *
  omega

/-- The receiver of a whole migration, up to the end of the loop. -/
def arrive (kv : Nat → Bool) (bs : List Byte) : Option (Ended × PageArray) :=
  if MsgHdr.codec.size ≤ bs.length ∧ (MsgHdr.codec.dec bs).type = MsgType.procState.code then
    (recvState kv (MsgHdr.codec.dec bs).payloadLen.toNat (bs.drop MsgHdr.codec.size)).map fun (_, rest) =>
      receiveArray kv uckAllocIncoming rest
  else none

/-! ## The array -/

/-- The array holds the pages `ps`, at its front. -/
structure PageArray.Holds (a : PageArray) (ps : List (UInt64 × Page)) : Prop where
  nrPages : a.nrPages.toInt = ps.length
  pagesCapacity : a.pagesCapacity.toInt = a.pages.length
  nonempty : 0 < a.pages.length
  le : ps.length ≤ a.pages.length
  front : a.pages.take ps.length = ps.map some

namespace PageArray.Holds

variable {kv : Nat → Bool} {a b : PageArray} {ps : List (UInt64 × Page)}

theorem init : uckAllocIncoming.Holds [] where
  nrPages := rfl
  pagesCapacity := by
    rw [uckAllocIncoming, List.length_replicate]
    decide
  nonempty := by
    rw [uckAllocIncoming, List.length_replicate]
    decide
  le := Nat.zero_le _
  front := rfl

theorem records (h : a.Holds ps) : a.records = ps.map some := by
  rw [PageArray.records, h.nrPages, Int.toNat_natCast, h.front]

/-- The capacity doubles as long as it does not wrap. -/
theorem toInt_double (h : a.Holds ps) (hlt : 2 * a.pages.length < 2 ^ 31) :
    (a.pagesCapacity * 2).toInt = ((2 * a.pages.length : Nat) : Int) := by
  have htwo : (2 : Int32).toInt = 2 := rfl
  rw [Int32.toInt_mul, h.pagesCapacity, htwo, Int.bmod_eq_of_le (by omega) (by omega)]
  omega

/-- Once it wraps it is negative, and `kvmalloc_array` refuses it. -/
theorem kvmallocArray_double (h : a.Holds ps) : kvmallocArray kv (a.pagesCapacity * 2) pageRecord.size =
    (decide (2 * a.pages.length < 2 ^ 31) && kv (2 * a.pages.length * pageRecord.size)) := by
  rw [kvmallocArray, pageRecord_size]
  by_cases hlt : 2 * a.pages.length < 2 ^ 31
  · have hmod : (((2 * a.pages.length : Nat) : Int) % 2 ^ 64).toNat = 2 * a.pages.length := by omega
    have hmul : 2 * a.pages.length * 4104 < 2 ^ 64 := by omega
    rw [h.toInt_double hlt, hmod, decide_eq_true hmul, decide_eq_true hlt]
  · have hcap := a.pagesCapacity.toInt_lt
    have htwo : (2 : Int32).toInt = 2 := rfl
    have hmul : ¬ ((a.pagesCapacity * 2).toInt % 2 ^ 64).toNat * 4104 < 2 ^ 64 := by
      rw [h.pagesCapacity] at hcap
      rw [Int32.toInt_mul, h.pagesCapacity, htwo, Int.bmod_def]
      omega
    rw [decide_eq_false hmul, decide_eq_false hlt, Bool.false_and, Bool.false_and]

theorem grow (h : a.Holds ps) (hb : a.grow kv = some b) : b.Holds ps ∧ ps.length < b.pages.length := by
  unfold PageArray.grow at hb
  split at hb
  next hroom =>
    cases hb
    rw [Int32.lt_iff_toInt_lt, h.nrPages, h.pagesCapacity] at hroom
    exact ⟨h, by omega⟩
  next hfull =>
    dsimp only at hb
    split at hb
    next hkv =>
      rw [h.kvmallocArray_double] at hkv
      have hcap := h.toInt_double (of_decide_eq_true (Bool.and_eq_true_iff.1 hkv).1)
      have hle := h.le
      have hpos := h.nonempty
      cases hb
      rw [h.records, h.nrPages, hcap, Int.toNat_natCast, Int.toNat_natCast]
      have hlen : (ps.map some ++ List.replicate (2 * a.pages.length - ps.length) none :
          List (Option (UInt64 × Page))).length = 2 * a.pages.length := by
        rw [List.length_append, List.length_map, List.length_replicate]
        omega
      refine ⟨⟨h.nrPages, ?_, ?_, ?_, ?_⟩, ?_⟩
      · rw [hlen, hcap]
      · rw [hlen]
        omega
      · rw [hlen]
        omega
      · exact List.take_left' (List.length_map _)
      · rw [hlen]
        omega
    next => cases hb

/-- An array that is not full, or whose double there is memory for. -/
theorem exists_grow (h : a.Holds ps)
    (hkv : a.pages.length ≤ ps.length →
      2 * a.pages.length < 2 ^ 31 ∧ kv (2 * a.pages.length * pageRecord.size) = true) :
    ∃ b, a.grow kv = some b := by
  unfold PageArray.grow
  split
  next => exact ⟨a, rfl⟩
  next hfull =>
    rw [Int32.lt_iff_toInt_lt, h.nrPages, h.pagesCapacity] at hfull
    obtain ⟨hlt, hgrant⟩ := hkv (by omega)
    have hok : kvmallocArray kv (a.pagesCapacity * 2) pageRecord.size = true := by
      rw [h.kvmallocArray_double, hgrant, decide_eq_true hlt]
      rfl
    exact ⟨_, if_pos hok⟩

theorem push (h : a.Holds ps) (hlt : ps.length < a.pages.length) (r : UInt64 × Page) :
    (a.push r).Holds (ps ++ [r]) := by
  have hcap := a.pagesCapacity.toInt_lt
  have hnr : a.nrPages.toInt.toNat = ps.length := by rw [h.nrPages, Int.toNat_natCast]
  rw [h.pagesCapacity] at hcap
  refine ⟨?_, ?_, ?_, ?_, ?_⟩
  · have hone : (1 : Int32).toInt = 1 := rfl
    show (a.nrPages + 1).toInt = _
    rw [Int32.toInt_add, h.nrPages, hone, Int.bmod_eq_of_le (by omega) (by omega), List.length_append]
    rfl
  · rw [PageArray.push, List.length_set]
    exact h.pagesCapacity
  · rw [PageArray.push, List.length_set]
    exact h.nonempty
  · rw [PageArray.push, List.length_set, List.length_append]
    exact hlt
  · have hset : (a.push r).pages = (ps.map some ++ [some r]) ++ a.pages.drop (ps.length + 1) := by
      rw [PageArray.push, hnr, List.set_eq_take_append_cons_drop, if_pos hlt, h.front, List.append_assoc]
      rfl
    rw [hset, List.map_append]
    exact List.take_left' (by simp)

end PageArray.Holds

/-! ## The loop -/

section Loop

variable (kv : Nat → Bool) (src : UInt32)

/-- The last message. -/
theorem receiveArray_doneMsg (a : PageArray) : receiveArray kv a (doneMsg src) = (.done, a) := by
  have hlen : ¬ (doneMsg src).length < MsgHdr.codec.size := by
    rw [doneMsg, MsgHdr.codec.length_enc]
    exact Nat.lt_irrefl _
  rw [receiveArray, if_neg hlen, doneMsg, MsgHdr.codec.dec_enc_self,
    if_neg (by decide : MsgType.migrateDone.code ≠ MsgType.procPages.code), if_pos rfl]

/-- The message of a page. -/
theorem receiveArray_pageMsg (a : PageArray) (r : UInt64 × Page) (rest : List Byte) :
    receiveArray kv a (pageMsg src r ++ rest) =
      (a.grow kv).elim (.noMemory, a) fun b => receiveArray kv (b.push r) rest := by
  rw [receiveArray, if_neg (not_length_pageMsg_append_lt src r rest), pageMsg, List.append_assoc,
    MsgHdr.codec.dec_enc, if_pos rfl, List.drop_left' (MsgHdr.codec.length_enc _), ← Page.codec_enc,
    Page.codec.dec_enc, drop_enc_page]
  cases a.grow kv with
  | none => rfl
  | some b => exact if_neg (Page.codec.not_length_enc_append_lt _ _)

/-- **The loop of the destination** on what the loop of the source has sent. -/
theorem receiveArray_tail {a : PageArray} {ps : List (UInt64 × Page)} (h : a.Holds ps) (rs : List (UInt64 × Page)) :
    (receiveArray kv a (rs.flatMap (pageMsg src) ++ doneMsg src)).1 = .noMemory ∨
      ∃ b, receiveArray kv a (rs.flatMap (pageMsg src) ++ doneMsg src) = (.done, b) ∧ b.Holds (ps ++ rs) := by
  induction rs generalizing a ps with
  | nil =>
    rw [List.flatMap_nil, List.nil_append, receiveArray_doneMsg, List.append_nil]
    exact .inr ⟨a, rfl, h⟩
  | cons r rs ih =>
    rw [List.flatMap_cons, List.append_assoc, receiveArray_pageMsg]
    cases hg : a.grow kv with
    | none => exact .inl rfl
    | some b =>
      obtain ⟨hb, hroom⟩ := h.grow hg
      have hrest := ih (hb.push hroom r)
      rwa [List.append_assoc] at hrest

/-- No allocation of the loop fails if there is memory for arrays of up to twice as many elements as there are pages,
which are fewer than an `int` can count. -/
theorem receiveArray_memory {a : PageArray} {ps : List (UInt64 × Page)} (h : a.Holds ps) (rs : List (UInt64 × Page))
    (hlen : ps.length + rs.length ≤ 2 ^ 30)
    (hkv : ∀ n < ps.length + rs.length, kv (2 * n * pageRecord.size) = true) :
    (receiveArray kv a (rs.flatMap (pageMsg src) ++ doneMsg src)).1 ≠ .noMemory := by
  induction rs generalizing a ps with
  | nil =>
    rw [List.flatMap_nil, List.nil_append, receiveArray_doneMsg]
    exact Ended.noConfusion
  | cons r rs ih =>
    rw [List.length_cons] at hlen hkv
    obtain ⟨b, hb⟩ := h.exists_grow fun hfull => ⟨by omega, hkv _ (by omega)⟩
    obtain ⟨hholds, hroom⟩ := h.grow hb
    rw [List.flatMap_cons, List.append_assoc, receiveArray_pageMsg, hb, Option.elim_some]
    refine ih (hholds.push hroom r) ?_ ?_
    · rw [List.length_append, List.length_singleton]
      omega
    · intro n hn
      rw [List.length_append, List.length_singleton] at hn
      exact hkv n (by omega)

end Loop

/-! ## The receiver of the other modules -/

/-- The two arrays grow alike, for `kvmalloc` grants no size above `INT_MAX`. -/
theorem PageArray.Holds.grow_eq {kv : Nat → Bool} (hkv : ∀ n, kv n = true → n < 2 ^ 31) {a : PageArray} {inc : Incoming}
    (h : a.Holds inc.pages) (hcap : a.pages.length = inc.pagesCapacity) :
    inc.grow kv = (a.grow kv).map fun b => { inc with pagesCapacity := b.pages.length } := by
  have hroom : a.nrPages < a.pagesCapacity ↔ inc.pages.length < inc.pagesCapacity := by
    rw [Int32.lt_iff_toInt_lt, h.nrPages, h.pagesCapacity, hcap]
    omega
  unfold Incoming.grow
  split
  next hlt =>
    rw [PageArray.grow, if_pos (hroom.2 hlt), Option.map_some, hcap]
  next hge =>
    have hfull : inc.pages.length = a.pages.length := by
      have hle := h.le
      omega
    have hgrant : kvmallocArray kv (a.pagesCapacity * 2) pageRecord.size =
        kv (inc.pagesCapacity * 2 * pageRecord.size) := by
      rw [h.kvmallocArray_double, hcap, Nat.mul_comm 2]
      cases hk : kv (inc.pagesCapacity * 2 * pageRecord.size) with
      | false => rw [Bool.and_false]
      | true =>
        have hlt := hkv _ hk
        rw [pageRecord_size] at hlt
        rw [Bool.and_true, decide_eq_true (by omega)]
    rw [PageArray.grow, if_neg fun hlt => hge (hroom.1 hlt)]
    dsimp only
    rw [hgrant]
    split
    next hk =>
      have hlt : 2 * a.pages.length < 2 ^ 31 := by
        rw [← hgrant, h.kvmallocArray_double] at hk
        exact of_decide_eq_true (Bool.and_eq_true_iff.1 hk).1
      rw [Option.map_some, List.length_append, List.length_replicate, h.records, List.length_map, h.nrPages,
        h.toInt_double hlt, Int.toNat_natCast, Int.toNat_natCast]
      congr 2
      omega
    next => rw [Option.map_none]

/-- **The loop of `Migrate.Format`** gets the pages that the array holds. -/
theorem receiveArray_eq {kv : Nat → Bool} (hkv : ∀ n, kv n = true → n < 2 ^ 31) {a : PageArray} {inc : Incoming}
    (h : a.Holds inc.pages) (hcap : a.pages.length = inc.pagesCapacity) (bs : List Byte) :
    (receiveArray kv a bs).2.Holds (receivePages kv inc bs).pages := by
  have hgrow := @PageArray.Holds.grow_eq kv hkv
  induction inc, bs using receivePages.induct kv generalizing a with
  | case1 inc bs hlen =>
    rw [receivePages, if_pos hlen, receiveArray, if_pos hlen]
    exact h
  | case2 inc bs hlen ht =>
    rw [receivePages, if_neg hlen, if_pos ht, receiveArray, if_neg hlen, if_neg ht]
    split <;> exact h
  | case3 inc bs hlen ht hg =>
    rw [hgrow h hcap, Option.map_eq_none_iff] at hg
    rw [receivePages, if_neg hlen, if_neg ht, receiveArray, if_neg hlen, if_pos (not_not.1 ht), hgrow h hcap, hg]
    exact h
  | case4 inc bs hlen ht inc' hg hs =>
    rw [hgrow h hcap] at hg
    obtain ⟨b, hb, rfl⟩ := Option.map_eq_some_iff.1 hg
    rw [receivePages, if_neg hlen, if_neg ht, receiveArray, if_neg hlen, if_pos (not_not.1 ht), hgrow h hcap, hb]
    simp only [Option.map_some, hs, if_true]
    exact (h.grow hb).1
  | case5 inc bs hlen ht inc' hg hs ih =>
    rw [hgrow h hcap] at hg
    obtain ⟨b, hb, rfl⟩ := Option.map_eq_some_iff.1 hg
    obtain ⟨hholds, hroom⟩ := h.grow hb
    rw [receivePages, if_neg hlen, if_neg ht, receiveArray, if_neg hlen, if_pos (not_not.1 ht), hgrow h hcap, hb]
    simp only [Option.map_some, hs, if_false]
    exact ih (hholds.push hroom _) (List.length_set ..)

/-! ## The addresses -/

/-- The loop over the addresses, with a whole number of pages before its end and enough rounds. -/
theorem addrLoop_range {stop : UInt64} {n k : Nat} {addr : UInt64} (hstop : addr.toNat + k * pageSize = stop.toNat)
    (hn : k ≤ n) : addrLoop stop n addr = (List.range k).map fun i => addr + UInt64.ofNat (i * pageSize) := by
  have hpage : pageSize = 4096 := rfl
  induction k generalizing n addr with
  | zero =>
    have hend : ¬ addr < stop := by
      rw [UInt64.lt_iff_toNat_lt]
      omega
    cases n with
    | zero => rfl
    | succ n => exact if_neg hend
  | succ k ih =>
    obtain ⟨n, rfl⟩ := Nat.exists_eq_add_of_le' (Nat.le_trans (Nat.le_add_left 1 k) hn)
    have hlt := stop.toNat_lt
    rw [Nat.succ_mul] at hstop
    have hmore : addr < stop := by
      rw [UInt64.lt_iff_toNat_lt]
      omega
    have hnext : (addr + UInt64.ofNat pageSize).toNat = addr.toNat + pageSize := by
      rw [UInt64.toNat_add, UInt64.toNat_ofNat']
      omega
    have hrest := @ih n (addr + UInt64.ofNat pageSize) (by rw [hnext]; omega) (by omega)
    rw [addrLoop, if_pos hmore, hrest, List.range_succ_eq_map, List.map_cons, List.map_map]
    refine congrArg₂ List.cons ?_ (List.map_congr_left fun i _ => ?_)
    · rw [Nat.zero_mul]
      exact (UInt64.add_zero addr).symm
    · rw [Function.comp_apply, Nat.succ_mul, UInt64.ofNat_add, UInt64.add_assoc,
        UInt64.add_comm (UInt64.ofNat pageSize)]

/-- **The source visits** the addresses of its mappings, and its loop comes to an end. -/
theorem Process.addrLoop_eq {p : Process} {vma : VmArea} (hvma : vma ∈ p.areas) {n : Nat}
    (hn : vma.pageAddrs.length ≤ n) : addrLoop vma.end n vma.start = vma.pageAddrs := by
  have hpage : pageSize = 4096 := rfl
  obtain ⟨⟨s, hs⟩, e, he⟩ := p.aligned vma hvma
  have hlt := UInt64.lt_iff_toNat_lt.1 (p.nonempty vma hvma)
  rw [VmArea.pageAddrs, List.length_map, List.length_range] at hn
  refine addrLoop_range ?_ hn
  rw [hs, he, hpage] at hlt ⊢
  omega

/-- The addresses of a mapping increase. -/
theorem Process.pageAddrs_increasing {p : Process} {vma : VmArea} (hvma : vma ∈ p.areas) :
    vma.pageAddrs.Pairwise (· < ·) := by
  rw [VmArea.pageAddrs, List.pairwise_map]
  refine List.pairwise_lt_range.imp_of_mem fun hi hj hij => ?_
  have hpage : pageSize = 4096 := rfl
  rw [UInt64.lt_iff_toNat_lt, (toNat_pageAddr hvma (List.mem_range.1 hi)).1,
    (toNat_pageAddr hvma (List.mem_range.1 hj)).1, hpage]
  omega

/-- The addresses of the pages that are sent increase. -/
theorem Process.sentPages_increasing (p : Process) : (sentPages p.areas p.fetch).Pairwise fun x y => x.1 < y.1 := by
  have hpage : pageSize = 4096 := rfl
  -- a page that is sent for a mapping is at one of its addresses
  have hmem : ∀ vma : VmArea, ∀ x ∈ (if vma.file.isSome then [] else
      vma.pageAddrs.filterMap fun addr => (p.fetch addr).map fun page => (addr, page)), x.1 ∈ vma.pageAddrs := by
    intro vma x hx
    split at hx
    · cases hx
    · obtain ⟨addr, haddr, hx⟩ := List.mem_filterMap.1 hx
      obtain ⟨page, -, rfl⟩ := Option.map_eq_some_iff.1 hx
      exact haddr
  refine List.pairwise_flatMap.2 ⟨fun vma hvma => ?_, ?_⟩
  · split
    · exact List.Pairwise.nil
    · refine (pageAddrs_increasing hvma).filterMap _ fun a a' hlt x hx y hy => ?_
      obtain ⟨-, -, rfl⟩ := Option.map_eq_some_iff.1 hx
      obtain ⟨-, -, rfl⟩ := Option.map_eq_some_iff.1 hy
      exact hlt
  · refine p.disjoint.imp_of_mem fun hvma hvma' hle x hx y hy => ?_
    have hx := (mem_pageAddrs hvma (hmem _ x hx)).2
    have hy := (mem_pageAddrs hvma' (hmem _ y hy)).1
    rw [UInt64.le_iff_toNat_le] at hle
    rw [UInt64.lt_iff_toNat_lt]
    omega

/-- The destination gets to its loop if there is memory for the state. -/
theorem Process.arrive_eq (p : Process) {kv : Nat → Bool} (hs : p.snapshot.buf.length < 2 ^ 32)
    (h : Allocated kv p.snapshot) :
    arrive kv (uckSendProcess p.srcNode p.snapshot.buf (sentPages p.areas p.fetch)) =
      some (receiveArray kv uckAllocIncoming
        ((sentPages p.areas p.fetch).flatMap (pageMsg p.srcNode) ++ doneMsg p.srcNode)) := by
  have hsend : uckSendProcess p.srcNode p.snapshot.buf (sentPages p.areas p.fetch) =
      MsgHdr.codec.enc (stateHdr p.srcNode p.snapshot) ++ (p.snapshot.buf ++ p.snapshot.tail p.srcNode) :=
    send_eq p.srcNode p.snapshot
  rw [hsend, arrive, if_pos (stateHdr_cond p.srcNode p.snapshot _), MsgHdr.codec.dec_enc,
    List.drop_left' (MsgHdr.codec.length_enc _), toNat_payloadLen p.srcNode p.snapshot hs,
    recvState_buf p.snapshot h.2, Option.map_some]
  rfl

/-- **All captured pages arrive**: the pages that are sent are those of the mappings without a file that the source can
get, in the order of their addresses, and if there is memory for the state and for arrays of up to twice as many
elements as there are pages, the array of the destination holds each of them once, in that order. -/
theorem all_pages_arrive (p : Process) (kv : Nat → Bool) (hs : p.snapshot.buf.length < 2 ^ 32)
    (h : Allocated kv p.snapshot) :
    (∀ x, x ∈ sentPages p.areas p.fetch ↔
      ∃ vma ∈ p.areas, vma.file = none ∧ x.1 ∈ vma.pageAddrs ∧ p.fetch x.1 = some x.2) ∧
    ((sentPages p.areas p.fetch).Pairwise fun x y => x.1 < y.1) ∧
    ∃ e a, arrive kv (uckSendProcess p.srcNode p.snapshot.buf (sentPages p.areas p.fetch)) = some (e, a) ∧
      (e ≠ .noMemory → e = .done ∧ a.records = (sentPages p.areas p.fetch).map some) ∧
      ((sentPages p.areas p.fetch).length ≤ 2 ^ 30 →
        (∀ n < (sentPages p.areas p.fetch).length, kv (2 * n * pageRecord.size) = true) → e ≠ .noMemory) := by
  refine ⟨fun x => Process.mem_sentPages, p.sentPages_increasing, _, _, p.arrive_eq hs h, fun hmem => ?_,
    fun hlen hkv => ?_⟩
  · obtain hno | ⟨b, hb, hholds⟩ := receiveArray_tail kv p.srcNode PageArray.Holds.init
      (sentPages p.areas p.fetch)
    · exact absurd hno hmem
    · rw [hb]
      exact ⟨rfl, hholds.records⟩
  · exact receiveArray_memory kv p.srcNode PageArray.Holds.init _ (by simpa using hlen) (by simpa using hkv)

/-- A process with 600 pages of memory without a file, at `0x1000`. -/
def sixHundred : Process where
  srcNode := 1
  pid := 7
  regs := zeroRegs
  areas := [⟨0x1000, 0x259000, 3, 0, none⟩]
  fds := []
  threads := [⟨7, zeroRegs⟩]
  threads_ne := one_thread_ne
  fetch _ := some 0
  aligned := fun vma h => by
    obtain rfl := List.mem_singleton.1 h
    exact ⟨⟨1, rfl⟩, ⟨601, rfl⟩⟩
  nonempty := fun vma h => by
    obtain rfl := List.mem_singleton.1 h
    decide
  disjoint := List.pairwise_singleton _ _

theorem length_sixHundred : (sentPages sixHundred.areas sixHundred.fetch).length = 600 := by
  have hpages : sentPages sixHundred.areas sixHundred.fetch =
      (VmArea.pageAddrs ⟨0x1000, 0x259000, 3, 0, none⟩).map fun addr => (addr, 0) := by
    rw [sentPages, sixHundred, List.flatMap_singleton]
    exact congrFun List.filterMap_eq_map _
  rw [hpages, List.length_map, VmArea.pageAddrs, List.length_map, List.length_range]
  decide

/-- Its pages arrive, in an array that has been doubled twice. -/
theorem sixHundred_arrive : ∃ a, arrive kvmalloc (uckSendProcess sixHundred.srcNode sixHundred.snapshot.buf
    (sentPages sixHundred.areas sixHundred.fetch)) = some (.done, a) ∧
      a.records = (sentPages sixHundred.areas sixHundred.fetch).map some := by
  have halloc : sixHundred.snapshot.buf.length < 2 ^ 32 ∧ Allocated kvmalloc sixHundred.snapshot := by
    unfold Allocated
    rw [length_buf, length_descs]
    exact ⟨by decide, rfl, rfl, rfl⟩
  obtain ⟨-, -, e, a, harrive, hdone, hmem⟩ := all_pages_arrive sixHundred kvmalloc halloc.1 halloc.2
  have hmemory : e ≠ .noMemory := by
    rw [length_sixHundred] at hmem
    refine hmem (by decide) fun n hn => ?_
    rw [pageRecord_size]
    exact decide_eq_true (by omega)
  obtain ⟨rfl, hrecords⟩ := hdone hmemory
  exact ⟨a, harrive, hrecords⟩

end UckSmp.Migrate
