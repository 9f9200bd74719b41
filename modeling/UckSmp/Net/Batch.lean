import Mathlib.Data.List.Nodup
import UckSmp.Memory.Entry
import UckSmp.Net.Connection

/-!
# Fetching pages in a batch

`uck_net_fetch_pages_batch` and `uck_net_fetch_page` as functions of the bytes that come back, and the peer's answers to
their requests. The caller passes the batch a pointer: `indices` is the memory that it points to, of which the first
`nr_pages` elements are the request. A receive fails when the stream has no more bytes.

* `batchLoop_spec`: what the loop over the reply reads and changes.
* `batch_within_iff`: the replies that do not make it leave the request; `second_page_outside` is one that does.
* `batch_agrees`: with the peer's handlers, the batch fetches what single fetches would.
* `batch_on_connection`: the operation of `Net.Connection` does what the call does.
-/

namespace UckSmp.Net

open Lib Lib.Transition
open UckSmp.Memory (PageEntry PageState batchInstall servedPage)

/-! ## The requester -/

/-- The page entries of a region. -/
abbrev Entries := Nat → Option (PageEntry Page)

/-- The allocations of a round: `alloc_page`, and `uck_page_alloc_entry` if it is called. -/
structure RoundAllocs where
  page : Bool
  entry : Bool
  deriving DecidableEq, Repr

/-- What the rest of the system returns to a fetch. -/
structure FetchEnv where
  /-- Finding the owner and connecting to it. -/
  connect : Int
  send : Int
  /-- `uck_sock_recv` when the stream ends. -/
  recvErr : Int
  recvErr_neg : recvErr < 0
  allocs : Nat → RoundAllocs

/-- A running batch: the entries of the region, the elements of `indices` that were read, and the pages installed. -/
structure Batch where
  entries : Entries
  reads : List Nat := []
  fetched : Nat := 0

/-- A page goes into the cache if there is an entry for it or one can be allocated. -/
def Batch.install (owner : Nat) (alloc : Bool) (idx : Nat) (page : Page) (b : Batch) : Batch :=
  if (b.entries idx).isSome || alloc then
    { b with
      entries := Function.update b.entries idx (some (batchInstall owner page (b.entries idx)))
      fetched := b.fetched + 1 }
  else b

/-- The loop of `uck_net_fetch_pages_batch`, with `n` rounds to go from round `i`. -/
def batchLoop (owner : Nat) (allocs : Nat → RoundAllocs) (indices : Nat → Nat) :
    (n i : Nat) → List Byte → Batch → Batch
  | 0, _, _, b => b
  | n + 1, i, bs, b =>
    let idx := indices i
    let b := { b with reads := b.reads ++ [i] }
    if !(allocs i).page then b
    else if bs.length < pageSize then b
    else
      batchLoop owner allocs indices n (i + 1) (bs.drop pageSize)
        (b.install owner (allocs i).entry idx (Page.codec.dec bs))

/-- `uck_net_fetch_pages_batch` for a region of the node `owner`, with the bytes that come back. -/
def uckNetFetchPagesBatch (env : FetchEnv) (owner : Nat) (indices : Nat → Nat) (nrPages : Int) (bs : List Byte)
    (entries : Entries) : Int × Batch :=
  let b : Batch := { entries }
  if nrPages ≤ 0 ∨ (uckBatchMaxPages : Int) < nrPages then (-22, b)
  else if env.connect < 0 then (env.connect, b)
  else
    -- the request is built
    let b := { b with reads := List.range nrPages.toNat }
    if env.send < 0 then (env.send, b)
    else if bs.length < BatchPageResp.codec.size then (env.recvErr, b)
    else
      let resp := BatchPageResp.codec.dec bs
      if resp.flags ≠ 0 ∨ resp.nrPages = 0 then (-5, b)
      else
        let b := batchLoop owner env.allocs indices (loopBound resp.nrPages) 0 (bs.drop BatchPageResp.codec.size) b
        (b.fetched, b)

/-- `uck_net_fetch_page` with the bytes that come back: its result, and the page if it is 0. -/
def uckNetFetchPage (env : FetchEnv) (bs : List Byte) : Int × Option Page :=
  if env.connect < 0 then (env.connect, none)
  else if env.send < 0 then (env.send, none)
  else if bs.length < MsgHdr.codec.size then (env.recvErr, none)
  else
    let resp := MsgHdr.codec.dec bs
    if resp.flags ≠ 0 then (-5, none)
    else if resp.payloadLen ≠ UInt32.ofNat pageSize then (-71, none)
    else if (bs.drop MsgHdr.codec.size).length < pageSize then (env.recvErr, none)
    else (0, some (Page.codec.dec (bs.drop MsgHdr.codec.size)))

/-- What `uck_net_fetch_page` sends. -/
def pageReqMsg (self : UInt32) (region : UInt64) (i : Nat) : List Byte :=
  MsgHdr.codec.enc
    { type := MsgType.pageReq.code, srcNode := self, regionId := region, pageOffset := pageOffset i }

/-- The `struct uck_batch_page_req` of `uck_net_fetch_pages_batch`. -/
def batchReq (region : UInt64) (indices : Nat → Nat) (nrPages : Nat) : BatchPageReq where
  regionId := region
  nrPages := UInt32.ofNat nrPages
  offsets := ⟨(List.range uckBatchMaxPages).map fun i => if i < nrPages then pageOffset (indices i) else 0, by
    rw [List.length_map, List.length_range]⟩

/-- What `uck_net_fetch_pages_batch` sends. -/
def batchReqMsg (self : UInt32) (region : UInt64) (indices : Nat → Nat) (nrPages : Nat) : List Byte :=
  MsgHdr.codec.enc
    { type := MsgType.batchPageReq.code, srcNode := self, regionId := region,
      payloadLen := UInt32.ofNat BatchPageReq.codec.size } ++
    BatchPageReq.codec.enc (batchReq region indices nrPages)

/-! ## The peer -/

/-- The loop of `uck_handle_batch_page_req`. -/
def serveAll : List (Nat × UInt64 × UInt64) → Peer → List Byte
  | [], _ => []
  | (op, region, o) :: rest, p =>
    (sendNext p op region o rest).reply ++ serveAll rest (sendNext p op region o rest).peer

/-- `uck_handle_client` on a request for pages: what it sends back, when no allocation fails. -/
def Peer.serve (p : Peer) (bs : List Byte) : List Byte :=
  if bs.length < MsgHdr.codec.size then []
  else
    let hdr := MsgHdr.codec.dec bs
    let rest := bs.drop MsgHdr.codec.size
    if hdr.type = MsgType.pageReq.code then (uckHandlePageRequest p true 0 hdr).reply
    else if hdr.type = MsgType.batchPageReq.code then
      if hdr.payloadLen ≠ UInt32.ofNat BatchPageReq.codec.size then []
      else if rest.length < BatchPageReq.codec.size then []
      else
        let req := BatchPageReq.codec.dec rest
        if req.nrPages = 0 ∨ UInt32.ofNat uckBatchMaxPages < req.nrPages then []
        else
          let h := uckHandleBatchPageReq p true 0 req.regionId (req.offsets.1.take req.nrPages.toNat)
          h.reply ++ serveAll h.peer.serving h.peer
    else []

/-! ## Statement -/

/-- A batch keeps to a request of `nrPages` indices. -/
structure Batch.Within (b : Batch) (entries : Entries) (indices : Nat → Nat) (nrPages : Nat) : Prop where
  reads : ∀ i ∈ b.reads, i < nrPages
  fetched : b.fetched ≤ nrPages
  entries : ∀ j, (∀ i < nrPages, indices i ≠ j) → b.entries j = entries j

/-- The request is made and the reply accepted. -/
structure Accepted (env : FetchEnv) (nrPages : Nat) (bs : List Byte) : Prop where
  asked : 0 < nrPages ∧ nrPages ≤ uckBatchMaxPages
  sent : 0 ≤ env.connect ∧ 0 ≤ env.send
  hdr : BatchPageResp.codec.size ≤ bs.length
  resp : (BatchPageResp.codec.dec bs).flags = 0 ∧ (BatchPageResp.codec.dec bs).nrPages ≠ 0

/-- The reply announces more pages than were asked for, and as many as were asked for have come. -/
structure Overrun (env : FetchEnv) (nrPages : Nat) (bs : List Byte) : Prop extends Accepted env nrPages bs where
  more : nrPages < loopBound (BatchPageResp.codec.dec bs).nrPages
  come : ∀ i < nrPages, (env.allocs i).page = true ∧ (i + 1) * pageSize ≤ (bs.drop BatchPageResp.codec.size).length

/-! ## The loop -/

/-- The rounds that the loop begins. -/
def rounds (allocs : Nat → RoundAllocs) : (n i : Nat) → List Byte → Nat
  | 0, _, _ => 0
  | n + 1, i, bs =>
    if (allocs i).page = true ∧ pageSize ≤ bs.length then rounds allocs n (i + 1) (bs.drop pageSize) + 1 else 1

/-- The loop gets to a round if the rounds before have their page. -/
theorem lt_rounds_iff {allocs : Nat → RoundAllocs} {n i k : Nat} {bs : List Byte} :
    k < rounds allocs n i bs ↔
      k < n ∧ ∀ j < k, (allocs (i + j)).page = true ∧ (j + 1) * pageSize ≤ bs.length := by
  induction n generalizing i k bs with
  | zero => simp [rounds]
  | succ n ih =>
    unfold rounds
    cases k with
    | zero => split <;> simp
    | succ k =>
      -- the first round, and the others on what it leaves of the stream
      have hshift : (∀ j < k + 1, (allocs (i + j)).page = true ∧ (j + 1) * pageSize ≤ bs.length) ↔
          ((allocs i).page = true ∧ pageSize ≤ bs.length) ∧
            ∀ j < k, (allocs (i + 1 + j)).page = true ∧ (j + 1) * pageSize ≤ (bs.drop pageSize).length := by
        constructor
        · intro h
          refine ⟨by simpa using h 0 (Nat.succ_pos k), fun j hj => ?_⟩
          obtain ⟨hok, hlen⟩ := h (j + 1) (Nat.succ_lt_succ hj)
          rw [Nat.succ_mul (j + 1)] at hlen
          rw [List.length_drop]
          exact ⟨by rwa [Nat.add_assoc, Nat.add_comm 1], by omega⟩
        · rintro ⟨hfirst, hrest⟩ j hj
          cases j with
          | zero => simpa using hfirst
          | succ j =>
            obtain ⟨hok, hlen⟩ := hrest j (Nat.lt_of_succ_lt_succ hj)
            rw [List.length_drop] at hlen
            rw [Nat.succ_mul (j + 1)]
            exact ⟨by rwa [Nat.add_comm j, ← Nat.add_assoc], by omega⟩
      rw [hshift]
      split
      next hok => rw [Nat.succ_lt_succ_iff, ih, Nat.succ_lt_succ_iff, and_iff_right hok]
      next hno => exact ⟨fun h => by omega, fun h => absurd h.2.1 hno⟩

section Loop

variable (owner : Nat)

theorem Batch.install_frame (alloc : Bool) {idx j : Nat} (page : Page) (b : Batch) (h : idx ≠ j) :
    (b.install owner alloc idx page).entries j = b.entries j := by
  unfold install
  split
  · exact Function.update_of_ne h.symm ..
  · rfl

theorem Batch.install_reads (alloc : Bool) (idx : Nat) (page : Page) (b : Batch) :
    (b.install owner alloc idx page).reads = b.reads := by
  unfold install
  split <;> rfl

theorem Batch.install_fetched_le (alloc : Bool) (idx : Nat) (page : Page) (b : Batch) :
    (b.install owner alloc idx page).fetched ≤ b.fetched + 1 := by
  unfold install
  split
  · exact Nat.le_refl _
  · exact Nat.le_succ _

/-- **The loop** reads an element of `indices` in every round that it begins, installs a page at most, and changes no
other entry. -/
theorem batchLoop_spec (allocs : Nat → RoundAllocs) (indices : Nat → Nat) (n i : Nat) (bs : List Byte) (b : Batch) :
    (batchLoop owner allocs indices n i bs b).reads = b.reads ++ List.range' i (rounds allocs n i bs) ∧
    (batchLoop owner allocs indices n i bs b).fetched ≤ b.fetched + rounds allocs n i bs ∧
    ∀ j, (∀ k < rounds allocs n i bs, indices (i + k) ≠ j) →
      (batchLoop owner allocs indices n i bs b).entries j = b.entries j := by
  induction n generalizing i bs b with
  | zero => exact ⟨(List.append_nil _).symm, Nat.le_refl _, fun _ _ => rfl⟩
  | succ n ih =>
    unfold batchLoop rounds
    dsimp only
    split
    next hno =>
      rw [if_neg (fun h => by simp [h.1] at hno)]
      exact ⟨rfl, Nat.le_succ _, fun _ _ => rfl⟩
    next hok =>
      split
      next hshort =>
        rw [if_neg (fun h => by omega)]
        exact ⟨rfl, Nat.le_succ _, fun _ _ => rfl⟩
      next hlong =>
        rw [if_pos ⟨by simpa using hok, by omega⟩]
        obtain ⟨hreads, hfetched, hentries⟩ := ih (i + 1) (bs.drop pageSize)
          (({ b with reads := b.reads ++ [i] } : Batch).install owner (allocs i).entry (indices i) (Page.codec.dec bs))
        refine ⟨?_, ?_, fun j hj => ?_⟩
        · rw [hreads, Batch.install_reads owner, List.append_assoc, List.range'_succ]
          rfl
        · have hle := Batch.install_fetched_le owner (allocs i).entry (indices i) (Page.codec.dec bs)
            { b with reads := b.reads ++ [i] }
          dsimp only at hle
          omega
        · have hlater : ∀ k < rounds allocs n (i + 1) (bs.drop pageSize), indices (i + 1 + k) ≠ j := by
            intro k hk
            rw [Nat.add_assoc, Nat.add_comm 1]
            exact hj (k + 1) (Nat.succ_lt_succ hk)
          have hfirst : indices i ≠ j := hj 0 (Nat.succ_pos _)
          rw [hentries j hlater, Batch.install_frame owner _ _ _ hfirst]

end Loop

/-! ## Replies that leave the request -/

section Replies

variable (env : FetchEnv) (owner : Nat) (indices : Nat → Nat) (nr : Nat) (bs : List Byte) (entries : Entries)

/-- An accepted reply goes through the loop. -/
theorem uckNetFetchPagesBatch_accepted (h : Accepted env nr bs) :
    uckNetFetchPagesBatch env owner indices nr bs entries =
      let b := batchLoop owner env.allocs indices (loopBound (BatchPageResp.codec.dec bs).nrPages) 0
        (bs.drop BatchPageResp.codec.size) { entries, reads := List.range nr }
      ((b.fetched : Int), b) := by
  have hmax : ¬ ((nr : Int) ≤ 0 ∨ (uckBatchMaxPages : Int) < nr) := by
    have hasked := h.asked
    omega
  have hresp : ¬ ((BatchPageResp.codec.dec bs).flags ≠ 0 ∨ (BatchPageResp.codec.dec bs).nrPages = 0) := by
    simp [h.resp]
  unfold uckNetFetchPagesBatch
  dsimp only
  rw [if_neg hmax, if_neg (Int.not_lt.2 h.sent.1), if_neg (Int.not_lt.2 h.sent.2), if_neg (Nat.not_lt.2 h.hdr),
    if_neg hresp, Int.toNat_natCast]

/-- Otherwise nothing but the request is read, and nothing is installed. -/
theorem uckNetFetchPagesBatch_refused (h : ¬ Accepted env nr bs) :
    ∃ reads, (∀ i ∈ reads, i < nr) ∧
      (uckNetFetchPagesBatch env owner indices nr bs entries).2 = { entries, reads } := by
  have hrange : ∀ i ∈ List.range nr, i < nr := fun i => List.mem_range.1
  unfold uckNetFetchPagesBatch
  dsimp only
  rw [Int.toNat_natCast]
  split
  next => exact ⟨[], fun _ hmem => absurd hmem List.not_mem_nil, rfl⟩
  next hasked =>
    split
    next => exact ⟨[], fun _ hmem => absurd hmem List.not_mem_nil, rfl⟩
    next hconnect =>
      split
      next => exact ⟨_, hrange, rfl⟩
      next hsend =>
        split
        next => exact ⟨_, hrange, rfl⟩
        next hhdr =>
          split
          next => exact ⟨_, hrange, rfl⟩
          next hresp =>
            rw [not_or, not_not] at hresp
            exact absurd ⟨by omega, ⟨Int.not_lt.1 hconnect, Int.not_lt.1 hsend⟩, Nat.not_lt.1 hhdr, hresp⟩ h

/-- The element behind the request is read in the round after it. -/
theorem overrun_iff {env : FetchEnv} {nr : Nat} {bs : List Byte} (h : Accepted env nr bs) :
    Overrun env nr bs ↔ nr < rounds env.allocs (loopBound (BatchPageResp.codec.dec bs).nrPages) 0
      (bs.drop BatchPageResp.codec.size) := by
  rw [lt_rounds_iff]
  simp only [Nat.zero_add]
  exact ⟨fun ho => ⟨ho.more, ho.come⟩, fun ho => ⟨h, ho.1, ho.2⟩⟩

/-- **A batch keeps to its request** unless the peer announces more pages than it was asked for, and sends those that
it was asked for. -/
theorem batch_within_iff : (uckNetFetchPagesBatch env owner indices nr bs entries).2.Within entries indices nr ↔
    ¬ Overrun env nr bs := by
  by_cases hacc : Accepted env nr bs
  · obtain ⟨hreads, hfetched, hentries⟩ := batchLoop_spec owner env.allocs indices
      (loopBound (BatchPageResp.codec.dec bs).nrPages) 0 (bs.drop BatchPageResp.codec.size)
      { entries, reads := List.range nr }
    rw [uckNetFetchPagesBatch_accepted env owner indices nr bs entries hacc, overrun_iff hacc, Nat.not_lt]
    dsimp only at hreads hfetched hentries ⊢
    constructor
    · intro h
      refine Nat.not_lt.1 fun hlt => Nat.lt_irrefl nr (h.reads nr ?_)
      rw [hreads, List.mem_append, List.mem_range'_1, Nat.zero_add]
      exact .inr ⟨Nat.zero_le _, hlt⟩
    · intro hle
      refine ⟨fun i hi => ?_, by omega, fun j hj => ?_⟩
      · rw [hreads, List.mem_append, List.mem_range, List.mem_range'_1] at hi
        omega
      · refine hentries j fun k hk => ?_
        rw [Nat.zero_add]
        exact hj k (by omega)
  · obtain ⟨reads, hlt, heq⟩ := uckNetFetchPagesBatch_refused env owner indices nr bs entries hacc
    rw [heq]
    exact ⟨fun _ h => hacc h.toAccepted, fun _ => ⟨hlt, Nat.zero_le _, fun _ _ => rfl⟩⟩

end Replies

/-- Nothing fails on the side of the requester. -/
structure FetchEnv.NoFailure (env : FetchEnv) : Prop where
  connect : 0 ≤ env.connect
  send : 0 ≤ env.send
  allocs : ∀ i, env.allocs i = ⟨true, true⟩

def FetchEnv.ok : FetchEnv := ⟨0, 0, -5, by decide, fun _ => ⟨true, true⟩⟩

theorem FetchEnv.ok_noFailure : FetchEnv.ok.NoFailure := ⟨Int.le_refl 0, Int.le_refl 0, fun _ => rfl⟩

theorem Accepted.of_reply {env : FetchEnv} (henv : env.NoFailure) {nr : Nat} (hnr : 0 < nr ∧ nr ≤ uckBatchMaxPages)
    {resp : BatchPageResp} (hresp : resp.flags = 0 ∧ resp.nrPages ≠ 0) (rest : List Byte) :
    Accepted env nr (BatchPageResp.codec.enc resp ++ rest) := by
  refine ⟨hnr, ⟨henv.connect, henv.send⟩, ?_, ?_⟩
  · rw [List.length_append, BatchPageResp.codec.length_enc]
    exact Nat.le_add_right _ _
  · rwa [BatchPageResp.codec.dec_enc]

section Pages

variable {owner : Nat} {allocs : Nat → RoundAllocs} {indices : Nat → Nat}

/-- A round that has its page and its entry. -/
theorem batchLoop_page {n i : Nat} (h : allocs i = ⟨true, true⟩) (page : Page) (rest : List Byte) (b : Batch) :
    batchLoop owner allocs indices (n + 1) i (page.bytes ++ rest) b =
      batchLoop owner allocs indices n (i + 1) rest
        { entries := Function.update b.entries (indices i) (some (batchInstall owner page (b.entries (indices i))))
          reads := b.reads ++ [i]
          fetched := b.fetched + 1 } := by
  have hlen : ¬ (page.bytes ++ rest).length < pageSize := by
    rw [List.length_append, page.length_bytes]
    exact Nat.not_lt.2 (Nat.le_add_right _ _)
  have hdec : Page.codec.dec (page.bytes ++ rest) = page := Page.codec.dec_enc page rest
  rw [batchLoop]
  simp only [h, Bool.not_true, Bool.false_eq_true, if_false, hlen]
  rw [List.drop_left' page.length_bytes, hdec]
  simp only [Batch.install, Bool.or_true, if_true]

end Pages

/-- One page is asked for, two are announced and come: what lies behind the request in memory is taken for the index of
the second one. -/
theorem second_page_outside : ∃ b : Batch,
    uckNetFetchPagesBatch .ok 1 (fun i => if i = 0 then 5 else 77) 1
      (BatchPageResp.codec.enc ⟨9, 2, 0⟩ ++ ((0 : Page).bytes ++ ((0 : Page).bytes ++ []))) (fun _ => none) = (2, b) ∧
    1 ∈ b.reads ∧ b.entries 77 = some (batchInstall 1 0 none) ∧
    ¬ b.Within (fun _ => none) (fun i => if i = 0 then 5 else 77) 1 := by
  have hacc : Accepted .ok 1
      (BatchPageResp.codec.enc ⟨9, 2, 0⟩ ++ ((0 : Page).bytes ++ ((0 : Page).bytes ++ []))) :=
    .of_reply FetchEnv.ok_noFailure (by decide) (by decide) _
  have heq := uckNetFetchPagesBatch_accepted .ok 1 (fun i => if i = 0 then 5 else 77) 1 _ (fun _ => none) hacc
  rw [BatchPageResp.codec.dec_enc, List.drop_left' (BatchPageResp.codec.length_enc _)] at heq
  dsimp only at heq
  rw [show loopBound 2 = 2 from rfl, batchLoop_page rfl, batchLoop_page rfl, batchLoop] at heq
  exact ⟨_, heq, by decide, rfl, fun h => absurd (h.reads 1 (by decide)) (by decide)⟩

/-! ## The batch and the single fetches -/

/-- The loop over as many pages as it expects, for distinct indices. -/
theorem batchLoop_pages {owner : Nat} {allocs : Nat → RoundAllocs} {indices : Nat → Nat}
    (hok : ∀ i, allocs i = ⟨true, true⟩) (pages : List Page) (i : Nat) (b : Batch)
    (hd : ∀ k l, k < l → l < pages.length → indices (i + k) ≠ indices (i + l)) :
    (batchLoop owner allocs indices pages.length i (pages.flatMap Page.bytes) b).fetched = b.fetched + pages.length ∧
    ∀ k page, pages[k]? = some page →
      (batchLoop owner allocs indices pages.length i (pages.flatMap Page.bytes) b).entries (indices (i + k)) =
        some (batchInstall owner page (b.entries (indices (i + k)))) := by
  induction pages generalizing i b with
  | nil => exact ⟨rfl, fun k page h => by cases h⟩
  | cons first pages ih =>
    rw [List.flatMap_cons, List.length_cons, batchLoop_page (hok i)]
    have hd' : ∀ k l, k < l → l < pages.length → indices (i + 1 + k) ≠ indices (i + 1 + l) := by
      intro k l hkl hl
      rw [Nat.add_assoc, Nat.add_comm 1, Nat.add_assoc, Nat.add_comm 1]
      exact hd (k + 1) (l + 1) (Nat.succ_lt_succ hkl) (Nat.succ_lt_succ hl)
    obtain ⟨hfetched, hentries⟩ := ih (i + 1) _ hd'
    refine ⟨by rw [hfetched]; dsimp only; omega, fun k page hk => ?_⟩
    cases k with
    | zero =>
      -- the later rounds are for other indices
      obtain rfl : first = page := Option.some.inj hk
      have hlater : ∀ k < rounds allocs pages.length (i + 1) (pages.flatMap Page.bytes),
          indices (i + 1 + k) ≠ indices i := by
        intro k hk
        rw [Nat.add_assoc, Nat.add_comm 1]
        exact (hd 0 (k + 1) (Nat.succ_pos k) (Nat.succ_lt_succ (lt_rounds_iff.1 hk).1)).symm
      rw [Nat.add_zero i, (batchLoop_spec owner allocs indices _ _ _ _).2.2 _ hlater]
      exact Function.update_self ..
    | succ k =>
      have hk' : pages[k]? = some page := hk
      have hlt : k < pages.length := (List.getElem?_eq_some_iff.1 hk').1
      have hne : indices (i + (k + 1)) ≠ indices i := (hd 0 (k + 1) (Nat.succ_pos k) (Nat.succ_lt_succ hlt)).symm
      have hlast := hentries k page hk'
      rw [Nat.add_assoc, Nat.add_comm 1] at hlast
      rw [hlast]
      exact congrArg (fun e => some (batchInstall owner page e)) (Function.update_of_ne hne ..)

section Served

variable {p : Peer} {region : UInt64} {pages : Nat → Page}

/-- The pages of a batch are sent one after the other. -/
theorem serveAll_eq (hregion : p.regions region = some pages) (op : Nat) (os : List UInt64)
    (serving : List (Nat × UInt64 × UInt64)) : serveAll (os.map fun o => (op, region, o)) { p with serving } =
      (os.map fun o => pages (pageIndex o)).flatMap Page.bytes := by
  induction os generalizing serving with
  | nil => rfl
  | cons o os ih =>
    have hpage : (sendNext { p with serving } op region o (os.map fun o => (op, region, o))).reply =
        (pages (pageIndex o)).bytes := by
      rw [sendNext, hregion]
      rfl
    rw [List.map_cons, serveAll, hpage, List.map_cons, List.flatMap_cons]
    exact congrArg _ (ih _)

/-- The answer to a request for one page. -/
theorem serve_pageReqMsg (hregion : p.regions region = some pages) (self : UInt32) {i : Nat} (hi : i < 2 ^ 52) :
    p.serve (pageReqMsg self region i) =
      MsgHdr.codec.enc { type := MsgType.pageResp.code, srcNode := p.nodeId, regionId := region,
                         pageOffset := pageOffset i, payloadLen := UInt32.ofNat pageSize } ++ (pages i).bytes := by
  have hlen : ¬ (pageReqMsg self region i).length < MsgHdr.codec.size := by
    rw [pageReqMsg, MsgHdr.codec.length_enc]
    exact Nat.lt_irrefl _
  rw [Peer.serve, if_neg hlen, pageReqMsg, MsgHdr.codec.dec_enc_self]
  simp only [if_true, uckHandlePageRequest, hregion, pageIndex_pageOffset hi]

/-- The offsets of a batch request. -/
theorem take_offsets (region : UInt64) (indices : Nat → Nat) {nr : Nat} (hnr : nr ≤ uckBatchMaxPages) :
    (batchReq region indices nr).offsets.1.take nr = (List.range nr).map fun i => pageOffset (indices i) := by
  rw [batchReq, ← List.map_take, List.take_range, Nat.min_eq_left hnr]
  exact List.map_congr_left fun i hi => if_pos (List.mem_range.1 hi)

/-- The handler of a batch of pages, up to its loop. -/
theorem uckHandleBatchPageReq_known (hregion : p.regions region = some pages) (op : Nat) {os : List UInt64}
    (hos : 0 < os.length ∧ os.length ≤ uckBatchMaxPages) : uckHandleBatchPageReq p true op region os =
      { peer := { p with serving := os.map fun o => (op, region, o) }
        reply := BatchPageResp.codec.enc ⟨region, UInt32.ofNat os.length, 0⟩ } := by
  have hask : ¬ (os.length = 0 ∨ uckBatchMaxPages < os.length ∨ true = false) := by
    rw [not_or, not_or]
    exact ⟨by omega, by omega, Bool.noConfusion⟩
  rw [uckHandleBatchPageReq, if_neg hask, hregion]

/-- The answer to a request for a batch. -/
theorem serve_batchReqMsg (hregion : p.regions region = some pages) (self : UInt32) {indices : Nat → Nat} {nr : Nat}
    (hnr : 0 < nr ∧ nr ≤ uckBatchMaxPages) (hlt : ∀ i < nr, indices i < 2 ^ 52) :
    p.serve (batchReqMsg self region indices nr) =
      BatchPageResp.codec.enc ⟨region, UInt32.ofNat nr, 0⟩ ++
        ((List.range nr).map fun i => pages (indices i)).flatMap Page.bytes := by
  have hmax : uckBatchMaxPages = 32 := rfl
  have hnat : (batchReq region indices nr).nrPages.toNat = nr := by
    rw [batchReq, UInt32.toNat_ofNat']
    omega
  have hlen : ¬ (batchReqMsg self region indices nr).length < MsgHdr.codec.size :=
    MsgHdr.codec.not_length_enc_append_lt _ _
  have hcount : ¬ ((batchReq region indices nr).nrPages = 0 ∨
      UInt32.ofNat uckBatchMaxPages < (batchReq region indices nr).nrPages) := by
    rw [UInt32.lt_iff_toNat_lt, hnat, ← UInt32.toNat_inj, hnat]
    have hzero : (0 : UInt32).toNat = 0 := rfl
    have hofNat : (UInt32.ofNat uckBatchMaxPages).toNat = 32 := rfl
    omega
  have hoffsets : ((List.range nr).map fun i => pageOffset (indices i)).length = nr := by
    rw [List.length_map, List.length_range]
  rw [Peer.serve, if_neg hlen, batchReqMsg, MsgHdr.codec.dec_enc, List.drop_left' (MsgHdr.codec.length_enc _)]
  dsimp only
  rw [if_neg (by decide), if_pos rfl, if_neg (not_not.2 rfl), BatchPageReq.codec.length_enc, if_neg (Nat.lt_irrefl _),
    BatchPageReq.codec.dec_enc_self, if_neg hcount, hnat, take_offsets region indices hnr.2,
    show (batchReq region indices nr).regionId = region from rfl,
    uckHandleBatchPageReq_known hregion 0 (by rwa [hoffsets]), hoffsets]
  refine congrArg (_ ++ ·) ((serveAll_eq hregion 0 _ _).trans ?_)
  rw [List.map_map]
  refine congrArg (·.flatMap Page.bytes) (List.map_congr_left fun i hi => ?_)
  exact congrArg pages (pageIndex_pageOffset (hlt i (List.mem_range.1 hi)))

end Served

/-- `uck_net_fetch_page` gets the page that it is sent. -/
theorem uckNetFetchPage_page {env : FetchEnv} (henv : env.NoFailure) {hdr : MsgHdr} (hflags : hdr.flags = 0)
    (hlen : hdr.payloadLen = UInt32.ofNat pageSize) (page : Page) :
    uckNetFetchPage env (MsgHdr.codec.enc hdr ++ page.bytes) = (0, some page) := by
  rw [uckNetFetchPage, if_neg (Int.not_lt.2 henv.connect), if_neg (Int.not_lt.2 henv.send),
    if_neg (MsgHdr.codec.not_length_enc_append_lt _ _), MsgHdr.codec.dec_enc,
    List.drop_left' (MsgHdr.codec.length_enc _)]
  dsimp only
  rw [if_neg (not_not.2 hflags), if_neg (not_not.2 hlen), page.length_bytes, if_neg (Nat.lt_irrefl _), ← Page.codec_enc,
    Page.codec.dec_enc_self]

/-- What a batch leaves in the cache of the requester, compared with the single fetches that the peer serves. -/
structure Agrees (env : FetchEnv) (id : UInt32) (region : UInt64) (p : Peer) (cache entries : Entries) (is : List Nat)
    (result : Int × Batch) : Prop where
  ret : result.1 = is.length
  fetched : ∀ i ∈ is, ∃ e page, result.2.entries i = some e ∧ e.state = .shared ∧ e.page = some page ∧
    page = servedPage (cache i) ∧ uckNetFetchPage env (p.serve (pageReqMsg id region i)) = (0, some page)
  others : ∀ j ∉ is, result.2.entries j = entries j

/-- **A batch fetch agrees with single fetches** from an owner that knows the region, for distinct indices, if nothing
fails. -/
theorem batch_agrees {env : FetchEnv} (henv : env.NoFailure) (self : UInt32) {region : UInt64} (owner : Nat) {p : Peer}
    {cache : Entries} (hregion : p.regions region = some fun i => servedPage (cache i)) (entries : Entries)
    {is : List Nat} (hlen : 0 < is.length ∧ is.length ≤ uckBatchMaxPages) (hd : is.Nodup) (hlt : ∀ i ∈ is, i < 2 ^ 52)
    {indices : Nat → Nat} (hindices : (List.range is.length).map indices = is) :
    Agrees env self region p cache entries is (uckNetFetchPagesBatch env owner indices is.length
      (p.serve (batchReqMsg self region indices is.length)) entries) := by
  have hmem : ∀ k < is.length, indices k ∈ is := by
    intro k hk
    rw [← hindices]
    exact List.mem_map_of_mem (List.mem_range.2 hk)
  have hinj : ∀ k l, k < l → l < is.length → indices (0 + k) ≠ indices (0 + l) := by
    intro k l hkl hl heq
    rw [Nat.zero_add, Nat.zero_add] at heq
    have hnodup : ((List.range is.length).map indices).Nodup := by rwa [hindices]
    have hkl' := List.inj_on_of_nodup_map hnodup (List.mem_range.2 (Nat.lt_trans hkl hl)) (List.mem_range.2 hl) heq
    omega
  have hserve := serve_batchReqMsg hregion self hlen fun k hk => hlt _ (hmem k hk)
  have hbound : loopBound (UInt32.ofNat is.length) = is.length := by
    have hmax : uckBatchMaxPages = 32 := rfl
    exact loopBound_ofNat (by omega)
  have hacc : Accepted env is.length (p.serve (batchReqMsg self region indices is.length)) := by
    rw [hserve]
    refine .of_reply henv hlen ⟨rfl, fun hzero => ?_⟩ _
    dsimp only at hzero
    rw [hzero] at hbound
    exact absurd hbound (Nat.ne_of_lt hlen.1)
  have hcount : ((List.range is.length).map fun k => servedPage (cache (indices k))).length = is.length := by
    rw [List.length_map, List.length_range]
  obtain ⟨hfetched, hentries⟩ := @batchLoop_pages owner env.allocs indices henv.allocs
    ((List.range is.length).map fun k => servedPage (cache (indices k))) 0 { entries, reads := List.range is.length }
    (by rwa [hcount])
  rw [hcount] at hfetched hentries
  rw [uckNetFetchPagesBatch_accepted env owner indices _ _ _ hacc, hserve, BatchPageResp.codec.dec_enc, hbound,
    List.drop_left' (BatchPageResp.codec.length_enc _)]
  dsimp only at hfetched hentries ⊢
  refine ⟨?_, fun i hi => ?_, fun j hj => ?_⟩
  · dsimp only
    rw [hfetched, Nat.zero_add]
  · rw [← hindices] at hi
    obtain ⟨k, hk, rfl⟩ := List.mem_map.1 hi
    have hlast := hentries k (servedPage (cache (indices k))) (by
      rw [List.getElem?_map, List.getElem?_range (List.mem_range.1 hk)]
      rfl)
    rw [Nat.zero_add] at hlast
    refine ⟨_, _, hlast, rfl, rfl, rfl, ?_⟩
    rw [serve_pageReqMsg hregion self (hlt _ (hmem k (List.mem_range.1 hk)))]
    exact uckNetFetchPage_page henv rfl rfl _
  · refine (batchLoop_spec owner env.allocs indices _ _ _ _).2.2 j fun k hk heq => hj ?_
    rw [← heq, Nat.zero_add]
    exact hmem k (lt_rounds_iff.1 hk).1

/-- An owner with a page at 3 and an entry without a page at 9. -/
def ownerCache : Entries := fun i =>
  if i = 3 then some ⟨some (.filled 7), .exclusive, 2, true⟩
  else if i = 9 then some ⟨none, .invalid, 2, false⟩
  else none

def ownerPeer : Peer := ⟨2, fun _ => some fun i => servedPage (ownerCache i), 0, ⟨List.replicate 96 0, rfl⟩, []⟩

/-- Three pages for a requester that has an entry for the first one already. -/
theorem three_pages_agree : ∃ b : Batch,
    uckNetFetchPagesBatch .ok 2 ([3, 9, 4].getD · 0) 3 (ownerPeer.serve (batchReqMsg 1 5 ([3, 9, 4].getD · 0) 3))
      (fun i => if i = 3 then some ⟨none, .invalid, 2, false⟩ else none) = (3, b) ∧
    (∃ e, b.entries 3 = some e ∧ e.state = .shared ∧ e.page = some (.filled 7)) ∧
    (∃ e, b.entries 9 = some e ∧ e.state = .shared ∧ e.page = some 0) ∧ b.entries 5 = none := by
  have h : Agrees .ok 1 5 ownerPeer ownerCache (fun i => if i = 3 then some ⟨none, .invalid, 2, false⟩ else none)
      [3, 9, 4] (uckNetFetchPagesBatch .ok 2 ([3, 9, 4].getD · 0) 3
        (ownerPeer.serve (batchReqMsg 1 5 ([3, 9, 4].getD · 0) 3)) _) :=
    batch_agrees FetchEnv.ok_noFailure 1 2 rfl _ (by decide) (by decide) (by decide) (by decide)
  generalize uckNetFetchPagesBatch .ok 2 ([3, 9, 4].getD · 0) 3
    (ownerPeer.serve (batchReqMsg 1 5 ([3, 9, 4].getD · 0) 3)) _ = result at h ⊢
  obtain ⟨ret, b⟩ := result
  obtain rfl : ret = 3 := h.ret
  obtain ⟨e, page, he, hshared, hpage, rfl, -⟩ := h.fetched 3 (by decide)
  obtain ⟨e', page', he', hshared', hpage', rfl, -⟩ := h.fetched 9 (by decide)
  exact ⟨b, rfl, ⟨e, he, hshared, hpage⟩, ⟨e', he', hshared', hpage'⟩, h.others 5 (by decide)⟩

/-! ## On the connection -/

section Connection

variable {id : UInt32} {owner i : Nat} {allocs : Nat → RoundAllocs} {indices : Nat → Nat} {f : Fetch} {s : Conn}

/-- The pages of some answers are installed, one after the other. -/
def installAll (owner : Nat) (entries : Entries) (answers : List Answer) : Entries :=
  answers.foldl (fun es a =>
    Function.update es a.index (some (batchInstall owner (Page.codec.dec a.data) (es a.index)))) entries

/-- The batch, on the connection from `s`, delivers the pages that it installs in one call. -/
structure Delivers (id : UInt32) (owner : Nat) (s : Conn) (b b' : Batch) (t : Conn) (answers : List Answer) :
    Prop where
  reaches : Reaches (Conn.step id) s t
  idle : t.client = .idle
  delivered : t.delivered = s.delivered ++ answers
  fetched : b'.fetched = b.fetched + answers.length
  entries : b'.entries = installAll owner b.entries answers

/-- What a round delivers. -/
def Fetch.answers (f : Fetch) (i : Nat) (ok : Bool) (data : List Byte) : List Answer :=
  if ok then f.indices[i]?.toList.map fun j => ⟨f.op, f.region, j, data⟩ else []

/-- The connection after a round whose page has come. -/
def Conn.afterRound (s : Conn) (f : Fetch) (i nr : Nat) (ok : Bool) : Conn :=
  { s with
    client := f.round (i + 1) nr
    inq := s.inq.drop pageSize
    delivered := s.delivered ++ f.answers i ok (s.inq.take pageSize) }

theorem reaches_afterRound {i nr : Nat} (hc : s.client = .allocating f i nr) (hlong : pageSize ≤ s.inq.length)
    (ok : Bool) : Reaches (Conn.step id) s (s.afterRound f i nr ok) := by
  have htake : (s.inq.take pageSize).length = pageSize := List.length_take_of_le hlong
  have halloc : Conn.step id s (.alloc true) = some { s with client := .receiving f (.batchPage i nr) [] } := by
    simp only [Conn.step, hc, if_true]
  have hrecv : Conn.step id { s with client := .receiving f (.batchPage i nr) [] } (.recv pageSize) =
      some { s with client := .installing f i nr (s.inq.take pageSize), inq := s.inq.drop pageSize } := by
    have hfits : 0 < pageSize ∧ pageSize ≤ s.inq.length ∧ ([] : List Byte).length + pageSize ≤ pageSize :=
      ⟨by decide, hlong, by decide⟩
    refine (if_pos hfits).trans ((if_pos htake).trans ?_)
    exact congrArg (fun l => some { s with
      client := .installing f i nr (s.inq.take pageSize), inq := s.inq.drop pageSize, delivered := l })
      (List.append_nil s.delivered)
  have hinstall : Conn.step id
      { s with client := .installing f i nr (s.inq.take pageSize), inq := s.inq.drop pageSize } (.install ok) =
      some (s.afterRound f i nr ok) := rfl
  exact ((Reaches.of_step halloc).trans (.of_step hrecv)).trans (.of_step hinstall)

/-- The page of the round goes to its index, in the call and on the connection. -/
theorem install_answers (owner : Nat) (hidx : f.indices[i]? = some (indices i)) (alloc : Bool) {bs : List Byte}
    (hlong : pageSize ≤ bs.length) (b : Batch) :
    (b.install owner alloc (indices i) (Page.codec.dec bs)).fetched =
        b.fetched + (f.answers i ((b.entries (indices i)).isSome || alloc) (bs.take pageSize)).length ∧
      (b.install owner alloc (indices i) (Page.codec.dec bs)).entries =
        installAll owner b.entries (f.answers i ((b.entries (indices i)).isSome || alloc) (bs.take pageSize)) := by
  have hdec : Page.codec.dec (bs.take pageSize) = Page.codec.dec bs :=
    Page.codec_local.dec_take (Nat.le_refl _) hlong
  unfold Batch.install Fetch.answers
  rw [hidx]
  split
  next => exact ⟨rfl, by rw [installAll, Option.toList_some, List.map_singleton, List.foldl_cons, hdec]; rfl⟩
  next => exact ⟨rfl, rfl⟩

/-- **The loop on the connection** installs what it installs in one call, unless it leaves the request. -/
theorem delivers_batchLoop (hindices : ∀ k < f.indices.length, f.indices[k]? = some (indices k)) {n i : Nat} {b : Batch}
    (hc : s.client = f.round i (i + n)) (hin : i + rounds allocs n i s.inq ≤ f.indices.length) :
    ∃ t answers, Delivers id owner s b (batchLoop owner allocs indices n i s.inq b) t answers := by
  induction n generalizing i s b with
  | zero =>
    rw [Nat.add_zero, Fetch.round, if_neg (Nat.lt_irrefl i)] at hc
    exact ⟨s, [], .refl s, hc, (List.append_nil _).symm, rfl, rfl⟩
  | succ n ih =>
    have hlt : i < f.indices.length := by
      have hpos : 0 < rounds allocs (n + 1) i s.inq :=
        lt_rounds_iff.2 ⟨Nat.succ_pos n, fun j hj => absurd hj (Nat.not_lt_zero j)⟩
      omega
    rw [Fetch.round, if_pos (by omega), if_pos hlt] at hc
    unfold batchLoop
    unfold rounds at hin
    dsimp only
    split
    next hno =>
      have halloc : Conn.step id s (.alloc false) = some { s with client := .idle } := by
        simp only [Conn.step, hc, Bool.false_eq_true, if_false]
      exact ⟨_, [], .of_step halloc, rfl, (List.append_nil _).symm, rfl, rfl⟩
    next hok =>
      split
      next hshort =>
        have halloc : Conn.step id s (.alloc true) =
            some { s with client := .receiving f (.batchPage i (i + (n + 1))) [] } := by
          simp only [Conn.step, hc, if_true]
        exact ⟨_, [], (Reaches.of_step halloc).trans (.of_step (e := .recvErr false) rfl), rfl,
          (List.append_nil _).symm, rfl, rfl⟩
      next hlong =>
        have hcome : pageSize ≤ s.inq.length := Nat.le_of_not_lt hlong
        rw [if_pos ⟨by simpa using hok, hcome⟩] at hin
        have hnext : (s.afterRound f i (i + (n + 1)) ((b.entries (indices i)).isSome || (allocs i).entry)).client =
            f.round (i + 1) (i + 1 + n) := by
          rw [Conn.afterRound, Nat.add_right_comm, Nat.add_assoc]
        have hrest : i + 1 + rounds allocs n (i + 1) (s.inq.drop pageSize) ≤ f.indices.length := by omega
        obtain ⟨t, answers, ht⟩ := ih (b := ({ b with reads := b.reads ++ [i] } : Batch).install owner (allocs i).entry
          (indices i) (Page.codec.dec s.inq)) hnext hrest
        obtain ⟨hfetched, hentries⟩ := install_answers owner (hindices i hlt) (allocs i).entry hcome
          { b with reads := b.reads ++ [i] }
        refine ⟨t, _ ++ answers, (reaches_afterRound hc hcome _).trans ht.reaches, ht.idle,
          ht.delivered.trans (List.append_assoc ..), ?_, ?_⟩
        · exact ht.fetched.trans (by rw [hfetched, List.length_append, Nat.add_assoc])
        · exact ht.entries.trans (by rw [hentries, installAll, installAll, installAll, List.foldl_append])

/-- A loop that leaves the request does so on the connection. -/
theorem reaches_outside {n : Nat} (hc : s.client = f.round i (i + n)) (hi : i ≤ f.indices.length)
    (hout : f.indices.length < i + rounds allocs n i s.inq) :
    ∃ t, Reaches (Conn.step id) s t ∧ t.client = .outside := by
  induction n generalizing i s with
  | zero => exact absurd hi (Nat.not_le.2 hout)
  | succ n ih =>
    rw [Fetch.round, if_pos (by omega)] at hc
    by_cases hlt : i < f.indices.length
    · rw [if_pos hlt] at hc
      unfold rounds at hout
      split at hout
      next hcome =>
        have hnext : (s.afterRound f i (i + (n + 1)) true).client = f.round (i + 1) (i + 1 + n) := by
          rw [Conn.afterRound, Nat.add_right_comm, Nat.add_assoc]
        have hrest : f.indices.length < i + 1 + rounds allocs n (i + 1) (s.inq.drop pageSize) := by omega
        obtain ⟨t, ht, houtside⟩ := ih hnext hlt hrest
        exact ⟨t, (reaches_afterRound hc hcome.2 true).trans ht, houtside⟩
      next => omega
    · rw [if_neg hlt] at hc
      exact ⟨s, .refl s, hc⟩

/-- The connection after the header of a reply that is accepted. -/
def Conn.afterReply (s : Conn) (f : Fetch) : Conn :=
  { s with
    client := f.round 0 (loopBound (BatchPageResp.codec.dec s.inq).nrPages)
    inq := s.inq.drop BatchPageResp.codec.size }

theorem reaches_afterReply {env : FetchEnv} (hs : s.client = .receiving f .batchHdr [])
    (h : Accepted env f.indices.length s.inq) : Reaches (Conn.step id) s (s.afterReply f) := by
  have hfits : 0 < BatchPageResp.codec.size ∧ BatchPageResp.codec.size ≤ s.inq.length ∧
      ([] : List Byte).length + BatchPageResp.codec.size ≤ BatchPageResp.codec.size :=
    ⟨by decide, h.hdr, by decide⟩
  have htake : (s.inq.take BatchPageResp.codec.size).length = BatchPageResp.codec.size :=
    List.length_take_of_le h.hdr
  have hresp : ¬ ((BatchPageResp.codec.dec s.inq).flags ≠ 0 ∨ (BatchPageResp.codec.dec s.inq).nrPages = 0) := by
    simp [h.resp]
  have hreceived : f.received (s.inq.take BatchPageResp.codec.size) .batchHdr =
      f.round 0 (loopBound (BatchPageResp.codec.dec s.inq).nrPages) := by
    rw [Fetch.received, BatchPageResp.codec_local.dec_take (Nat.le_refl _) h.hdr]
    exact if_neg hresp
  refine .of_step (e := .recv BatchPageResp.codec.size) ?_
  simp only [Conn.step, hs]
  refine (if_pos hfits).trans ((if_pos htake).trans ?_)
  rw [List.nil_append, hreceived]
  exact congrArg (fun l => some { s.afterReply f with delivered := l }) (List.append_nil s.delivered)

/-- **The batch on the connection.** A reply that is accepted makes the operation of `Net.Connection` deliver what the
call installs, or read behind its request. -/
theorem batch_on_connection {env : FetchEnv} (hs : s.client = .receiving f .batchHdr [])
    (h : Accepted env f.indices.length s.inq)
    (hindices : ∀ k < f.indices.length, f.indices[k]? = some (indices k)) (entries : Entries) :
    (¬ Overrun env f.indices.length s.inq → ∃ t answers, Delivers id owner s { entries }
      (uckNetFetchPagesBatch env owner indices f.indices.length s.inq entries).2 t answers) ∧
    (Overrun env f.indices.length s.inq → ∃ t, Reaches (Conn.step id) s t ∧ t.client = .outside) := by
  have hreply : Reaches (Conn.step id) s (s.afterReply f) := reaches_afterReply hs h
  have hround : (s.afterReply f).client = f.round 0 (0 + loopBound (BatchPageResp.codec.dec s.inq).nrPages) := by
    rw [Nat.zero_add, Conn.afterReply]
  rw [overrun_iff h, uckNetFetchPagesBatch_accepted env owner indices _ s.inq entries h, Nat.not_lt]
  constructor
  · intro hin
    rw [← Nat.zero_add (rounds ..)] at hin
    obtain ⟨t, answers, ht⟩ := delivers_batchLoop (s := s.afterReply f) hindices hround hin
    exact ⟨t, answers, hreply.trans ht.reaches, ht.idle, ht.delivered, ht.fetched, ht.entries⟩
  · intro hout
    rw [← Nat.zero_add (rounds ..)] at hout
    obtain ⟨t, ht, houtside⟩ := reaches_outside (s := s.afterReply f) hround (Nat.zero_le _) hout
    exact ⟨t, hreply.trans ht, houtside⟩

end Connection

end UckSmp.Net
