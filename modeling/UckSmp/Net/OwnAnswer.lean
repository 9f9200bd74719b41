import Mathlib.Data.List.Forall2
import UckSmp.Net.Connection

/-!
# A fetch gets its own answer

Neither fetch compares the reply with its request, so a fetch that starts while an earlier reply is still to come, or
that drops half a header, takes the bytes of another message for its page.

* `Clean`: a fetch starts only on a quiet connection, and no header is abandoned half received.
* `own_answers`: along every run of clean steps, every page that a fetch returns or installs was sent for it.
* `fetch_gets_other_page`: without them it may be another one.
-/

namespace UckSmp.Net

open Lib Lib.Transition

/-- Every page that an operation returned or installed under an index was sent for it, under that index. -/
def OwnAnswers (s : Conn) : Prop := ∀ a ∈ s.delivered, a ∈ s.served

/-- The messages that are never answered. -/
def Request.silent : Request → Bool
  | .heartbeat _ => true
  | _ => false

/-- Nothing is to be read and nothing that is queued will be answered. -/
structure Quiet (s : Conn) : Prop where
  inq : s.inq = []
  serving : s.peer.serving = []
  outq : ∀ q ∈ s.outq, q.2.silent

/-- The steps that keep the stream in step with the fetches. -/
def Clean (s : Conn) : Event → Prop
  | .fetchPage _ _ => Quiet s
  | .fetchPagesBatch _ _ => Quiet s
  | .recvErr true => ∀ f left got, s.client = .receiving f (.fetchHdr (left + 1)) got → got = []
  | _ => True

/-! ## What the stream holds for a fetch -/

section Stream

variable {s t : Conn} {f : Fetch} {self : UInt32}

/-- `d` was sent for index `i` of the fetch. -/
def Sent (s : Conn) (f : Fetch) (i : Nat) (d : List Byte) : Prop :=
  d.length = pageSize ∧ ⟨f.op, f.region, i, d⟩ ∈ s.served

/-- `stream` is what has arrived, unread, of the pages at `rest`: those sent; the others are being sent. -/
def Arriving (s : Conn) (f : Fetch) (rest : List Nat) (stream : List Byte) : Prop :=
  s.outq = [] ∧ (∀ i ∈ rest, i < 2 ^ 52) ∧ ∃ done todo ds, rest = done ++ todo ∧ List.Forall₂ (Sent s f) done ds ∧
    stream = ds.flatten ∧ s.peer.serving = todo.map fun i => (f.op, f.region, pageOffset i)

/-- The request waits behind messages without replies, or was itself left without one. -/
def Waiting (s : Conn) (f : Fetch) (r : Request) : Prop :=
  s.inq = [] ∧ s.peer.serving = [] ∧
    (s.outq = [] ∨ ∃ pre, (∀ q ∈ pre, Request.silent q.2 = true) ∧ s.outq = pre ++ [(f.op, r)])

/-- The bytes of a reply that begins with a header: none yet, an error, or a good header and the pages. -/
def Replying (s : Conn) (f : Fetch) (r : Request) (bad good : List Byte → Prop) (got : List Byte) : Prop :=
  (∀ i ∈ f.indices, i < 2 ^ 52) ∧
    ((got = [] ∧ Waiting s f r) ∨
      (s.outq = [] ∧ s.peer.serving = [] ∧ bad (got ++ s.inq)) ∨
      ∃ hd stream, good hd ∧ got ++ s.inq = hd ++ stream ∧ Arriving s f f.indices stream)

def BadPage (bs : List Byte) : Prop := ∃ h : MsgHdr, h.flags ≠ 0 ∧ bs = MsgHdr.codec.enc h

def GoodPage (bs : List Byte) : Prop :=
  ∃ h : MsgHdr, h.flags = 0 ∧ h.payloadLen = UInt32.ofNat pageSize ∧ bs = MsgHdr.codec.enc h

def BadBatch (bs : List Byte) : Prop := ∃ h : BatchPageResp, h.flags ≠ 0 ∧ bs = BatchPageResp.codec.enc h

def GoodBatch (n : Nat) (bs : List Byte) : Prop :=
  ∃ h : BatchPageResp, h.flags = 0 ∧ h.nrPages = UInt32.ofNat n ∧ bs = BatchPageResp.codec.enc h

/-- What the node may rely on, wherever it is. -/
def Expects (self : UInt32) (s : Conn) : Client → Prop
  | .idle => True
  | .receiving f (.fetchHdr _) got =>
    f.indices.length = 1 ∧ ∃ i ∈ f.indices, Replying s f (pageRequest self f.region i) BadPage GoodPage got
  | .receiving f .fetchData got => f.indices.length = 1 ∧ Arriving s f f.indices (got ++ s.inq)
  | .receiving f .batchHdr got =>
    (0 < f.indices.length ∧ f.indices.length ≤ uckBatchMaxPages) ∧
      Replying s f (batchRequest self f.region f.indices) BadBatch (GoodBatch f.indices.length) got
  | .allocating f i nr => i < f.indices.length ∧ nr = f.indices.length ∧ Arriving s f (f.indices.drop i) s.inq
  | .receiving f (.batchPage i nr) got =>
    i < f.indices.length ∧ nr = f.indices.length ∧ Arriving s f (f.indices.drop i) (got ++ s.inq)
  | .installing f i nr data =>
    nr = f.indices.length ∧ (∀ j ∈ f.indices[i]?, Sent s f j data) ∧ Arriving s f (f.indices.drop (i + 1)) s.inq
  | .outside => False

theorem Sent.mono {i : Nat} {d : List Byte} (h : Sent s f i d) (hs : s.served ⊆ t.served) : Sent t f i d :=
  ⟨h.1, hs h.2⟩

/-- The next page of the stream. -/
theorem Arriving.next {j : Nat} {rest : List Nat} {buf inq : List Byte} (h : Arriving s f (j :: rest) (buf ++ inq))
    (hb : buf.length = pageSize) : Sent s f j buf ∧ Arriving s f rest inq := by
  obtain ⟨ho, hlt, done, todo, ds, hr, hsent, hst, hserv⟩ := h
  have hlt' : ∀ i ∈ rest, i < 2 ^ 52 := fun i hi => hlt i (List.mem_cons_of_mem j hi)
  cases hsent with
  | nil =>
    -- nothing has arrived, but the buffer is full
    have hpos : pageSize = 4096 := rfl
    have := congrArg List.length hst
    simp only [List.length_append, List.flatten_nil, List.length_nil] at this
    omega
  | @cons i d done' ds' hd htail =>
    rw [List.cons_append, List.cons.injEq] at hr
    obtain ⟨rfl, rfl⟩ := hr
    rw [List.flatten_cons] at hst
    obtain ⟨rfl, rfl⟩ := List.append_inj hst (hb.trans hd.1.symm)
    exact ⟨hd, ho, hlt', done', todo, ds', rfl, htail, rfl, hserv⟩

/-- The peer sends a page of a batch. -/
theorem Arriving.sendNext {rest : List Nat} {stream : List Byte} (h : Arriving s f rest stream) {op : Nat}
    {region o : UInt64} {sv : List (Nat × UInt64 × UInt64)} (hs : s.peer.serving = (op, region, o) :: sv) :
    Arriving (s.handled s.outq (sendNext s.peer op region o sv)) f rest
      (stream ++ (sendNext s.peer op region o sv).reply) := by
  obtain ⟨ho, hlt, done, todo, ds, hr, hsent, hst, hserv⟩ := h
  cases todo with
  | nil => rw [hserv] at hs; cases hs
  | cons i todo =>
    rw [hserv, List.map_cons, List.cons.injEq, Prod.mk.injEq, Prod.mk.injEq] at hs
    obtain ⟨⟨rfl, rfl, rfl⟩, hsv⟩ := hs
    have hi : pageIndex (pageOffset i) = i := pageIndex_pageOffset (hlt i (by rw [hr]; simp))
    refine ⟨ho, hlt, done ++ [i], todo, ds ++ [(Net.sendNext s.peer f.op f.region (pageOffset i) sv).reply],
      by rw [hr]; simp, ?_, ?_, hsv.symm⟩
    · refine List.rel_append (hsent.imp fun _ _ h => h.mono (List.subset_append_left _ _)) (.cons ⟨?_, ?_⟩ .nil)
      · exact Page.length_bytes _
      · simp [Conn.handled, Net.sendNext, hi]
    · rw [hst]; simp

/-- How the peer answers a request: not at all, with an error, or with a good header and pages, some of them sent. -/
def Answers (f : Fetch) (bad good : List Byte → Prop) (p : Handled) : Prop :=
  (p.reply = [] ∧ p.peer.serving = []) ∨ (bad p.reply ∧ p.peer.serving = []) ∨
    ∃ hd done todo ds, f.indices = done ++ todo ∧ good hd ∧ p.reply = hd ++ ds.flatten ∧
      List.Forall₂ (fun i d => d.length = pageSize ∧ ⟨f.op, f.region, i, d⟩ ∈ p.pages) done ds ∧
      p.peer.serving = todo.map fun i => (f.op, f.region, pageOffset i)

theorem pageRequest_answers (p : Peer) (hs : p.serving = []) (alloc : Bool) {i : Nat} (hf : f.indices = [i])
    (hi : i < 2 ^ 52) :
    Answers f BadPage GoodPage (uckHandleClient p alloc f.op (pageRequest self f.region i)) := by
  simp only [uckHandleClient, pageRequest, uckHandlePageRequest, pageIndex_pageOffset hi]
  split
  · split
    · exact Or.inr (Or.inl ⟨⟨_, (by decide : (1 : UInt32) ≠ 0), rfl⟩, hs⟩)
    · rename_i pages _
      refine Or.inr (Or.inr ⟨_, [i], [], [(pages i).bytes], hf,
        ⟨{ type := MsgType.pageResp.code, srcNode := p.nodeId, regionId := f.region, pageOffset := pageOffset i,
           payloadLen := UInt32.ofNat pageSize }, rfl, rfl, rfl⟩, by simp, ?_, hs⟩)
      exact .cons ⟨(pages i).length_bytes, List.mem_singleton_self _⟩ .nil
  · exact Or.inl ⟨rfl, hs⟩

theorem batchRequest_answers (p : Peer) (hs : p.serving = []) (alloc : Bool) :
    Answers f BadBatch (GoodBatch f.indices.length)
      (uckHandleClient p alloc f.op (batchRequest self f.region f.indices)) := by
  simp only [uckHandleClient, batchRequest, uckHandleBatchPageReq]
  split
  · exact Or.inl ⟨rfl, hs⟩
  · split
    · exact Or.inr (Or.inl ⟨⟨_, (by decide : (1 : UInt32) ≠ 0), rfl⟩, hs⟩)
    · exact Or.inr (Or.inr ⟨_, [], f.indices, [], rfl,
        ⟨⟨f.region, UInt32.ofNat f.indices.length, 0⟩, rfl, rfl, rfl⟩, by simp, .nil, by simp⟩)

theorem Answers.replying {r : Request} {bad good : List Byte → Prop} {p : Handled} (h : Answers f bad good p)
    (hlt : ∀ i ∈ f.indices, i < 2 ^ 52) (hi : s.inq = []) : Replying (s.handled [] p) f r bad good [] := by
  have hin : (s.handled [] p).inq = p.reply := by simp [Conn.handled, hi]
  unfold Replying
  rw [hin]
  refine ⟨hlt, ?_⟩
  rcases h with ⟨h0, hs⟩ | ⟨hb, hs⟩ | ⟨hd, done, todo, ds, hidx, hg, hr, hsent, hs⟩
  · exact Or.inl ⟨rfl, hin.trans h0, hs, Or.inl rfl⟩
  · exact Or.inr (Or.inl ⟨rfl, hs, hb⟩)
  · refine Or.inr (Or.inr ⟨hd, ds.flatten, hg, hr, rfl, hlt, done, todo, ds, hidx, ?_, rfl, hs⟩)
    exact hsent.imp fun i d h => ⟨h.1, List.mem_append_right _ h.2⟩

/-- A step of the peer while the node waits for a header or reads it. -/
theorem Replying.stepPeer {r : Request} {bad good : List Byte → Prop} {got : List Byte} {alloc : Bool}
    (h : Replying s f r bad good got)
    (ha : s.peer.serving = [] → Answers f bad good (uckHandleClient s.peer alloc f.op r))
    (hst : s.stepPeer alloc = some t) : Replying t f r bad good got := by
  obtain ⟨hlt, ⟨hg, hin, hserv, hout⟩ | ⟨hout, hserv, hbad⟩ | ⟨hd, stream, hgood, heq, harr⟩⟩ := h
  · simp only [Conn.stepPeer, hserv] at hst
    rcases hout with hout | ⟨pre, hpre, hout⟩
    · rw [hout] at hst; cases hst
    · rw [hout] at hst
      subst hg
      cases pre with
      | nil =>
        cases hst
        exact (ha hserv).replying hlt hin
      | cons q pre =>
        -- a message that is not answered goes first
        obtain ⟨op, q⟩ := q
        cases hst
        have hq := hpre (op, q) List.mem_cons_self
        cases q <;> cases hq
        exact ⟨hlt, Or.inl ⟨rfl, by simpa [Conn.handled, uckHandleClient] using hin, hserv,
          Or.inr ⟨pre, fun q hq => hpre q (List.mem_cons_of_mem _ hq), rfl⟩⟩⟩
  · simp [Conn.stepPeer, hserv, hout] at hst
  · cases hserv : s.peer.serving with
    | nil => simp [Conn.stepPeer, hserv, harr.1] at hst
    | cons x sv =>
      obtain ⟨op, region, o⟩ := x
      simp only [Conn.stepPeer, hserv, Option.some.injEq] at hst
      subst hst
      refine ⟨hlt, Or.inr (Or.inr ⟨hd, _, hgood, ?_, harr.sendNext hserv⟩)⟩
      simp only [Conn.handled]
      rw [← List.append_assoc, heq, List.append_assoc]

/-- A step of the peer while the node reads pages. -/
theorem Arriving.stepPeer {rest : List Nat} (got : List Byte) {alloc : Bool} (h : Arriving s f rest (got ++ s.inq))
    (hst : s.stepPeer alloc = some t) : Arriving t f rest (got ++ t.inq) ∧ s.served ⊆ t.served := by
  cases hserv : s.peer.serving with
  | nil => simp [Conn.stepPeer, hserv, h.1] at hst
  | cons x sv =>
    obtain ⟨op, region, o⟩ := x
    simp only [Conn.stepPeer, hserv, Option.some.injEq] at hst
    subst hst
    refine ⟨?_, List.subset_append_left _ _⟩
    simp only [Conn.handled]
    rw [← List.append_assoc]
    exact h.sendNext hserv

/-! ## Receiving -/

/-- A receive that brings part of a header. -/
theorem Replying.recv {r : Request} {bad good : List Byte → Prop} {got : List Byte} {k : Nat}
    (h : Replying s f r bad good got) (hk : 0 < k) (hkl : k ≤ s.inq.length) :
    Replying { s with inq := s.inq.drop k } f r bad good (got ++ s.inq.take k) := by
  have heq : got ++ s.inq.take k ++ s.inq.drop k = got ++ s.inq := by
    rw [List.append_assoc, List.take_append_drop]
  refine ⟨h.1, ?_⟩
  rcases h.2 with ⟨hg, hin, -, -⟩ | ⟨hout, hserv, hbad⟩ | ⟨hd, stream, hgood, hst, harr⟩
  · rw [hin, List.length_nil] at hkl
    omega
  · exact Or.inr (Or.inl ⟨hout, hserv, by simp only [heq]; exact hbad⟩)
  · exact Or.inr (Or.inr ⟨hd, stream, hgood, by simp only [heq]; exact hst, harr⟩)

/-- A complete header: an error, or the good header with the pages behind it. -/
theorem Replying.complete {r : Request} {bad good : List Byte → Prop} {buf : List Byte} {n : Nat} (hn : 0 < n)
    (hbad : ∀ bs, bad bs → bs.length = n) (hgood : ∀ bs, good bs → bs.length = n)
    (h : Replying s f r bad good buf) (hb : buf.length = n) :
    bad buf ∨ (good buf ∧ Arriving s f f.indices s.inq) := by
  rcases h.2 with ⟨rfl, -⟩ | ⟨-, -, hb'⟩ | ⟨hd, stream, hg, hst, harr⟩
  · rw [List.length_nil] at hb
    omega
  · have hlen := hbad _ hb'
    rw [List.length_append] at hlen
    have hin : s.inq = [] := List.length_eq_zero_iff.1 (by omega)
    rw [hin, List.append_nil] at hb'
    exact Or.inl hb'
  · obtain ⟨rfl, rfl⟩ := List.append_inj hst (hb.trans (hgood _ hg).symm)
    exact Or.inr ⟨hg, harr⟩

theorem BadPage.length {bs : List Byte} : BadPage bs → bs.length = MsgHdr.codec.size := by
  rintro ⟨h, -, rfl⟩
  exact MsgHdr.codec.length_enc h

theorem GoodPage.length {bs : List Byte} : GoodPage bs → bs.length = MsgHdr.codec.size := by
  rintro ⟨h, -, -, rfl⟩
  exact MsgHdr.codec.length_enc h

theorem BadBatch.length {bs : List Byte} : BadBatch bs → bs.length = BatchPageResp.codec.size := by
  rintro ⟨h, -, rfl⟩
  exact BatchPageResp.codec.length_enc h

theorem GoodBatch.length {n : Nat} {bs : List Byte} : GoodBatch n bs → bs.length = BatchPageResp.codec.size := by
  rintro ⟨h, -, -, rfl⟩
  exact BatchPageResp.codec.length_enc h

/-- The loop goes on at index `i` with the pages from there. -/
theorem round_expects {i nr : Nat} (hn : nr = f.indices.length) (h : Arriving s f (f.indices.drop i) s.inq) :
    Expects self s (f.round i nr) := by
  subst hn
  unfold Fetch.round
  split
  · exact ⟨‹_›, rfl, h⟩
  · trivial

/-- After a completed receive the node may rely on what it expects next, and what it returns is its own. -/
theorem received_expects {ph : Phase} {buf : List Byte} (h : Expects self s (.receiving f ph buf))
    (hb : buf.length = ph.len) :
    Expects self s (f.received buf ph) ∧ ∀ a ∈ f.returned buf ph, a ∈ s.served := by
  cases ph with
  | fetchHdr left =>
    refine ⟨?_, nofun⟩
    obtain ⟨hlen, i, hi, hr⟩ := h
    rcases hr.complete (by decide) (fun _ => BadPage.length) (fun _ => GoodPage.length) hb with
      ⟨hdr, hfl, rfl⟩ | ⟨⟨hdr, hfl, hpl, rfl⟩, harr⟩
    · simp only [Fetch.received, Codec.dec_enc_self, if_pos hfl]
      trivial
    · simp only [Fetch.received, Codec.dec_enc_self, hfl, hpl, ne_eq, not_true_eq_false, if_false]
      exact ⟨hlen, harr⟩
  | fetchData =>
    obtain ⟨hlen, harr⟩ := h
    refine ⟨trivial, ?_⟩
    obtain ⟨i, hi⟩ := List.length_eq_one_iff.1 hlen
    rw [hi] at harr
    have hsent := (harr.next hb).1
    intro a ha
    simp only [Fetch.returned, hi, List.map_cons, List.map_nil, List.mem_singleton] at ha
    subst ha
    exact hsent.2
  | batchHdr =>
    refine ⟨?_, nofun⟩
    obtain ⟨⟨hpos, hmax⟩, hr⟩ := h
    rcases hr.complete (by decide) (fun _ => BadBatch.length) (fun _ => GoodBatch.length) hb with
      ⟨hdr, hfl, rfl⟩ | ⟨⟨hdr, hfl, hnr, rfl⟩, harr⟩
    · simp only [Fetch.received, Codec.dec_enc_self, if_pos (Or.inl hfl)]
      trivial
    · simp only [Fetch.received, Codec.dec_enc_self]
      split
      · trivial
      · have hmax' : uckBatchMaxPages = 32 := rfl
        exact round_expects (by rw [hnr, loopBound_ofNat (by omega)]) harr
  | batchPage i nr =>
    refine ⟨?_, nofun⟩
    obtain ⟨hi, hnr, harr⟩ := h
    rw [List.drop_eq_getElem_cons hi] at harr
    obtain ⟨hsent, hnext⟩ := harr.next hb
    refine ⟨hnr, ?_, hnext⟩
    intro j hj
    rw [List.getElem?_eq_getElem hi, Option.mem_some_iff] at hj
    exact hj ▸ hsent

/-- A receive that is not complete. -/
theorem receiving_expects {ph : Phase} {got : List Byte} {k : Nat} (h : Expects self s (.receiving f ph got))
    (hk : 0 < k) (hkl : k ≤ s.inq.length) :
    Expects self { s with inq := s.inq.drop k } (.receiving f ph (got ++ s.inq.take k)) := by
  have heq : got ++ s.inq.take k ++ s.inq.drop k = got ++ s.inq := by
    rw [List.append_assoc, List.take_append_drop]
  cases ph with
  | fetchHdr left =>
    obtain ⟨hlen, i, hi, hr⟩ := h
    exact ⟨hlen, i, hi, hr.recv hk hkl⟩
  | fetchData => exact ⟨h.1, by simp only [heq]; exact h.2⟩
  | batchHdr => exact ⟨h.1, h.2.recv hk hkl⟩
  | batchPage i nr => exact ⟨h.1, h.2.1, by simp only [heq]; exact h.2.2⟩

/-! ## Steps -/

theorem stepPeer_frame {alloc : Bool} (h : s.stepPeer alloc = some t) :
    t.client = s.client ∧ t.delivered = s.delivered ∧ s.served ⊆ t.served := by
  unfold Conn.stepPeer at h
  split at h
  · cases h
    exact ⟨rfl, rfl, List.subset_append_left _ _⟩
  · split at h
    · cases h
      exact ⟨rfl, rfl, List.subset_append_left _ _⟩
    · cases h

theorem stepPeer_expects {alloc : Bool} {c : Client} (h : Expects self s c) (hst : s.stepPeer alloc = some t) :
    Expects self t c := by
  have hsub := (stepPeer_frame hst).2.2
  cases c with
  | idle => trivial
  | outside => exact h
  | receiving f ph got =>
    cases ph with
    | fetchHdr left =>
      obtain ⟨hlen, i, hi, hr⟩ := h
      obtain ⟨j, hj⟩ := List.length_eq_one_iff.1 hlen
      have hij : i = j := by rw [hj] at hi; exact List.mem_singleton.1 hi
      subst hij
      exact ⟨hlen, i, hi, hr.stepPeer (fun hs => pageRequest_answers s.peer hs alloc hj (hr.1 i hi)) hst⟩
    | fetchData => exact ⟨h.1, (h.2.stepPeer got hst).1⟩
    | batchHdr => exact ⟨h.1, h.2.stepPeer (fun hs => batchRequest_answers s.peer hs alloc) hst⟩
    | batchPage i nr => exact ⟨h.1, h.2.1, (h.2.2.stepPeer got hst).1⟩
  | allocating f i nr => exact ⟨h.1, h.2.1, (Arriving.stepPeer [] h.2.2 hst).1⟩
  | installing f i nr data =>
    exact ⟨h.1, fun j hj => (h.2.1 j hj).mono hsub, (Arriving.stepPeer [] h.2.2 hst).1⟩

/-- On a quiet connection the request of a new fetch waits behind messages without replies. -/
theorem Quiet.replying {c : Client} {r : Request} {bad good : List Byte → Prop} (hq : Quiet s) (hop : f.op = s.ops)
    (hlt : ∀ i ∈ f.indices, i < 2 ^ 52) : Replying (s.start c r) f r bad good [] :=
  ⟨hlt, Or.inl ⟨rfl, hq.inq, hq.serving, Or.inr ⟨s.outq, hq.outq, by rw [hop]; rfl⟩⟩⟩

/-- Answers stay one's own when those that are added are. -/
theorem OwnAnswers.append {as : List Answer} (h : OwnAnswers s) (ha : ∀ a ∈ as, a ∈ s.served) :
    ∀ a ∈ s.delivered ++ as, a ∈ s.served := by
  intro a hmem
  rcases List.mem_append.1 hmem with hmem | hmem
  · exact h a hmem
  · exact ha a hmem

/-- A receive, complete or not. -/
theorem stepRecv_expects {ph : Phase} {got : List Byte} {k : Nat} (hown : OwnAnswers s)
    (hex : Expects self s (.receiving f ph got)) (h : s.stepRecv f ph got k = some t) :
    OwnAnswers t ∧ Expects self t t.client := by
  simp only [Conn.stepRecv, Option.ite_none_right_eq_some] at h
  obtain ⟨⟨hk, hkl, -⟩, h⟩ := h
  have hrec := receiving_expects hex hk hkl
  split at h
  · rename_i hb
    cases h
    obtain ⟨hnext, hret⟩ := received_expects hrec hb
    exact ⟨hown.append hret, hnext⟩
  · cases h
    exact ⟨hown, hrec⟩

/-- A failed receive: the header is begun again only if nothing of it was received. -/
theorem failed_expects {ph : Phase} {got : List Byte} {timeout : Bool} (hex : Expects self s (.receiving f ph got))
    (hc : timeout = true → ∀ left, ph = .fetchHdr (left + 1) → got = []) :
    Expects self s (f.failed timeout ph) := by
  unfold Fetch.failed
  split
  · rename_i left
    split
    · rename_i ht
      cases hc ht left rfl
      exact hex
    · trivial
  · trivial

/-- The installed page is one that was sent for its index. -/
theorem installed_served {i : Nat} {data : List Byte} (ok : Bool) (h : ∀ j ∈ f.indices[i]?, Sent s f j data) :
    ∀ a ∈ (if ok then f.indices[i]?.toList.map fun j => ⟨f.op, f.region, j, data⟩ else [] : List Answer),
      a ∈ s.served := by
  intro a ha
  cases ok
  · cases ha
  · simp only [if_true, List.mem_map, Option.mem_toList] at ha
    obtain ⟨j, hj, rfl⟩ := ha
    exact (h j hj).2

/-- **A clean step keeps what the node relies on and its answers its own.** -/
theorem step_expects {e : Event} (hi : OwnAnswers s ∧ Expects self s s.client) (hc : Clean s e)
    (h : s.step self e = some t) : OwnAnswers t ∧ Expects self t t.client := by
  obtain ⟨hown, hex⟩ := hi
  cases e with
  | fetchPage region i =>
    simp only [Conn.step, Option.ite_none_right_eq_some, Option.some.injEq] at h
    obtain ⟨⟨-, hlt⟩, rfl⟩ := h
    refine ⟨hown, rfl, i, List.mem_singleton_self i, Quiet.replying hc rfl ?_⟩
    intro j hj
    exact List.mem_singleton.1 hj ▸ hlt
  | fetchPagesBatch region indices =>
    simp only [Conn.step, Option.ite_none_right_eq_some, Option.some.injEq] at h
    obtain ⟨⟨-, hpos, hmax, hlt⟩, rfl⟩ := h
    exact ⟨hown, ⟨hpos, hmax⟩, Quiet.replying hc rfl hlt⟩
  | oneWay o =>
    simp only [Conn.step, Option.ite_none_right_eq_some, Option.some.injEq] at h
    obtain ⟨-, rfl⟩ := h
    exact ⟨hown, trivial⟩
  | peer alloc =>
    simp only [Conn.step] at h
    obtain ⟨hcl, hdel, hsub⟩ := stepPeer_frame h
    refine ⟨fun a ha => hsub (hown a (hdel ▸ ha)), ?_⟩
    rw [hcl]
    exact stepPeer_expects hex h
  | peerChange regions clusterEpoch announce =>
    cases h
    exact ⟨hown, hex⟩
  | recv k =>
    simp only [Conn.step] at h
    split at h
    · rename_i f ph got hcl
      rw [hcl] at hex
      exact stepRecv_expects hown hex h
    · cases h
  | recvErr timeout =>
    simp only [Conn.step] at h
    split at h
    · rename_i f ph got hcl
      cases h
      refine ⟨hown, ?_⟩
      rw [hcl] at hex
      refine failed_expects (s := { s with client := f.failed timeout ph }) hex ?_
      rintro rfl left rfl
      exact hc f left got hcl
    · cases h
  | alloc ok =>
    simp only [Conn.step] at h
    split at h
    · rename_i f i nr hcl
      cases h
      refine ⟨hown, ?_⟩
      rw [hcl] at hex
      cases ok
      · trivial
      · exact hex
    · cases h
  | install ok =>
    simp only [Conn.step] at h
    split at h
    · rename_i f i nr data hcl
      cases h
      rw [hcl] at hex
      obtain ⟨hnr, hsent, harr⟩ := hex
      exact ⟨hown.append (installed_served ok hsent), round_expects hnr harr⟩
    · cases h

end Stream

/-- **A fetch gets its own answer** in every state of every run of clean steps. -/
theorem own_answers (self : UInt32) (p : Peer) (es : List Event)
    (h : EachStep (Conn.step self) Clean (Conn.init p) es) :
    Always (Conn.step self) OwnAnswers (Conn.init p) es :=
  Always.of_eachStep (fun s => OwnAnswers s ∧ Expects self s s.client) (fun _ _ _ => step_expects)
    (fun _ hi => hi.1) ⟨nofun, trivial⟩ h

/-! ## A stale acknowledgement -/

/-- A receive that is answered in full at once. -/
theorem stepRecv_all {s : Conn} {hd tl : List Byte} (f : Fetch) (ph : Phase) (hl : hd.length = ph.len)
    (hin : s.inq = hd ++ tl) (hpos : 0 < ph.len) :
    s.stepRecv f ph [] ph.len = some { s with
      inq := tl, client := f.received hd ph, delivered := s.delivered ++ f.returned hd ph } := by
  have hlen : ph.len ≤ s.inq.length := by rw [hin, List.length_append, hl]; omega
  have htake : s.inq.take ph.len = hd := by rw [hin]; exact List.take_left' hl
  have hdrop : s.inq.drop ph.len = tl := by rw [hin]; exact List.drop_left' hl
  simp only [Conn.stepRecv, hpos, hlen, List.length_nil, Nat.zero_add, Nat.le_refl, and_self, if_true, htake, hdrop,
    List.nil_append, hl]

/-- A peer whose page `i` is filled with the byte `i`. -/
def countingPeer : Peer :=
  ⟨1, fun _ => some fun i => Page.filled (UInt8.ofNat i), 1, ⟨List.replicate 96 0, List.length_replicate⟩, []⟩

/-- A fetch on a fresh connection. -/
def cleanFetch : List Event := [.fetchPage 0 1, .peer true, .recv 40, .recv 4096]

theorem fetch_gets_its_page : Always (Conn.step 0) OwnAnswers (Conn.init countingPeer) cleanFetch :=
  own_answers 0 countingPeer cleanFetch
    ⟨⟨rfl, rfl, nofun⟩, fun _ _ => ⟨trivial, fun _ _ => ⟨trivial, fun _ _ => ⟨trivial, fun _ _ => trivial⟩⟩⟩⟩

/-- An invalidation, whose acknowledgement nobody reads, and two fetches. -/
def staleAck : List Event :=
  [.oneWay (.invalidate 0 5), .peer true, .fetchPage 0 1, .peer true, .recv 40, .fetchPage 0 2, .peer true, .recv 40,
   .recv 4096]

/-- The first fetch takes the acknowledgement for its header and fails; the second returns the first one's page. -/
theorem fetch_gets_other_page : ¬ Always (Conn.step 0) OwnAnswers (Conn.init countingPeer) staleAck := by
  intro h
  have h1 := h.2 _ rfl
  have h2 := h1.2 _ rfl
  have h3 := h2.2 _ rfl
  have h4 := h3.2 _ rfl
  have h5 := h4.2 _ (stepRecv_all _ (.fetchHdr 2) (MsgHdr.codec.length_enc _) rfl (by decide))
  have h6 := h5.2 _ rfl
  have h7 := h6.2 _ rfl
  have h8 := h7.2 _ (stepRecv_all _ (.fetchHdr 2) (MsgHdr.codec.length_enc _) rfl (by decide))
  have h9 := h8.2 _ (stepRecv_all _ .fetchData (Page.filled 1).length_bytes rfl (by decide))
  have hm : (⟨2, 0, 2, (Page.filled 1).bytes⟩ : Answer) ∈
      [⟨1, 0, 1, (Page.filled 1).bytes⟩, ⟨2, 0, 2, (Page.filled 2).bytes⟩] :=
    h9 _ (List.mem_singleton_self _)
  simp only [List.mem_cons, Answer.mk.injEq, List.not_mem_nil, or_false] at hm
  rcases hm with ⟨hop, -⟩ | ⟨-, -, -, hdata⟩
  · cases hop
  · exact absurd (Page.filled_injective (Page.ext hdata)) (by decide)

end UckSmp.Net
