import Mathlib.Logic.Function.Basic
import UckSmp.Wire
import UckSmp.Lib.Transition

/-!
# One connection

The single connection of a node to a peer: the operations that the node performs on it one after the other, the peer's
handlers, which take the messages in order and write their replies into one byte stream, and the receiving loops of
`uck_net_fetch_page` and `uck_net_fetch_pages_batch`. How many bytes a receive returns, when it fails, which
allocations fail and how the peer's memory changes is in the events.

Beside the connection stand two histories: the pages that the peer sent, each with the operation it answers (`served`),
and those that an operation returned or installed (`delivered`).
-/

namespace UckSmp.Net

open Lib

/-! ## Messages -/

/-- A message of the node to the peer. -/
inductive Request
  | page (hdr : MsgHdr)
  | batch (hdr : MsgHdr) (regionId : UInt64) (offsets : List UInt64)
  | invalidate (hdr : MsgHdr)
  | announce (hdr : MsgHdr) (epoch : UInt32)
  | leave (hdr : MsgHdr)
  | heartbeat (hdr : MsgHdr)
  deriving DecidableEq, Repr

/-- The request of `uck_net_fetch_page`. -/
def pageRequest (self : UInt32) (region : UInt64) (i : Nat) : Request :=
  .page { type := MsgType.pageReq.code, srcNode := self, regionId := region, pageOffset := pageOffset i }

/-- The request of `uck_net_fetch_pages_batch`; `sizeof(struct uck_batch_page_req)` is 272. -/
def batchRequest (self : UInt32) (region : UInt64) (indices : List Nat) : Request :=
  .batch { type := MsgType.batchPageReq.code, srcNode := self, regionId := region, payloadLen := 272 } region
    (indices.map pageOffset)

/-- The operations that only send. -/
inductive OneWay
  | invalidate (region : UInt64) (i : Nat)
  | announce (epoch : UInt32)
  | leave
  | heartbeat
  deriving DecidableEq, Repr

def OneWay.request (self : UInt32) : OneWay → Request
  | .invalidate region i =>
    .invalidate { type := MsgType.invalidate.code, srcNode := self, regionId := region, pageOffset := pageOffset i }
  | .announce epoch => .announce { type := MsgType.nodeAnnounce.code, srcNode := self, payloadLen := 96 } epoch
  | .leave => .leave { type := MsgType.nodeLeave.code, srcNode := self }
  | .heartbeat => .heartbeat { type := MsgType.heartbeat.code, srcNode := self, payloadLen := 72 }

/-! ## The peer -/

/-- A page that was sent or delivered: the operation, the region, the index and the bytes. -/
structure Answer where
  op : Nat
  region : UInt64
  index : Nat
  data : List Byte
  deriving DecidableEq, Repr

/-- The peer. `regions` is what its handlers find: no region, or for an index the entry's page, zeros if there is
none. `announce` is the `struct uck_node_announce` that it would send. `serving` are the pages that
`uck_handle_batch_page_req` has still to send: the operation, the region and the offset. -/
structure Peer where
  nodeId : UInt32
  regions : UInt64 → Option (Nat → Page)
  clusterEpoch : UInt32
  announce : { bs : List Byte // bs.length = 96 }
  serving : List (Nat × UInt64 × UInt64)

/-- What a handler leaves: the peer, its reply and the pages in it. -/
structure Handled where
  peer : Peer
  reply : List Byte := []
  pages : List Answer := []

/-- `uck_handle_page_request`; `alloc` says whether the zero page could be allocated. -/
def uckHandlePageRequest (p : Peer) (alloc : Bool) (op : Nat) (hdr : MsgHdr) : Handled :=
  if alloc then
    let resp : MsgHdr := { type := MsgType.pageResp.code, srcNode := p.nodeId, regionId := hdr.regionId,
                           pageOffset := hdr.pageOffset }
    match p.regions hdr.regionId with
    | none => { peer := p, reply := MsgHdr.codec.enc { resp with flags := 1, payloadLen := 0 } }
    | some pages =>
      let page := pages (pageIndex hdr.pageOffset)
      { peer := p
        reply := MsgHdr.codec.enc { resp with payloadLen := UInt32.ofNat pageSize } ++ page.bytes
        pages := [⟨op, hdr.regionId, pageIndex hdr.pageOffset, page.bytes⟩] }
  else { peer := p }

/-- `uck_handle_batch_page_req` up to its loop; the number of pages is that of the offsets. -/
def uckHandleBatchPageReq (p : Peer) (alloc : Bool) (op : Nat) (regionId : UInt64) (offsets : List UInt64) :
    Handled :=
  if offsets.length = 0 ∨ uckBatchMaxPages < offsets.length ∨ alloc = false then { peer := p }
  else match p.regions regionId with
    | none => { peer := p, reply := BatchPageResp.codec.enc ⟨regionId, 0, 1⟩ }
    | some _ =>
      { peer := { p with serving := offsets.map fun o => (op, regionId, o) }
        reply := BatchPageResp.codec.enc ⟨regionId, UInt32.ofNat offsets.length, 0⟩ }

/-- One round of the loop of `uck_handle_batch_page_req`. -/
def sendNext (p : Peer) (op : Nat) (regionId o : UInt64) (rest : List (Nat × UInt64 × UInt64)) : Handled :=
  let page := ((p.regions regionId).map fun pages => pages (pageIndex o)).getD 0
  { peer := { p with serving := rest }
    reply := page.bytes
    pages := [⟨op, regionId, pageIndex o, page.bytes⟩] }

/-- `uck_handle_invalidate`: the page is dropped, and the acknowledgement is sent in any case. -/
def uckHandleInvalidate (p : Peer) (hdr : MsgHdr) : Handled :=
  { peer := { p with
      regions := Function.update p.regions hdr.regionId
        ((p.regions hdr.regionId).map fun pages => Function.update pages (pageIndex hdr.pageOffset) 0) }
    reply := MsgHdr.codec.enc { type := MsgType.invalidateAck.code, srcNode := p.nodeId, regionId := hdr.regionId,
                                pageOffset := hdr.pageOffset } }

/-- `uck_handle_node_announce`: a stale announcement is dropped, any other is acknowledged with the peer's own. -/
def uckHandleNodeAnnounce (p : Peer) (epoch : UInt32) : Handled :=
  if epoch ≠ 0 ∧ epoch < p.clusterEpoch then { peer := p }
  else
    { peer := p
      reply := MsgHdr.codec.enc { type := MsgType.nodeAnnounceAck.code, srcNode := p.nodeId, payloadLen := 96 } ++
        p.announce.1 }

/-- `uck_handle_node_leave`. The pages of the leaving node's regions stay in the entries. -/
def uckHandleNodeLeave (p : Peer) : Handled :=
  { peer := { p with clusterEpoch := p.clusterEpoch + 1 }
    reply := MsgHdr.codec.enc { type := MsgType.nodeLeaveAck.code, srcNode := p.nodeId } }

/-- The dispatch of `uck_handle_client`. No sender fills in `hdr.epoch`, so nothing is dropped as stale; a heartbeat
gets no reply. -/
def uckHandleClient (p : Peer) (alloc : Bool) (op : Nat) : Request → Handled
  | .page hdr => uckHandlePageRequest p alloc op hdr
  | .batch _ regionId offsets => uckHandleBatchPageReq p alloc op regionId offsets
  | .invalidate hdr => uckHandleInvalidate p hdr
  | .announce _ epoch => uckHandleNodeAnnounce p epoch
  | .leave _ => uckHandleNodeLeave p
  | .heartbeat _ => { peer := p }

/-! ## The node -/

/-- A running fetch: its number, its region and its indices (one for `uck_net_fetch_page`). -/
structure Fetch where
  op : Nat
  region : UInt64
  indices : List Nat
  deriving DecidableEq, Repr

/-- The receives of the two fetches. `left` counts the retries that remain, `i` and `nr` are the loop's. -/
inductive Phase
  | fetchHdr (left : Nat)
  | fetchData
  | batchHdr
  | batchPage (i nr : Nat)
  deriving DecidableEq, Repr

/-- The length that `uck_sock_recv` is asked for. -/
def Phase.len : Phase → Nat
  | .fetchHdr _ => MsgHdr.codec.size
  | .fetchData => pageSize
  | .batchHdr => BatchPageResp.codec.size
  | .batchPage _ _ => pageSize

/-- Where the node is. `outside` is a read of `indices` past its end. -/
inductive Client
  | idle
  | receiving (f : Fetch) (ph : Phase) (got : List Byte)
  | allocating (f : Fetch) (i nr : Nat)
  | installing (f : Fetch) (i nr : Nat) (data : List Byte)
  | outside
  deriving DecidableEq, Repr

/-- The loop of `uck_net_fetch_pages_batch` at index `i`. -/
def Fetch.round (f : Fetch) (i nr : Nat) : Client :=
  if i < nr then if i < f.indices.length then .allocating f i nr else .outside else .idle

/-- After a completed receive: where the node goes on. -/
def Fetch.received (f : Fetch) (buf : List Byte) : Phase → Client
  | .fetchHdr _ =>
    let resp := MsgHdr.codec.dec buf
    if resp.flags ≠ 0 then .idle
    else if resp.payloadLen ≠ UInt32.ofNat pageSize then .idle
    else .receiving f .fetchData []
  | .fetchData => .idle
  | .batchHdr =>
    let resp := BatchPageResp.codec.dec buf
    if resp.flags ≠ 0 ∨ resp.nrPages = 0 then .idle
    else f.round 0 (loopBound resp.nrPages)
  | .batchPage i nr => .installing f i nr buf

/-- What a completed receive returns to the caller: `uck_net_fetch_page` returns 0 with the page in `dst`. -/
def Fetch.returned (f : Fetch) (buf : List Byte) : Phase → List Answer
  | .fetchData => f.indices.map fun i => ⟨f.op, f.region, i, buf⟩
  | _ => []

/-- After a failed receive: `uck_net_fetch_page` starts its header again after a timeout, with an empty buffer. -/
def Fetch.failed (f : Fetch) (timeout : Bool) : Phase → Client
  | .fetchHdr (left + 1) => if timeout then .receiving f (.fetchHdr left) [] else .idle
  | _ => .idle

/-! ## Steps -/

structure Conn where
  client : Client
  outq : List (Nat × Request)
  peer : Peer
  inq : List Byte
  ops : Nat
  served : List Answer
  delivered : List Answer

inductive Event
  | fetchPage (region : UInt64) (i : Nat)
  | fetchPagesBatch (region : UInt64) (indices : List Nat)
  | oneWay (o : OneWay)
  /-- The peer handles its next message, or sends the next page of a batch. -/
  | peer (alloc : Bool)
  /-- The peer's memory, its epoch and its own announcement change. -/
  | peerChange (regions : UInt64 → Option (Nat → Page)) (clusterEpoch : UInt32)
      (announce : { bs : List Byte // bs.length = 96 })
  /-- `kernel_recvmsg` returns `k` bytes. -/
  | recv (k : Nat)
  /-- `kernel_recvmsg` fails, with `-EAGAIN` or `-ETIMEDOUT` or otherwise. -/
  | recvErr (timeout : Bool)
  /-- `alloc_page` in the batch loop. -/
  | alloc (ok : Bool)
  /-- The page goes into the cache if there is an entry for it or one can be allocated. -/
  | install (ok : Bool)

namespace Conn

/-- Operation number `ops` begins with its request. -/
def start (s : Conn) (client : Client) (r : Request) : Conn :=
  { s with client := client, outq := s.outq ++ [(s.ops, r)], ops := s.ops + 1 }

/-- A handler has run. -/
def handled (s : Conn) (outq : List (Nat × Request)) (h : Handled) : Conn :=
  { s with outq := outq, peer := h.peer, inq := s.inq ++ h.reply, served := s.served ++ h.pages }

def stepPeer (s : Conn) (alloc : Bool) : Option Conn :=
  match s.peer.serving with
  | (op, region, o) :: rest => some (s.handled s.outq (sendNext s.peer op region o rest))
  | [] => match s.outq with
    | (op, r) :: outq => some (s.handled outq (uckHandleClient s.peer alloc op r))
    | [] => none

/-- `k` bytes arrive in the buffer of the running receive. -/
def stepRecv (s : Conn) (f : Fetch) (ph : Phase) (got : List Byte) (k : Nat) : Option Conn :=
  if 0 < k ∧ k ≤ s.inq.length ∧ got.length + k ≤ ph.len then
    let buf := got ++ s.inq.take k
    let s := { s with inq := s.inq.drop k }
    if buf.length = ph.len then
      some { s with client := f.received buf ph, delivered := s.delivered ++ f.returned buf ph }
    else some { s with client := .receiving f ph buf }
  else none

/-- One step. A fetch is for pages of the region, whose indices are below `2 ^ 52`. -/
def step (self : UInt32) (s : Conn) : Event → Option Conn
  | .fetchPage region i =>
    if s.client = .idle ∧ i < 2 ^ 52 then
      some (s.start (.receiving ⟨s.ops, region, [i]⟩ (.fetchHdr 2) []) (pageRequest self region i))
    else none
  | .fetchPagesBatch region indices =>
    if s.client = .idle ∧ 0 < indices.length ∧ indices.length ≤ uckBatchMaxPages ∧ ∀ i ∈ indices, i < 2 ^ 52 then
      some (s.start (.receiving ⟨s.ops, region, indices⟩ .batchHdr []) (batchRequest self region indices))
    else none
  | .oneWay o => if s.client = .idle then some (s.start .idle (o.request self)) else none
  | .peer alloc => s.stepPeer alloc
  | .peerChange regions clusterEpoch announce =>
    some { s with peer := { s.peer with regions := regions, clusterEpoch := clusterEpoch, announce := announce } }
  | .recv k => match s.client with
    | .receiving f ph got => s.stepRecv f ph got k
    | _ => none
  | .recvErr timeout => match s.client with
    | .receiving f ph _ => some { s with client := f.failed timeout ph }
    | _ => none
  | .alloc ok => match s.client with
    | .allocating f i nr => some { s with client := if ok then .receiving f (.batchPage i nr) [] else .idle }
    | _ => none
  | .install ok => match s.client with
    | .installing f i nr data =>
      some { s with
        client := f.round (i + 1) nr
        delivered := s.delivered ++ if ok then f.indices[i]?.toList.map fun j => ⟨f.op, f.region, j, data⟩
          else [] }
    | _ => none

/-- The connection before its first operation. -/
def init (p : Peer) : Conn := ⟨.idle, [], { p with serving := [] }, [], 0, [], []⟩

end Conn

end UckSmp.Net
