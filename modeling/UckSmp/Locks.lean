import Mathlib.Order.Nat
import UckSmp.Lib.LockOrder
import UckSmp.Memory.Entry

/-!
# The locks of the module

The operations of a node as the sequences of `mutex_lock` and `mutex_unlock` that they perform on `uck_state.lock`,
`region->lock`, `uck_state.jobs_lock` and the `sock_lock` of a node. What a lookup finds, what an allocation, a
connection attempt or a receive returns and how often a loop runs are the arguments of an operation: every value that
the code could read there is admitted.

* `ordered_iff`: the operations that respect the documented order are those in which no batch fetch receives a page.
* `lockOrder`: along every run of such operations the order holds and no cycle of waiting threads exists.
-/

namespace UckSmp.Locks

open Lib.Lock Lib.Transition UckSmp.Memory

/-- The mutexes of the lock order comment; regions and nodes by their slots. -/
inductive Lock
  | state
  | region (r : Nat)
  | jobs
  | sock (n : Nat)
  deriving DecidableEq, Repr

/-- The documented order. -/
def Lock.rank : Lock → Nat
  | .state => 1
  | .region _ => 2
  | .jobs => 3
  | .sock _ => 4

/-! ## Sends -/

/-- How a send to a node goes: the slot of the node, if the node is found and connected or connectable, and whether
the socket takes the bytes. -/
structure Send where
  slot : Option Nat
  sent : Bool
  deriving DecidableEq, Repr

/-- `ret < 0`. -/
def Send.Failed (s : Send) : Prop := s.slot = none ∨ s.sent = false

instance (s : Send) : Decidable s.Failed := inferInstanceAs (Decidable (_ ∨ _))

/-- `uck_net_send_to_node`, `uck_net_send_msg_to_node`, `uck_send_heartbeat_to` and `uck_send_process` lock alike. -/
def uckNetSendToNode (s : Send) : Code Lock :=
  match s.slot with
  | some n => Code.skip.critical (.sock n)
  | none => .skip

/-- A send to each living node, as in `uck_invalidate_remote_copies`, `uck_futex_wake_remote`,
`uck_node_leave_graceful` and the broadcast of an announcement. -/
def broadcast (sends : List Send) : Code Lock := .each uckNetSendToNode sends

/-! ## Pages -/

/-- How a batch fetch goes: the slot of the owner, if the request is well formed and the owner is found and
connectable; whether it answers with pages; for each page that could be allocated and was received, whether an entry
was there or could be allocated. -/
structure BatchRun where
  owner : Option Nat
  answered : Bool
  received : List Bool
  deriving DecidableEq, Repr

/-- What `uck_net_fetch_pages_batch` returns, with 0 for an error. -/
def BatchRun.fetched (b : BatchRun) : Nat := if b.owner.isSome ∧ b.answered then b.received.count true else 0

/-- The pages are installed, each under the region lock, before the socket lock is released. -/
def uckNetFetchPagesBatch (r : Nat) (b : BatchRun) : Code Lock :=
  match b.owner with
  | some n =>
    Code.critical (.sock n) (if b.answered then .each (fun _ => Code.skip.critical (.region r)) b.received else .skip)
  | none => .skip

/-- What `uck_fault` meets on its way. -/
structure FaultRun where
  /-- There is a region and the offset lies in it. -/
  mapped : Bool
  isWrite : Bool
  entry : Option (PageEntry Unit)
  allocs : FaultAllocs
  rdma : Bool
  nrPrefetch : Nat
  batch : BatchRun
  /-- The entry of the faulting page after a batch fetch. -/
  after : Option (PageEntry Unit)
  /-- The single fetch succeeded, or this node is the owner. -/
  fetched : Bool
  invalidates : List Send
  deriving DecidableEq, Repr

def FaultRun.enter (f : FaultRun) : FaultEnter Unit := uckFaultEnter 0 f.isWrite f.allocs f.entry

/-- The single fetch, which takes no lock, and the install of its page. -/
def faultInstall (r : Nat) (f : FaultRun) : Code Lock := if f.fetched then Code.skip.critical (.region r) else .skip

/-- The section after a batch fetch that returned pages: the faulting page is among them, or it is fetched singly. -/
def faultAfterBatch (r : Nat) (f : FaultRun) : Code Lock :=
  match uckFaultAfterBatch f.isWrite f.after with
  | some (_, invalidate) => (if invalidate then broadcast f.invalidates else .skip).critical (.region r)
  | none => (Code.skip.critical (.region r)).seq (faultInstall r f)

/-- The part of `uck_fault` behind the cache miss. -/
def faultFetch (r : Nat) (f : FaultRun) : Code Lock :=
  if f.rdma then faultInstall r f
  else
    -- `uck_build_prefetch_list` runs under the region lock.
    (Code.skip.critical (.region r)).seq <|
      if 1 < f.nrPrefetch then
        (uckNetFetchPagesBatch r f.batch).seq (if 0 < f.batch.fetched then faultAfterBatch r f else faultInstall r f)
      else faultInstall r f

def uckFault (r : Nat) (f : FaultRun) : Code Lock :=
  if f.mapped then
    match f.enter with
    | .hit _ invalidate => (if invalidate then broadcast f.invalidates else .skip).critical (.region r)
    | .wait _ => (Code.skip.critical (.region r)).seq (Code.skip.critical (.region r))
    | .oom _ => Code.skip.critical (.region r)
    | .fetch _ => (Code.skip.critical (.region r)).seq (faultFetch r f)
  else .skip

/-- `uck_page_mkwrite`, for a mapping with or without a region. -/
def uckPageMkwrite (region : Option Nat) (entry : Option (PageEntry Unit)) (sends : List Send) : Code Lock :=
  match region with
  | some r => (if (Memory.uckPageMkwrite entry).2 then broadcast sends else .skip).critical (.region r)
  | none => .skip

/-- `uck_find_region` under the state lock, then, if there is such a region, `body` with it. -/
def withRegion (region : Option Nat) (body : Nat → Code Lock) : Code Lock :=
  (Code.skip.critical .state).seq <|
    match region with
    | some r => body r
    | none => .skip

/-- `uck_handle_invalidate`. -/
def uckHandleInvalidate (region : Option Nat) : Code Lock :=
  withRegion region fun r => Code.skip.critical (.region r)

/-- `uck_handle_page_request`; without memory for the zero page it returns at once. -/
def uckHandlePageRequest (zeroPage : Bool) (region : Option Nat) : Code Lock :=
  if zeroPage then withRegion region fun r => Code.skip.critical (.region r) else .skip

/-- `uck_handle_batch_page_req`, for a request that is accepted or not. -/
def uckHandleBatchPageReq (accepted : Bool) (region : Option Nat) (offsets : List Nat) : Code Lock :=
  if accepted then withRegion region fun r => .each (fun _ => Code.skip.critical (.region r)) offsets else .skip

/-- `uck_futex_wait_local`; the table of waiters has a spinlock of its own. -/
def uckFutexWaitLocal (region : Option Nat) : Code Lock :=
  withRegion region fun r => Code.skip.critical (.region r)

/-- `uck_cleanup_regions`, with the active regions. -/
def uckCleanupRegions (active : List Nat) : Code Lock := .each (fun r => Code.skip.critical (.region r)) active

/-! ## Membership -/

/-- `uck_handle_node_announce`: a new node is announced to the other living nodes after the state lock is released. -/
def uckHandleNodeAnnounce (accepted alreadyKnown : Bool) (sends : List Send) : Code Lock :=
  if accepted then (Code.skip.critical .state).seq (if alreadyKnown then .skip else broadcast sends) else .skip

/-- `uck_handle_node_leave`: the regions of the leaving node are locked under the state lock. -/
def uckHandleNodeLeave (owned : List Nat) : Code Lock :=
  Code.critical .state (.each (fun r => Code.skip.critical (.region r)) owned)

/-- One round of `uck_heartbeat_thread`: the heartbeat and the cgroup statistics for each node. -/
def heartbeatRound (sends : List (Send × Send)) : Code Lock :=
  .each (fun s => (uckNetSendToNode s.1).seq (uckNetSendToNode s.2)) sends

/-! ## Jobs -/

/-- `uck_submit_remote_exec`: `slot` says that a slot was free, `remote` has the two sends of a remote job. -/
def uckSubmitRemoteExec (slot : Bool) (remote : Option (Send × Send)) : Code Lock :=
  (Code.skip.critical .jobs).seq <|
    if slot then
      (Code.skip.critical .jobs).seq <|
        match remote with
        | none => .skip
        | some (hdr, wire) =>
          (uckNetSendToNode hdr).seq <|
            if hdr.Failed then Code.skip.critical .jobs
            else (uckNetSendToNode wire).seq (if wire.Failed then Code.skip.critical .jobs else .skip)
    else .skip

/-- `uck_local_exec_thread`: the result of a foreign job is sent in two parts. -/
def uckLocalExecThread (foreign : Option (Send × Send)) : Code Lock :=
  (Code.skip.critical .jobs).seq <| (Code.skip.critical .jobs).seq <|
    match foreign with
    | none => .skip
    | some (hdr, result) => (uckNetSendToNode hdr).seq (uckNetSendToNode result)

/-- `uck_handle_exec_req`, `uck_handle_exec_started` and `uck_handle_exec_done`, for a payload that is received or
not; `uck_query_jobs` and `uck_proc_jobs_show` lock like a received one. -/
def uckHandleExec (received : Bool) : Code Lock := if received then Code.skip.critical .jobs else .skip

/-! ## The operations -/

inductive Op
  | fault (r : Nat) (f : FaultRun)
  | pageMkwrite (region : Option Nat) (entry : Option (PageEntry Unit)) (sends : List Send)
  | fetchPagesBatch (r : Nat) (b : BatchRun)
  | handleInvalidate (region : Option Nat)
  | handlePageRequest (zeroPage : Bool) (region : Option Nat)
  | handleBatchPageReq (accepted : Bool) (region : Option Nat) (offsets : List Nat)
  | handleNodeAnnounce (accepted alreadyKnown : Bool) (sends : List Send)
  | handleNodeLeave (owned : List Nat)
  | cleanupRegions (active : List Nat)
  | futexWait (region : Option Nat)
  | futexWake (sends : List Send)
  | submitRemoteExec (slot : Bool) (remote : Option (Send × Send))
  | localExecThread (foreign : Option (Send × Send))
  | handleExec (received : Bool)
  | sendToNode (s : Send)
  | heartbeat (sends : List (Send × Send))
  /-- `uck_mmap` and the ioctls that set or add a node or create or join a region. -/
  | underState
  deriving DecidableEq, Repr

def Op.code : Op → Code Lock
  | .fault r f => uckFault r f
  | .pageMkwrite region entry sends => uckPageMkwrite region entry sends
  | .fetchPagesBatch r b => uckNetFetchPagesBatch r b
  | .handleInvalidate region => uckHandleInvalidate region
  | .handlePageRequest zeroPage region => uckHandlePageRequest zeroPage region
  | .handleBatchPageReq accepted region offsets => uckHandleBatchPageReq accepted region offsets
  | .handleNodeAnnounce accepted alreadyKnown sends => uckHandleNodeAnnounce accepted alreadyKnown sends
  | .handleNodeLeave owned => uckHandleNodeLeave owned
  | .cleanupRegions active => uckCleanupRegions active
  | .futexWait region => uckFutexWaitLocal region
  | .futexWake sends => broadcast sends
  | .submitRemoteExec slot remote => uckSubmitRemoteExec slot remote
  | .localExecThread foreign => uckLocalExecThread foreign
  | .handleExec received => uckHandleExec received
  | .sendToNode s => uckNetSendToNode s
  | .heartbeat sends => heartbeatRound sends
  | .underState => Code.skip.critical .state

/-- The batch fetch receives a page. -/
def BatchRun.Receives (b : BatchRun) : Prop := b.owner.isSome ∧ b.answered = true ∧ b.received ≠ []

instance (b : BatchRun) : Decidable b.Receives := inferInstanceAs (Decidable (_ ∧ _))

/-- The fault takes the path through a batch fetch. -/
def FaultRun.Batches (f : FaultRun) : Prop :=
  f.mapped = true ∧ f.enter.isFetch = true ∧ f.rdma = false ∧ 1 < f.nrPrefetch

instance (f : FaultRun) : Decidable f.Batches := inferInstanceAs (Decidable (_ ∧ _))

/-- The operation contains a batch fetch that receives a page. -/
def Op.Receives : Op → Prop
  | .fault _ f => f.Batches ∧ f.batch.Receives
  | .fetchPagesBatch _ b => b.Receives
  | _ => False

instance : DecidablePred Op.Receives
  | .fault _ f => inferInstanceAs (Decidable (f.Batches ∧ f.batch.Receives))
  | .fetchPagesBatch _ b => inferInstanceAs (Decidable b.Receives)
  | .pageMkwrite .. | .handleInvalidate .. | .handlePageRequest .. | .handleBatchPageReq .. | .handleNodeAnnounce ..
  | .handleNodeLeave .. | .cleanupRegions .. | .futexWait .. | .futexWake .. | .submitRemoteExec ..
  | .localExecThread .. | .handleExec .. | .sendToNode .. | .heartbeat .. | .underState =>
    inferInstanceAs (Decidable False)

/-! ## The order of each operation -/

section Order

variable {held : List Lock}

@[simp] theorem ordered_send (h : ∀ l ∈ held, l.rank < 4) (s : Send) :
    Ordered Lock.rank held (uckNetSendToNode s).acts := by
  unfold uckNetSendToNode
  split
  · exact (ordered_critical _ _).2 ⟨h, ordered_skip⟩
  · exact ordered_skip

theorem ordered_broadcast (h : ∀ l ∈ held, l.rank < 4) (sends : List Send) :
    Ordered Lock.rank held (broadcast sends).acts :=
  (ordered_each _ _).2 fun s _ => ordered_send h s

@[simp] theorem ordered_broadcast_nil (sends : List Send) : Ordered Lock.rank [] (broadcast sends).acts :=
  ordered_broadcast (by simp) sends

/-- The invalidations of a write, which are sent under the region lock. -/
@[simp] theorem ordered_broadcast_region (r : Nat) (sends : List Send) :
    Ordered Lock.rank [.region r] (broadcast sends).acts :=
  ordered_broadcast (by simp [Lock.rank]) sends

/-- Below the lock of a socket no region lock is in order. -/
theorem ordered_batch_iff (r : Nat) (b : BatchRun) :
    Ordered Lock.rank [] (uckNetFetchPagesBatch r b).acts ↔ ¬ b.Receives := by
  unfold uckNetFetchPagesBatch BatchRun.Receives
  cases b.owner with
  | none => simp
  | some n =>
    cases b.answered with
    | false => simp
    | true =>
      cases b.received with
      | nil => simp [Code.each]
      | cons a as =>
        -- The first page already breaks the order.
        refine iff_of_false (fun h => ?_) (by simp)
        rw [ordered_critical, if_pos rfl, ordered_each] at h
        have hlt := ((ordered_critical _ _).1 (h.2 a List.mem_cons_self)).1 (.sock n) List.mem_cons_self
        exact absurd hlt (by simp [Lock.rank])

@[simp] theorem ordered_faultInstall (r : Nat) (f : FaultRun) : Ordered Lock.rank [] (faultInstall r f).acts := by
  simp [faultInstall]

/-- What follows a batch fetch is in order, whatever the batch brought. -/
@[simp] theorem ordered_faultAfterBatch (r : Nat) (f : FaultRun) :
    Ordered Lock.rank [] (faultAfterBatch r f).acts := by
  unfold faultAfterBatch
  split <;> simp

theorem ordered_faultFetch_iff (r : Nat) (f : FaultRun) :
    Ordered Lock.rank [] (faultFetch r f).acts ↔ ¬ (f.rdma = false ∧ 1 < f.nrPrefetch ∧ f.batch.Receives) := by
  unfold faultFetch
  cases f.rdma with
  | true => simp
  | false => simp [ordered_batch_iff]

theorem ordered_fault_iff (r : Nat) (f : FaultRun) :
    Ordered Lock.rank [] (uckFault r f).acts ↔ ¬ (f.Batches ∧ f.batch.Receives) := by
  unfold uckFault FaultRun.Batches
  cases f.mapped with
  | false => simp
  | true =>
    cases f.enter with
    | hit e inv => simp [FaultEnter.isFetch]
    | wait e => simp [FaultEnter.isFetch]
    | oom e => simp [FaultEnter.isFetch]
    | fetch e => simp [FaultEnter.isFetch, ordered_faultFetch_iff, and_assoc]

theorem ordered_withRegion (region : Option Nat) {body : Nat → Code Lock}
    (h : ∀ r, Ordered Lock.rank [] (body r).acts) : Ordered Lock.rank [] (withRegion region body).acts := by
  unfold withRegion
  cases region with
  | some r => simp [h r]
  | none => simp

/-- **The documented order holds in every operation but a batch fetch that receives a page**, be it on its own or
inside a fault. -/
theorem ordered_iff (op : Op) : Ordered Lock.rank [] op.code.acts ↔ ¬ op.Receives := by
  cases op with
  | fault r f => exact ordered_fault_iff r f
  | fetchPagesBatch r b => exact ordered_batch_iff r b
  | pageMkwrite region entry sends =>
    cases region <;> simp [Op.code, Op.Receives, uckPageMkwrite]
  | handleInvalidate region => exact iff_of_true (ordered_withRegion region (by simp)) id
  | futexWait region => exact iff_of_true (ordered_withRegion region (by simp)) id
  | handlePageRequest zeroPage region =>
    simp [Op.code, Op.Receives, uckHandlePageRequest, ordered_withRegion region]
  | handleBatchPageReq accepted region offsets =>
    simp [Op.code, Op.Receives, uckHandleBatchPageReq, ordered_withRegion region]
  | handleNodeAnnounce accepted alreadyKnown sends => simp [Op.code, Op.Receives, uckHandleNodeAnnounce]
  | handleNodeLeave owned => simp [Op.code, Op.Receives, uckHandleNodeLeave, Lock.rank]
  | cleanupRegions active => simp [Op.code, Op.Receives, uckCleanupRegions]
  | futexWake sends => simp [Op.code, Op.Receives]
  | submitRemoteExec slot remote =>
    cases remote <;> simp [Op.code, Op.Receives, uckSubmitRemoteExec]
  | localExecThread foreign =>
    cases foreign <;> simp [Op.code, Op.Receives, uckLocalExecThread]
  | handleExec received => simp [Op.code, Op.Receives, uckHandleExec]
  | sendToNode s => simp [Op.code, Op.Receives]
  | heartbeat sends => simp [Op.code, Op.Receives, heartbeatRound]
  | underState => simp [Op.code, Op.Receives]

end Order

/-! ## Runs -/

/-- A thread that asks for a lock holds only locks of lower rank, and no threads wait for each other in a circle. -/
def InOrder (ts : List (Thread Lock)) : Prop :=
  (∀ i l h, Wants ts i l → Holds ts i h → h.rank < l.rank) ∧ ¬ Deadlock ts

/-- In a run that starts only operations without such a batch fetch, every state reached is in order. -/
theorem lockOrder (es : List (Event Op)) (h : ∀ op, .start op ∈ es → ¬ op.Receives) :
    Always (step Op.code) InOrder [] es := by
  refine Always.of_eachStep (G := fun _ e => ∀ op, e = .start op → ¬ op.Receives) (Disciplined Lock.rank) ?_ ?_ ?_ ?_
  · intro ts e ts' hd hg hs
    exact step_disciplined hd (fun op he => (ordered_iff op).2 (hg op he)) hs
  · intro ts hd
    exact ⟨fun i l m hw hh => hd.below hw hh, Disciplined.no_deadlock (R := Nat) hd⟩
  · intro t ht
    cases ht
  · exact EachStep.of_forall fun s e he op ho => h op (ho ▸ he)

/-- A write fault on a shared page: region 0, whose other node is in slot 0. -/
def upgrade : Op :=
  .fault 0 { mapped := true, isWrite := true, entry := some ⟨some (), .shared, 1, false⟩, allocs := ⟨true, true, true⟩,
             rdma := false, nrPrefetch := 0, batch := ⟨none, false, []⟩, after := none, fetched := false,
             invalidates := [⟨some 0, true⟩] }

/-- A read fault on a page that nobody has, with a prefetch of two pages from the owner in slot 0. -/
def prefetch : Op :=
  .fault 0 { mapped := true, isWrite := false, entry := none, allocs := ⟨true, true, true⟩, rdma := false,
             nrPrefetch := 2, batch := ⟨some 0, true, [true, true]⟩, after := some ⟨some (), .shared, 1, false⟩,
             fetched := true, invalidates := [] }

/-- A fault that invalidates the remote copies, beside the leave of a node with that region. -/
theorem upgrade_beside_leave :
    run (step Op.code) [] [.start upgrade, .start (.handleNodeLeave [0]), .act 1, .act 0, .act 0, .act 0, .act 0] =
      some [⟨[], []⟩, ⟨[.state], [.lock (.region 0), .unlock (.region 0), .unlock .state]⟩] ∧
    Always (step Op.code) InOrder []
      [.start upgrade, .start (.handleNodeLeave [0]), .act 1, .act 0, .act 0, .act 0, .act 0] :=
  ⟨by decide, lockOrder _ (by simp [upgrade, Op.Receives, FaultRun.Batches])⟩

/-- The prefetching fault takes the region lock with the socket lock in its hand; when the other fault has taken the
region lock in between and asks for the socket lock to send its invalidation, neither goes on. -/
theorem faults_deadlock :
    (∃ ts, run (step Op.code) [] (.start prefetch :: List.replicate 5 (.act 0)) = some ts ∧
      Holds ts 0 (.sock 0) ∧ Wants ts 0 (.region 0) ∧ (step Op.code ts (.act 0)).isSome) ∧
    ∃ ts, run (step Op.code) []
        (.start prefetch :: .start upgrade :: (List.replicate 5 (.act 0) ++ [.act 1])) = some ts ∧
      Deadlock ts := by
  refine ⟨⟨_, rfl, ⟨_, rfl, by decide⟩, ⟨_, _, rfl⟩, by decide⟩, _, rfl, 0, ?_⟩
  refine Relation.TransGen.tail (b := 1) (.single ?_) ?_
  · exact ⟨.region 0, ⟨_, _, rfl⟩, _, rfl, by decide⟩
  · exact ⟨.sock 0, ⟨_, _, rfl⟩, _, rfl, by decide⟩

end UckSmp.Locks
