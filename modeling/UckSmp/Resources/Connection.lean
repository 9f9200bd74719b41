import UckSmp.Resources.Incoming

/-!
# What a connection holds

`uck_handle_client` and the handlers of its messages, by the handles that they acquire, use and give up. The results of
the calls of the kernel and what the handlers find are part of the messages.

* `dispatch_spec`: what the handler of a message leaves behind.
* `dispatch_stuck`: a handler that serves a cached page uses it without holding anything that keeps it.
* `uckHandleClient_spec`: what a connection leaves behind, over any messages.
* `left_eq_zero_iff`: when that is nothing.
-/

namespace UckSmp.Resources

open Lib.Handles

/-! ## Messages -/

/-- A payload of a fixed length: whether the header says that length, and whether it is received. -/
structure Payload where
  sized : Bool
  received : Bool
  deriving DecidableEq, Repr

/-- An entry of the table of nodes, when a new node is announced to it. -/
structure Peer where
  isNew : Bool
  alive : Bool
  connected : Bool
  connect : Connect
  deriving DecidableEq, Repr

/-- A message, with what its handler finds. Memory that is asked for comes under the name of its variable. -/
inductive Msg
  | pageReq (zeroPage region entry : Bool)
  | invalidate (region entry : Bool)
  | heartbeat (p : Payload) (tfm desc hmacOk : Bool)
  | migrateReq
  | procState (e : Incoming)
  | execReq (p : Payload) (slot ctx thread : Bool)
  | execStarted (p : Payload)
  | execDone (p : Payload)
  | batchPageReq (p : Payload) (inRange zeroPage region : Bool) (entries : List Bool)
  | nodeAnnounce (p : Payload) (stale known : Bool) (peers : List Peer)
  /-- Whether the table has a socket of the node, and which regions belong to the node. -/
  | nodeLeave (sock : Bool) (regions : List Bool)
  | futexWait (payload discard : Bool)
  | futexWake (p : Payload)
  | futexWakeNack
  | cgroupStats (p : Payload)
  | unknown
  deriving DecidableEq, Repr

/-- A turn of the loop of `uck_handle_client`: whether the node has a bucket and the bucket a token, whether the epoch
of the message is old, and the message. -/
structure Turn where
  bucket : Bool
  token : Bool
  stale : Bool
  msg : Msg
  deriving DecidableEq, Repr

/-! ## Handlers -/

section Code

variable (atomic : Handle → Bool)

/-- A section inside a mutex that does nothing with other handles. -/
def locked (h : Handle) : Code Unit := do
  lock atomic h
  release h
  pure ()

/-- What a handler does once it has its payload. -/
def onPayload (p : Payload) (k : Code Unit) : Code Unit := do
  if p.sized then do
    blocking atomic [.client]
    if p.received then k else pure ()
  else pure ()

/-- A section inside the lock of a region, with `uck_page_lookup`. What it finds is not to be used after it. -/
def lookup (entry : Bool) : Code Unit := do
  lock atomic .regionLock
  if entry then do
    acquire .cached
    use .cached
    release .cached
    release .regionLock
    pure ()
  else do
    release .regionLock
    pure ()

/-- The page that was looked up is sent, or zeros. -/
def sendEntry (entry : Bool) : Code Unit := do
  if entry then do
    blocking atomic [.cached]
    acquire .mapping
    blocking atomic [.client, .mapping, .cached]
    release .mapping
    pure ()
  else blocking atomic [.client, .zeroPage]

/-- `uck_handle_page_request`. -/
def uckHandlePageRequest (zeroPage region entry : Bool) : Code Unit := do
  let ok ← kmalloc atomic zeroPage .zeroPage
  if ok then do
    locked atomic .stateLock
    if region then do
      lookup atomic entry
      blocking atomic [.client]
      sendEntry atomic entry
      release .zeroPage
      pure ()
    else do
      blocking atomic [.client]
      release .zeroPage
      pure ()
  else pure ()

/-- `uck_handle_invalidate`. -/
def uckHandleInvalidate (region entry : Bool) : Code Unit := do
  locked atomic .stateLock
  if region then do
    lookup atomic entry
    blocking atomic [.client]
  else blocking atomic [.client]

/-- `uck_compute_hmac`. -/
def uckComputeHmac (tfm desc : Bool) : Code Unit := do
  let ok ← kmalloc atomic tfm .tfm
  if ok then do
    use .tfm
    let ok ← kmalloc atomic desc .desc
    if ok then do
      use .desc
      use .tfm
      release .desc
      release .tfm
      pure ()
    else do
      release .tfm
      pure ()
  else pure ()

/-- `uck_handle_heartbeat`. -/
def uckHandleHeartbeat (p : Payload) (tfm desc hmacOk : Bool) : Code Unit :=
  onPayload atomic p do
    uckComputeHmac atomic tfm desc
    if hmacOk then pure () else uckAuditLog

/-- `uck_handle_migrate_request`. -/
def uckHandleMigrateRequest : Code Unit := blocking atomic [.client]

/-- `uck_exec_local`. The thread of the job frees its context; its start is not checked. -/
def uckExecLocal (ctx thread : Bool) : Code Unit := do
  let ok ← kmalloc atomic ctx .execCtx
  if ok then do
    blocking atomic [.execCtx]
    if thread then handOver .execCtx else pure ()
  else pure ()

/-- `uck_handle_exec_req`. -/
def uckHandleExecReq (p : Payload) (slot ctx thread : Bool) : Code Unit :=
  onPayload atomic p do
    locked atomic .jobsLock
    if slot then do
      uckExecLocal atomic ctx thread
      uckAuditLog
    else pure ()

/-- `uck_handle_exec_started`. -/
def uckHandleExecStarted (p : Payload) : Code Unit := onPayload atomic p (locked atomic .jobsLock)

/-- `uck_handle_exec_done`. -/
def uckHandleExecDone (p : Payload) : Code Unit := onPayload atomic p (locked atomic .jobsLock)

/-- `uck_handle_batch_page_req` once it has its payload. -/
def batchReply (inRange zeroPage region : Bool) (entries : List Bool) : Code Unit := do
  if inRange then do
    let ok ← kmalloc atomic zeroPage .zeroPage
    if ok then do
      locked atomic .stateLock
      blocking atomic [.client]
      if region then do
        each (fun entry => do
          lookup atomic entry
          sendEntry atomic entry) entries
        release .zeroPage
        pure ()
      else do
        release .zeroPage
        pure ()
    else pure ()
  else pure ()

/-- `uck_handle_batch_page_req`. -/
def uckHandleBatchPageReq (p : Payload) (inRange zeroPage region : Bool) (entries : List Bool) : Code Unit :=
  onPayload atomic p (batchReply atomic inRange zeroPage region entries)

def ensureConnected (peer : Peer) : Code Int :=
  if peer.connected then pure 0 else uckNetConnectNode atomic peer.connect

/-- `uck_net_send_msg_to_node`, for a node of the table. -/
def uckNetSendMsgToNode (peer : Peer) : Code Unit := do
  let ret ← ensureConnected atomic peer
  if ret < 0 then pure ()
  else do
    lock atomic .sockLock
    blocking atomic [.sockLock]
    release .sockLock
    pure ()

/-- `uck_handle_node_announce`. -/
def uckHandleNodeAnnounce (p : Payload) (stale known : Bool) (peers : List Peer) : Code Unit :=
  onPayload atomic p do
    if stale then uckAuditLog
    else do
      locked atomic .stateLock
      blocking atomic [.client]
      if known then uckAuditLog
      else do
        each (fun peer => if peer.isNew || !peer.alive then pure () else uckNetSendMsgToNode atomic peer) peers
        uckAuditLog

/-- The socket of a node is taken out of the table, where `uck_net_stop` would have released it. -/
def takeSock (sock : Bool) : Code Unit := if sock then acquire .nodeSock else pure ()

/-- `uck_handle_node_leave`. -/
def uckHandleNodeLeave (sock : Bool) (regions : List Bool) : Code Unit := do
  lock atomic .stateLock
  takeSock sock
  each (fun owned => if owned then locked atomic .regionLock else pure ()) regions
  release .stateLock
  uckAuditLog
  blocking atomic [.client]

/-- `uck_handle_futex_wait`. -/
def uckHandleFutexWait (payload discard : Bool) : Code Unit := do
  if payload then do
    let ok ← kmalloc atomic discard .discard
    if ok then do
      blocking atomic [.client, .discard]
      release .discard
      pure ()
    else pure ()
  else pure ()

/-- `uck_handle_futex_wake`. -/
def uckHandleFutexWake (p : Payload) : Code Unit := onPayload atomic p (spin .futexLock)

/-- `uck_handle_cgroup_stats`. -/
def uckHandleCgroupStats (p : Payload) : Code Unit := onPayload atomic p (pure ())

/-- The `switch` of `uck_handle_client`. -/
def dispatch : Msg → Code Unit
  | .pageReq zeroPage region entry => uckHandlePageRequest atomic zeroPage region entry
  | .invalidate region entry => uckHandleInvalidate atomic region entry
  | .heartbeat p tfm desc hmacOk => uckHandleHeartbeat atomic p tfm desc hmacOk
  | .migrateReq => uckHandleMigrateRequest atomic
  | .procState e => uckHandleProcState atomic e
  | .execReq p slot ctx thread => uckHandleExecReq atomic p slot ctx thread
  | .execStarted p => uckHandleExecStarted atomic p
  | .execDone p => uckHandleExecDone atomic p
  | .batchPageReq p inRange zeroPage region entries => uckHandleBatchPageReq atomic p inRange zeroPage region entries
  | .nodeAnnounce p stale known peers => uckHandleNodeAnnounce atomic p stale known peers
  | .nodeLeave sock regions => uckHandleNodeLeave atomic sock regions
  | .futexWait payload discard => uckHandleFutexWait atomic payload discard
  | .futexWake p => uckHandleFutexWake atomic p
  | .futexWakeNack => pure ()
  | .cgroupStats p => uckHandleCgroupStats atomic p
  | .unknown => pure ()

/-- `uck_ratelimit_check_net`. A node without a bucket is let through. -/
def uckRatelimitCheckNet (bucket token : Bool) : Code Bool := do
  if bucket then do
    spin .limitLock
    if token then pure true
    else do
      uckAuditLog
      pure false
  else pure true

/-- `uck_handle_client`. The end of the list is a header that is not received. -/
def uckHandleClient : List Turn → Code Unit
  | [] => do
    blocking atomic [.client]
    release .client
    pure ()
  | t :: ts => do
    blocking atomic [.client]
    let ok ← uckRatelimitCheckNet t.bucket t.token
    if ok then
      if t.stale then uckHandleClient ts
      else do
        dispatch atomic t.msg
        uckHandleClient ts
    else pure ()

end Code

/-! ## What is left -/

/-- The handler of the message sends a page of the cache. -/
def Msg.servesCached : Msg → Bool
  | .pageReq zeroPage region entry => zeroPage && region && entry
  | .batchPageReq p inRange zeroPage region entries =>
    p.sized && p.received && inRange && zeroPage && region && entries.contains true
  | _ => false

/-- The handler of the message leaves something behind. -/
def Msg.leaky : Msg → Bool
  | .procState e => e.checked && !e.crcOk
  | .execReq p slot ctx thread => p.sized && p.received && slot && ctx && !thread
  | .nodeLeave sock _ => sock
  | _ => false

/-- What the handler of the message leaves behind. -/
def Msg.left : Msg → Multiset Handle
  | .procState e => e.left
  | .execReq p slot ctx thread =>
    if (Msg.execReq p slot ctx thread).leaky then .execCtx ::ₘ 0 else 0
  | .nodeLeave sock _ => if sock then .nodeSock ::ₘ 0 else 0
  | _ => 0

/-- The message passes the rate limit. -/
def Turn.allowed (t : Turn) : Bool := !t.bucket || t.token

/-- What a connection leaves behind. -/
def left : List Turn → Multiset Handle
  | [] => 0
  | t :: ts => if t.allowed then if t.stale then left ts else t.msg.left + left ts else .client ::ₘ 0

/-- A page of the cache is sent on the connection. -/
def servesCached : List Turn → Bool
  | [] => false
  | t :: ts => t.allowed && (!t.stale && t.msg.servesCached || servesCached ts)

theorem Incoming.left_eq_zero_iff (e : Incoming) : e.left = 0 ↔ (e.checked && !e.crcOk) = false := by
  unfold left incMemory
  split
  · rename_i hleak
    simp only [hleak]
    split <;> simp
  · rename_i hleak
    simpa using hleak

theorem Msg.left_eq_zero_iff (m : Msg) : m.left = 0 ↔ m.leaky = false := by
  cases m with
  | procState e => exact e.left_eq_zero_iff
  | execReq p slot ctx thread =>
    cases hleaky : (execReq p slot ctx thread).leaky with
    | true => simp [left, hleaky]
    | false => simp [left, hleaky]
  | nodeLeave sock regions => cases sock <;> simp [left, leaky]
  | _ => simp [left, leaky]

/-- **Nothing is left** exactly if no message is cut off by the rate limit and no handler leaves something. -/
theorem left_eq_zero_iff (ts : List Turn) :
    left ts = 0 ↔ ∀ t ∈ ts, t.allowed = true ∧ (t.stale = true ∨ t.msg.leaky = false) := by
  induction ts with
  | nil => simp [left]
  | cons t ts ih =>
    rw [List.forall_mem_cons, ← ih, left]
    cases hallowed : t.allowed with
    | false => simp
    | true =>
      cases hstale : t.stale with
      | true => simp
      | false =>
        simp only [if_true, Bool.false_eq_true, if_false, true_and, false_or]
        rw [← Msg.left_eq_zero_iff]
        simp only [Multiset.eq_zero_iff_forall_notMem, Multiset.mem_add, not_or, forall_and]

section Spec

variable {atomic : Handle → Bool} {P : Multiset Handle}

theorem locked_spec {h : Handle} (hP : Quiet atomic P) : Spec atomic P (locked atomic h) fun _ H => H = P :=
  Spec.lock hP (Spec.releaseLast (Spec.pure rfl))

theorem Spec.locked {β : Type} {R : β → Multiset Handle → Prop} {h : Handle} {f : Unit → Code β} (hP : Quiet atomic P)
    (hf : Spec atomic P (f ()) R) : Spec atomic P (locked atomic h >>= f) R := (locked_spec hP).andThen fun _ => hf

theorem lookup_spec (entry : Bool) (hP : Quiet atomic P) :
    Spec atomic P (lookup atomic entry) fun _ H => H = P := by
  refine Spec.lock hP ?_
  cases entry with
  | true => exact Spec.acquire _ (Spec.use (by simp) (Spec.releaseLast (Spec.releaseLast (Spec.pure rfl))))
  | false => exact Spec.releaseLast (Spec.pure rfl)

theorem uckComputeHmac_spec (hl : Lax atomic) (tfm desc : Bool) (hP : Quiet atomic P) :
    Spec atomic P (uckComputeHmac atomic tfm desc) fun _ H => H = P := by
  refine Spec.kmalloc hP (fun _ => ?_) fun _ => Spec.pure rfl
  refine Spec.use (by simp) ?_
  refine Spec.kmalloc (quiet_cons.2 ⟨hl.eq_false rfl, hP⟩) (fun _ => ?_) fun _ => ?_
  · refine Spec.use (by simp) ?_
    refine Spec.use (by simp) ?_
    exact Spec.releaseLast (Spec.releaseLast (Spec.pure rfl))
  · exact Spec.releaseLast (Spec.pure rfl)

theorem uckNetSendMsgToNode_spec (hl : Lax atomic) (peer : Peer) (hP : Quiet atomic P) :
    Spec atomic P (uckNetSendMsgToNode atomic peer) fun _ H => H = P := by
  have hconnect : Spec atomic P (ensureConnected atomic peer) fun _ H => H = P := by
    unfold ensureConnected
    split
    · exact Spec.pure rfl
    · exact uckNetConnectNode_spec hl peer.connect hP
  refine hconnect.andThen fun ret => ?_
  split
  · exact Spec.pure rfl
  · refine Spec.lock hP ?_
    refine Spec.blocking (quiet_cons.2 ⟨hl.eq_false rfl, hP⟩) (by simp) ?_
    exact Spec.releaseLast (Spec.pure rfl)

section Client

variable (hl : Lax atomic) (hP : Quiet atomic P) (hc : .client ∈ P)

include hP hc

theorem onPayload_spec {p : Payload} {k : Code Unit} {L : Multiset Handle}
    (hk : p.sized = true → p.received = true → Spec atomic P k fun _ H => H = L + P)
    (hnone : (p.sized && p.received) = false → L = 0) : Spec atomic P (onPayload atomic p k) fun _ H => H = L + P := by
  unfold onPayload
  cases hsized : p.sized with
  | false => exact Spec.pure (by simp [hnone, hsized])
  | true =>
    refine Spec.blocking hP (by simpa using hc) ?_
    cases hrec : p.received with
    | false => exact Spec.pure (by simp [hnone, hrec])
    | true => exact hk hsized hrec

/-- A handler that gives up what it acquires. -/
theorem onPayload_balanced {p : Payload} {k : Code Unit} (hk : Spec atomic P k fun _ H => H = P) :
    Spec atomic P (onPayload atomic p k) fun _ H => H = P := by
  have h := onPayload_spec hP hc (p := p) (k := k) (L := 0) (fun _ _ => by simpa using hk) fun _ => rfl
  simpa using h

theorem sendZeros_spec (hz : .zeroPage ∈ P) : Spec atomic P (sendEntry atomic false) fun _ H => H = P :=
  blocking_spec hP (by simp [hc, hz])

include hl

theorem uckHandlePageRequest_spec {zeroPage region entry : Bool}
    (hserves : (Msg.pageReq zeroPage region entry).servesCached = false) :
    Spec atomic P (uckHandlePageRequest atomic zeroPage region entry) fun _ H => H = P := by
  refine Spec.kmalloc hP (fun hzero => ?_) fun _ => Spec.pure rfl
  have hquiet : Quiet atomic (.zeroPage ::ₘ P) := quiet_cons.2 ⟨hl.eq_false rfl, hP⟩
  have hclient : .client ∈ .zeroPage ::ₘ P := Multiset.mem_cons_of_mem hc
  refine Spec.locked hquiet ?_
  cases region with
  | true =>
    obtain rfl : entry = false := by simpa [Msg.servesCached, hzero] using hserves
    refine (lookup_spec false hquiet).andThen fun _ => ?_
    refine Spec.blocking hquiet (by simpa using hc) ?_
    refine (sendZeros_spec hquiet hclient (by simp)).andThen fun _ => ?_
    exact Spec.releaseLast (Spec.pure rfl)
  | false => exact Spec.blocking hquiet (by simpa using hc) (Spec.releaseLast (Spec.pure rfl))

theorem uckHandleBatchPageReq_spec {p : Payload} {inRange zeroPage region : Bool} {entries : List Bool}
    (hserves : (Msg.batchPageReq p inRange zeroPage region entries).servesCached = false) :
    Spec atomic P (uckHandleBatchPageReq atomic p inRange zeroPage region entries) fun _ H => H = P := by
  have hspec := onPayload_spec hP hc (p := p) (L := 0) (k := batchReply atomic inRange zeroPage region entries)
    (fun hsized hrec => ?_) fun _ => rfl
  · rwa [Multiset.zero_add] at hspec
  rw [Multiset.zero_add]
  cases inRange with
  | false => exact Spec.pure rfl
  | true =>
    refine Spec.kmalloc hP (fun hzero => ?_) fun _ => Spec.pure rfl
    have hquiet : Quiet atomic (.zeroPage ::ₘ P) := quiet_cons.2 ⟨hl.eq_false rfl, hP⟩
    have hclient : .client ∈ .zeroPage ::ₘ P := Multiset.mem_cons_of_mem hc
    refine Spec.locked hquiet ?_
    refine Spec.blocking hquiet (by simpa using hc) ?_
    cases region with
    | true =>
      have hnone : true ∉ entries := by simpa [Msg.servesCached, hsized, hrec, hzero] using hserves
      refine Spec.andThen (Spec.each fun entry hentry => ?_) fun _ => Spec.releaseLast (Spec.pure rfl)
      obtain rfl : entry = false := by
        cases entry with
        | true => exact absurd hentry hnone
        | false => rfl
      exact (lookup_spec false hquiet).andThen fun _ => sendZeros_spec hquiet hclient (by simp)
    | false => exact Spec.releaseLast (Spec.pure rfl)

theorem uckHandleExecReq_spec (p : Payload) (slot ctx thread : Bool) :
    Spec atomic P (uckHandleExecReq atomic p slot ctx thread) fun _ H =>
      H = (Msg.execReq p slot ctx thread).left + P := by
  refine onPayload_spec hP hc (fun hsized hrec => ?_) fun hnone => ?_
  · refine Spec.locked hP ?_
    cases slot with
    | false => exact Spec.pure (by simp [Msg.left, Msg.leaky])
    | true =>
      have hexec : Spec atomic P (uckExecLocal atomic ctx thread) fun _ H =>
          H = (Msg.execReq p true ctx thread).left + P := by
        refine Spec.kmalloc hP (fun hctx => ?_) fun hctx => Spec.pure (by simp [Msg.left, Msg.leaky, hctx])
        refine Spec.blocking (quiet_cons.2 ⟨hl.eq_false rfl, hP⟩) (by simp) ?_
        cases thread with
        | true =>
          refine (release_spec (Multiset.mem_cons_self _ _)).mono fun _ H hH => ?_
          simpa [Msg.left, Msg.leaky] using hH
        | false => exact Spec.pure (by simp [Msg.left, Msg.leaky, hctx, hsized, hrec])
      refine hexec.bind fun _ H hH => ?_
      rw [hH]
      exact spin_spec
  · simp [Msg.left, Msg.leaky, hnone]

theorem uckHandleNodeAnnounce_spec (p : Payload) (stale known : Bool) (peers : List Peer) :
    Spec atomic P (uckHandleNodeAnnounce atomic p stale known peers) fun _ H => H = P := by
  refine onPayload_balanced hP hc ?_
  cases stale with
  | true => exact spin_spec
  | false =>
    refine Spec.locked hP ?_
    refine Spec.blocking hP (by simpa using hc) ?_
    cases known with
    | true => exact spin_spec
    | false =>
      refine Spec.andThen (Spec.each fun peer _ => ?_) fun _ => spin_spec
      split
      · exact Spec.pure rfl
      · exact uckNetSendMsgToNode_spec hl peer hP

theorem uckHandleNodeLeave_spec (sock : Bool) (regions : List Bool) :
    Spec atomic P (uckHandleNodeLeave atomic sock regions) fun _ H => H = (Msg.nodeLeave sock regions).left + P := by
  have hsock : Quiet atomic ((Msg.nodeLeave sock regions).left + P) := by
    have hfalse : atomic .nodeSock = false := hl.eq_false rfl
    cases sock <;> simp [Msg.left, hfalse, hP]
  have htake : Spec atomic (.stateLock ::ₘ P) (takeSock sock) fun _ H =>
      H = .stateLock ::ₘ ((Msg.nodeLeave sock regions).left + P) := by
    cases sock with
    | true =>
      refine (acquire_spec _).mono fun _ H hH => ?_
      rw [hH, Multiset.cons_swap]
      simp [Msg.left]
    | false => exact Spec.pure (by simp [Msg.left])
  refine Spec.lock hP ?_
  refine htake.bind fun _ H hH => ?_
  rw [hH]
  refine Spec.andThen (Spec.each fun owned _ => ?_) fun _ => ?_
  · cases owned with
    | true => exact locked_spec (quiet_cons.2 ⟨hl.eq_false rfl, hsock⟩)
    | false => exact Spec.pure rfl
  · refine Spec.releaseLast ?_
    exact Spec.spin (blocking_spec hsock (by simp [hc]))

/-- **What the handler of a message leaves behind** that serves no cached page. -/
theorem dispatch_spec (m : Msg) (hserves : m.servesCached = false) :
    Spec atomic P (dispatch atomic m) fun _ H => H = m.left + P := by
  -- most handlers leave nothing
  have hbalanced : ∀ {m' : Msg}, m'.left = 0 → Spec atomic P (dispatch atomic m') (fun _ H => H = P) →
      Spec atomic P (dispatch atomic m') fun _ H => H = m'.left + P := by
    intro m' hleft h
    rwa [hleft, Multiset.zero_add]
  cases m with
  | pageReq zeroPage region entry => exact hbalanced rfl (uckHandlePageRequest_spec hl hP hc hserves)
  | invalidate region entry =>
    refine hbalanced rfl (Spec.locked hP ?_)
    have hsend : Spec atomic P (blocking atomic [.client]) fun _ H => H = P := blocking_spec hP (by simpa using hc)
    cases region with
    | true => exact (lookup_spec entry hP).andThen fun _ => hsend
    | false => exact hsend
  | heartbeat p tfm desc hmacOk =>
    refine hbalanced rfl (onPayload_balanced hP hc ?_)
    refine (uckComputeHmac_spec hl tfm desc hP).andThen fun _ => ?_
    cases hmacOk with
    | true => exact Spec.pure rfl
    | false => exact spin_spec
  | migrateReq => exact hbalanced rfl (blocking_spec hP (by simpa using hc))
  | procState e => exact uckHandleProcState_spec hl hP hc e
  | execReq p slot ctx thread => exact uckHandleExecReq_spec hl hP hc p slot ctx thread
  | execStarted p => exact hbalanced rfl (onPayload_balanced hP hc (locked_spec hP))
  | execDone p => exact hbalanced rfl (onPayload_balanced hP hc (locked_spec hP))
  | batchPageReq p inRange zeroPage region entries =>
    exact hbalanced rfl (uckHandleBatchPageReq_spec hl hP hc hserves)
  | nodeAnnounce p stale known peers =>
    exact hbalanced rfl (uckHandleNodeAnnounce_spec hl hP hc p stale known peers)
  | nodeLeave sock regions => exact uckHandleNodeLeave_spec hl hP hc sock regions
  | futexWait payload discard =>
    refine hbalanced rfl ?_
    cases payload with
    | true =>
      refine Spec.kmalloc hP (fun _ => ?_) fun _ => Spec.pure rfl
      refine Spec.blocking (quiet_cons.2 ⟨hl.eq_false rfl, hP⟩) (by simpa using hc) ?_
      exact Spec.releaseLast (Spec.pure rfl)
    | false => exact Spec.pure rfl
  | futexWake p => exact hbalanced rfl (onPayload_balanced hP hc spin_spec)
  | futexWakeNack => exact hbalanced rfl (Spec.pure rfl)
  | cgroupStats p => exact hbalanced rfl (onPayload_balanced hP hc (Spec.pure rfl))
  | unknown => exact hbalanced rfl (Spec.pure rfl)

end Client

theorem Msg.quiet_left (hl : Lax atomic) (m : Msg) : Quiet atomic m.left := by
  cases m with
  | procState e =>
    show Quiet atomic e.left
    unfold Incoming.left
    split
    · simpa using quiet_incMemory hl quiet_zero (decide (0 < e.stateLen)) (received 0 256 0 e.msgs).2
    · exact quiet_zero
  | execReq p slot ctx thread =>
    simp only [left]
    split
    · exact quiet_cons.2 ⟨hl.eq_false rfl, quiet_zero⟩
    · exact quiet_zero
  | nodeLeave sock regions =>
    cases sock with
    | true => exact quiet_cons.2 ⟨hl.eq_false rfl, quiet_zero⟩
    | false => exact quiet_zero
  | _ => exact quiet_zero

theorem uckRatelimitCheckNet_spec (t : Turn) :
    Spec atomic P (uckRatelimitCheckNet t.bucket t.token) fun ok H => ok = t.allowed ∧ H = P := by
  unfold uckRatelimitCheckNet Turn.allowed
  cases t.bucket with
  | false => exact Spec.pure ⟨rfl, rfl⟩
  | true =>
    refine Spec.spin ?_
    cases t.token with
    | true => exact Spec.pure ⟨rfl, rfl⟩
    | false => exact Spec.spin (Spec.pure ⟨rfl, rfl⟩)

/-- **A whole connection** on which no cached page is sent. What the handlers leave stays while the next messages are
handled. -/
theorem uckHandleClient_spec (hl : Lax atomic) (hP : Quiet atomic P) {ts : List Turn}
    (hserves : servesCached ts = false) :
    Spec atomic (.client ::ₘ P) (uckHandleClient atomic ts) fun _ H => H = left ts + P := by
  induction ts generalizing P with
  | nil =>
    refine Spec.blocking (quiet_cons.2 ⟨hl.eq_false rfl, hP⟩) (by simp) ?_
    exact Spec.releaseLast (Spec.pure (by simp [left]))
  | cons t ts ih =>
    have hquiet : Quiet atomic (.client ::ₘ P) := quiet_cons.2 ⟨hl.eq_false rfl, hP⟩
    refine Spec.blocking hquiet (by simp) ?_
    refine (uckRatelimitCheckNet_spec t).bind fun ok H hH => ?_
    obtain ⟨rfl, rfl⟩ := hH
    cases hallowed : t.allowed with
    | false => exact Spec.pure (by simp [left, hallowed])
    | true =>
      simp only [servesCached, hallowed, Bool.true_and, Bool.or_eq_false_iff] at hserves
      cases hstale : t.stale with
      | true => simpa [left, hallowed, hstale] using ih hP hserves.2
      | false =>
        have hmsg : t.msg.servesCached = false := by simpa [hstale] using hserves.1
        refine (dispatch_spec hl hquiet (Multiset.mem_cons_self _ _) t.msg hmsg).bind fun _ H hH => ?_
        rw [hH, Multiset.add_cons]
        refine (ih (quiet_add.2 ⟨t.msg.quiet_left hl, hP⟩) hserves.2).mono fun _ K hK => ?_
        rw [hK, left, if_pos hallowed, if_neg (by simp [hstale]), ← Multiset.add_assoc, Multiset.add_comm (left ts)]

end Spec

/-! ## Pages of the cache -/

/-- What the others hold while a connection serves a page: nothing that forbids sleeping, and not the page. -/
def Handle.barred (h : Handle) : Bool := h.atomic || h == .cached

section Borrowed

variable {α : Type} {P : Multiset Handle} {m : Code α} {Q : α → Multiset Handle → Prop}

theorem Spec.barred (h : Spec Handle.atomic P m Q) : Spec Handle.barred P m Q :=
  h.bar fun h hh => by simp [Handle.barred, hh]

variable (hP : Quiet Handle.atomic P) (hcached : .cached ∉ P)

include hP hcached

/-- The page is not held any more when it is sent. -/
theorem sendCached_stuck : Stuck Handle.barred P (sendEntry Handle.atomic true) := by
  refine Stuck.bind (Stuck.andThen (Spec.barred (sleep_spec hP)) fun _ => ?_)
  exact Stuck.bind (Stuck.bind (Stuck.use rfl hcached))

theorem uckHandlePageRequest_stuck (hc : .client ∈ P) :
    Stuck Handle.barred P (uckHandlePageRequest Handle.atomic true true true) := by
  have hquiet : Quiet Handle.atomic (.zeroPage ::ₘ P) := quiet_cons.2 ⟨rfl, hP⟩
  refine Stuck.after (Spec.barred (kmalloc_spec hP)) fun ok H hH => ?_
  obtain ⟨rfl, rfl⟩ := hH
  refine Stuck.andThen (Spec.barred (locked_spec hquiet)) fun _ => ?_
  refine Stuck.andThen (Spec.barred (lookup_spec true hquiet)) fun _ => ?_
  refine Stuck.andThen (Spec.barred (blocking_spec hquiet (by simpa using hc))) fun _ => ?_
  exact (sendCached_stuck hquiet (by simpa using hcached)).bind

theorem uckHandleBatchPageReq_stuck {p : Payload} {entries : List Bool} (hc : .client ∈ P) (hsized : p.sized = true)
    (hrec : p.received = true) (hentry : true ∈ entries) :
    Stuck Handle.barred P (uckHandleBatchPageReq Handle.atomic p true true true entries) := by
  have hquiet : Quiet Handle.atomic (.zeroPage ::ₘ P) := quiet_cons.2 ⟨rfl, hP⟩
  have hclient : .client ∈ .zeroPage ::ₘ P := Multiset.mem_cons_of_mem hc
  unfold uckHandleBatchPageReq onPayload
  rw [if_pos hsized, if_pos hrec]
  refine Stuck.andThen (Spec.barred (blocking_spec hP (by simpa using hc))) fun _ => ?_
  refine Stuck.after (Spec.barred (kmalloc_spec hP)) fun ok H hH => ?_
  obtain ⟨rfl, rfl⟩ := hH
  refine Stuck.andThen (Spec.barred (locked_spec hquiet)) fun _ => ?_
  refine Stuck.andThen (Spec.barred (blocking_spec hquiet (by simpa using hc))) fun _ => ?_
  refine (Stuck.each (fun entry (hbad : entry = true) => ?_) (fun entry hgood => ?_) ⟨true, hentry, rfl⟩).bind
  · subst hbad
    exact Stuck.andThen (Spec.barred (lookup_spec true hquiet)) fun _ =>
      sendCached_stuck hquiet (by simpa using hcached)
  · obtain rfl : entry = false := by simpa using hgood
    refine Spec.barred ((lookup_spec false hquiet).andThen fun _ => ?_)
    exact sendZeros_spec hquiet hclient (by simp)

/-- **A handler that serves a cached page** uses it after the lock of the region is given up. -/
theorem dispatch_stuck {m : Msg} (hc : .client ∈ P) (hserves : m.servesCached = true) :
    Stuck Handle.barred P (dispatch Handle.atomic m) := by
  cases m with
  | pageReq zeroPage region entry =>
    obtain ⟨⟨rfl, rfl⟩, rfl⟩ : (zeroPage = true ∧ region = true) ∧ entry = true := by
      simpa [Msg.servesCached] using hserves
    exact uckHandlePageRequest_stuck hP hcached hc
  | batchPageReq p inRange zeroPage region entries =>
    obtain ⟨⟨⟨⟨⟨hsized, hrec⟩, rfl⟩, rfl⟩, rfl⟩, hentry⟩ : ((((p.sized = true ∧ p.received = true) ∧ inRange = true) ∧
        zeroPage = true) ∧ region = true) ∧ true ∈ entries := by simpa [Msg.servesCached] using hserves
    exact uckHandleBatchPageReq_stuck hP hcached hc hsized hrec hentry
  | _ => cases hserves

end Borrowed

theorem Msg.cached_notMem_left (m : Msg) : .cached ∉ m.left := by
  cases m with
  | procState e =>
    show Handle.cached ∉ e.left
    unfold Incoming.left incMemory
    split
    · split <;> simp
    · simp
  | execReq p slot ctx thread =>
    simp only [left]
    split <;> simp
  | nodeLeave sock regions => cases sock <;> simp [left]
  | _ => simp [left]

/-- A connection on which a cached page is sent. -/
theorem uckHandleClient_stuck {P : Multiset Handle} (hP : Quiet Handle.atomic P) (hcached : .cached ∉ P)
    {ts : List Turn} (hserves : servesCached ts = true) :
    Stuck Handle.barred (.client ::ₘ P) (uckHandleClient Handle.atomic ts) := by
  induction ts generalizing P with
  | nil => cases hserves
  | cons t ts ih =>
    have hquiet : Quiet Handle.atomic (.client ::ₘ P) := quiet_cons.2 ⟨rfl, hP⟩
    have hclient : .client ∈ .client ::ₘ P := Multiset.mem_cons_self _ _
    have hnot : .cached ∉ .client ::ₘ P := by simpa using hcached
    simp only [servesCached, Bool.and_eq_true, Bool.or_eq_true, Bool.not_eq_true'] at hserves
    obtain ⟨hallowed, hserves⟩ := hserves
    refine Stuck.andThen (Spec.barred (blocking_spec hquiet (by simp))) fun _ => ?_
    refine Stuck.after (Spec.barred (uckRatelimitCheckNet_spec t)) fun ok H hH => ?_
    obtain ⟨rfl, rfl⟩ := hH
    rw [if_pos hallowed]
    cases hstale : t.stale with
    | true => exact ih hP hcached (hserves.resolve_left fun h => by simp [hstale] at h)
    | false =>
      cases hmsg : t.msg.servesCached with
      | true => exact (dispatch_stuck hquiet hnot hclient hmsg).bind
      | false =>
        have hrest := hserves.resolve_left fun h => by simp [hmsg] at h
        refine Stuck.after (Spec.barred (dispatch_spec lax_atomic hquiet hclient t.msg hmsg)) fun _ H hH => ?_
        rw [hH, Multiset.add_cons]
        refine ih (quiet_add.2 ⟨t.msg.quiet_left lax_atomic, hP⟩) (fun hmem => ?_) hrest
        rcases Multiset.mem_add.1 hmem with h | h
        · exact t.msg.cached_notMem_left h
        · exact hcached h

end UckSmp.Resources
