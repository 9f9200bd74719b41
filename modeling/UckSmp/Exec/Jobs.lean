import Mathlib.Logic.Function.Basic
import UckSmp.Lib.Codec
import UckSmp.Lib.Transition

/-!
# Remote execution

The job table of a node (`uck_exec.c`) and a cluster of nodes that submit jobs to themselves and to each other. One
step of the cluster is one critical section under `jobs_lock`, together with what the code does from there to the next
one. Which allocations and sends succeed, which messages arrive, what loads a node sees and what a command returns is
in the events.

A `Job` identifies one submission. It is carried beside the data of the code, in the entries and in what is under way,
and no decision depends on it.
-/

namespace UckSmp.Exec

open Lib

/-! ## Data -/

/-- A C string in a buffer of `n` bytes after `strscpy`. -/
def strscpy (n : Nat) (s : List Byte) : List Byte := s.take (n - 1)

/-- `enum uck_job_state`. -/
inductive JobState
  | empty
  | pending
  | running
  | done
  | failed
  deriving DecidableEq, Repr

/-- `struct uck_job_info`; the defaults are those of `memset`. -/
structure JobInfo where
  jobId : UInt32 := 0
  nodeId : UInt32 := 0
  pid : UInt32 := 0
  state : JobState := .empty
  exitCode : Int := 0
  srcNode : UInt32 := 0
  command : List Byte := []
  deriving DecidableEq, Repr

/-- The state that an exit code stands for. -/
def JobState.ofExit (code : Int) : JobState := if code = 0 then .done else .failed

/-- Credentials of a process. -/
structure Cred where
  uid : UInt32
  gid : UInt32
  deriving DecidableEq, Repr

/-- `struct uck_remote_exec_req`; a destination of 0 asks for the least loaded node. -/
structure ExecReq where
  destNode : UInt32
  command : List Byte
  deriving DecidableEq, Repr

/-- `struct uck_exec_wire`. -/
structure ExecWire where
  jobId : UInt32 := 0
  srcNode : UInt32 := 0
  uid : UInt32 := 0
  gid : UInt32 := 0
  command : List Byte := []
  deriving DecidableEq, Repr

/-- `struct uck_exec_result`. -/
structure ExecResult where
  jobId : UInt32 := 0
  exitCode : Int := 0
  pid : UInt32 := 0
  deriving DecidableEq, Repr

/-- `struct uck_local_exec_ctx`. -/
structure ExecCtx where
  jobId : UInt32
  slot : Nat
  command : List Byte
  srcNode : UInt32
  uid : UInt32
  gid : UInt32
  deriving DecidableEq, Repr

/-! ## Functions -/

/-- `uck_exec_local`, run with the credentials `cur`. -/
def uckExecLocal (cur : Cred) (slot : Nat) (jobId : UInt32) (command : List Byte) (srcNode : UInt32) : ExecCtx :=
  { jobId, slot, srcNode, command := strscpy 512 command, uid := cur.uid, gid := cur.gid }

/-- The payload of an `EXEC_REQ`; its `uid` and `gid` are left as `memset` made them. -/
def execWire (self jobId : UInt32) (req : ExecReq) : ExecWire :=
  { jobId, srcNode := self, command := strscpy 512 req.command }

/-- The entry that `uck_submit_remote_exec` makes. -/
def ownEntry (self jobId : UInt32) (req : ExecReq) : JobInfo :=
  { jobId, state := .pending, exitCode := -1, srcNode := self, command := strscpy 512 req.command }

/-- The entry that `uck_handle_exec_req` makes. -/
def foreignEntry (self : UInt32) (wire : ExecWire) : JobInfo :=
  { jobId := wire.jobId, state := .pending, exitCode := -1, nodeId := self, srcNode := wire.srcNode,
    command := strscpy 512 wire.command }

/-- The credentials of the kernel threads, in which the message handlers run. -/
def kthreadCred : Cred := ⟨0, 0⟩

/-- What `uck_pick_exec_node` reads of a remote node. -/
structure Peer where
  nodeId : UInt32
  alive : Bool
  loadAvg : UInt32
  deriving DecidableEq, Repr

/-- The loop of `uck_pick_exec_node`: the best load so far and the node that has it. -/
def pickBest : UInt32 × Option Peer → List Peer → UInt32 × Option Peer
  | best, [] => best
  | best, p :: ps => pickBest (if p.alive ∧ p.loadAvg < best.1 then (p.loadAvg, some p) else best) ps

def uckPickExecNode (self localLoad : UInt32) (peers : List Peer) : UInt32 :=
  match pickBest (UInt32.ofNat (2 ^ 32 - 1), none) peers with
  | (_, none) => self
  | (load, some p) => if localLoad ≤ load then self else p.nodeId

/-- The exit code of a command that `call_usermodehelper` returned `ret` for. -/
def exitCodeOf (ret : Int) : Int := if 0 ≤ ret then ((ret.toNat >>> 8 &&& 0xff : Nat) : Int) else ret

/-- A job: the node it was submitted on, the id that the submitter was given and its number among all submissions. -/
structure Job where
  node : UInt32
  id : UInt32
  serial : Nat
  deriving DecidableEq, Repr

/-- A slot of the job table, with the job that its entry was made for. -/
structure Entry where
  info : JobInfo := {}
  job : Option Job := none
  deriving DecidableEq, Repr

def uckMaxJobs : Nat := 256

/-- The slots that `uck_alloc_job_slot` gives away. -/
def JobState.Free (s : JobState) : Prop := s = .empty ∨ s = .done ∨ s = .failed

instance (s : JobState) : Decidable s.Free := inferInstanceAs (Decidable (_ ∨ _))

def uckAllocJobSlot (jobs : List Entry) : Option Nat := jobs.findIdx? fun e => e.info.state.Free

/-- `uck_query_jobs`. -/
def uckQueryJobs (jobs : List JobInfo) (jobId : UInt32) : List JobInfo :=
  if jobId ≠ 0 then (jobs.find? fun j => j.jobId = jobId ∧ j.state ≠ .empty).toList
  else (jobs.filter fun j => j.state ≠ .empty).take 16

/-- The slot that the loops of `uck_handle_exec_started` and `uck_handle_exec_done` stop at. -/
def slotOfId (jobs : List Entry) (jobId : UInt32) : Option Nat := jobs.findIdx? fun e => e.info.jobId = jobId

/-! ## The cluster -/

structure Node where
  jobs : List Entry
  nextJobId : UInt32

/-- `uck_exec_init`. -/
def uckExecInit : Node := ⟨List.replicate uckMaxJobs {}, 1⟩

/-- What is under way for a job. -/
inductive Stage
  /-- `uck_submit_remote_exec` after its first critical section. -/
  | submitted (node : UInt32) (slot : Nat) (jobId : UInt32) (cred : Cred) (req : ExecReq)
  /-- `uck_submit_remote_exec` after its second critical section, with the destination. -/
  | placed (node : UInt32) (slot : Nat) (jobId : UInt32) (cred : Cred) (req : ExecReq) (dest : UInt32)
  /-- An `EXEC_REQ` message. -/
  | request (dest : UInt32) (wire : ExecWire)
  /-- `uck_local_exec_thread`, before or after its first critical section. -/
  | thread (node : UInt32) (ctx : ExecCtx) (running : Bool)
  /-- An `EXEC_DONE` message. -/
  | result (dest : UInt32) (r : ExecResult)
  deriving DecidableEq, Repr

/-- How far a job has come: not yet dispatched, dispatched, or run, with the exit code it produced. -/
inductive Fate
  | undispatched
  | dispatched
  | produced (code : Int)
  deriving DecidableEq, Repr

/-- All nodes, what is under way, the number of submissions and the fate of every job. -/
structure Cluster where
  nodes : UInt32 → Node
  works : Job → Option Stage
  serial : Nat
  fate : Job → Fate

def init : Cluster := ⟨fun _ => uckExecInit, fun _ => none, 0, fun _ => .undispatched⟩

namespace Cluster

/-- `f` is applied to one slot of one table. -/
def write (s : Cluster) (n : UInt32) (i : Nat) (f : Entry → Entry) : Cluster :=
  { s with nodes := Function.update s.nodes n { s.nodes n with jobs := (s.nodes n).jobs.modify i f } }

/-- What is under way for a job becomes `st`, and its fate `φ`. -/
def advance (s : Cluster) (k : Job) (st : Option Stage) (φ : Fate) : Cluster :=
  { s with works := Function.update s.works k st, fate := Function.update s.fate k φ }

section Advance

variable (s : Cluster) {k k' : Job} (st : Option Stage) (φ : Fate)

@[simp] theorem works_advance_self : (s.advance k st φ).works k = st := Function.update_self _ _ _

@[simp] theorem fate_advance_self : (s.advance k st φ).fate k = φ := Function.update_self _ _ _

theorem works_advance_of_ne (h : k' ≠ k) : (s.advance k st φ).works k' = s.works k' := Function.update_of_ne h _ _

theorem fate_advance_of_ne (h : k' ≠ k) : (s.advance k st φ).fate k' = s.fate k' := Function.update_of_ne h _ _

end Advance

/-- The first critical section of `uck_submit_remote_exec`; without a free slot it returns `-ENOMEM`. -/
def submit (s : Cluster) (n : UInt32) (cred : Cred) (req : ExecReq) : Cluster :=
  match uckAllocJobSlot (s.nodes n).jobs with
  | none => s
  | some i =>
    let id := (s.nodes n).nextJobId
    let k : Job := ⟨n, id, s.serial⟩
    let s := { s with serial := s.serial + 1,
                      nodes := Function.update s.nodes n { s.nodes n with nextJobId := id + 1 } }
    (s.write n i fun _ => ⟨ownEntry n id req, some k⟩).advance k (some (.submitted n i id cred req)) .undispatched

/-- The second critical section: the destination is chosen and recorded. -/
def place (s : Cluster) (k : Job) (n : UInt32) (slot : Nat) (id : UInt32) (cred : Cred) (req : ExecReq)
    (localLoad : UInt32) (peers : List Peer) : Cluster :=
  let dest := if req.destNode = 0 then uckPickExecNode n localLoad peers else req.destNode
  (s.write n slot fun e => { e with info := { e.info with nodeId := dest } })
    |>.advance k (some (.placed n slot id cred req dest)) .undispatched

/-- The job is run here or sent away. `ret` is what the two sends return, or `uck_exec_local`. -/
def dispatch (s : Cluster) (k : Job) (n : UInt32) (slot : Nat) (id : UInt32) (cred : Cred) (req : ExecReq)
    (dest : UInt32) (ret : Int) : Cluster :=
  if dest = n then
    if ret < 0 then s.advance k none .undispatched
    else s.advance k (some (.thread n (uckExecLocal cred slot id req.command n) false)) .dispatched
  else if ret < 0 then
    (s.advance k none .undispatched).write n slot fun e =>
      { e with info := { e.info with state := .failed, exitCode := ret } }
  else s.advance k (some (.request dest (execWire n id req))) .dispatched

/-- `uck_handle_exec_req`; `run` says that the thread could be started. -/
def uckHandleExecReq (s : Cluster) (k : Job) (n : UInt32) (wire : ExecWire) (run : Bool) : Cluster :=
  match uckAllocJobSlot (s.nodes n).jobs with
  | none => s.advance k none .dispatched
  | some i =>
    (s.write n i fun _ => ⟨foreignEntry n wire, some k⟩)
      |>.advance k (if run then
          some (.thread n (uckExecLocal kthreadCred i wire.jobId wire.command wire.srcNode) false)
        else none) .dispatched

/-- `uck_handle_exec_started`. -/
def uckHandleExecStarted (s : Cluster) (n : UInt32) (r : ExecResult) : Cluster :=
  match slotOfId (s.nodes n).jobs r.jobId with
  | none => s
  | some i => s.write n i fun e => { e with info := { e.info with state := .running, pid := r.pid } }

/-- `uck_handle_exec_done`. -/
def uckHandleExecDone (s : Cluster) (n : UInt32) (r : ExecResult) : Cluster :=
  match slotOfId (s.nodes n).jobs r.jobId with
  | none => s
  | some i =>
    s.write n i fun e => { e with info := { e.info with exitCode := r.exitCode, state := .ofExit r.exitCode } }

/-- `uck_local_exec_thread` before the command runs. -/
def threadBegin (s : Cluster) (k : Job) (n : UInt32) (ctx : ExecCtx) : Cluster :=
  (s.write n ctx.slot fun e => { e with info := { e.info with state := .running } })
    |>.advance k (some (.thread n ctx true)) .dispatched

/-- `uck_local_exec_thread` after `call_usermodehelper` returned `ret`; a foreign job's result is sent back. -/
def threadFinish (s : Cluster) (k : Job) (n : UInt32) (ctx : ExecCtx) (ret : Int) : Cluster :=
  let code := exitCodeOf ret
  (s.advance k (if ctx.srcNode ≠ n then some (.result ctx.srcNode { jobId := ctx.jobId, exitCode := code }) else none)
      (.produced code)).write n ctx.slot fun e =>
    { e with info := { e.info with exitCode := code, state := .ofExit code } }

end Cluster

inductive Event
  /-- A process with these credentials enters `uck_submit_remote_exec` on node `n`. -/
  | submit (n : UInt32) (cred : Cred) (req : ExecReq)
  | place (k : Job) (localLoad : UInt32) (peers : List Peer)
  | dispatch (k : Job) (ret : Int)
  /-- The job is to run on its own node, and `kthread_run` fails in `uck_exec_local`, which returns zero. -/
  | unstarted (k : Job)
  /-- The message of job `k` is handled by its destination. -/
  | deliver (k : Job) (run : Bool)
  /-- The message of job `k` is lost. -/
  | lose (k : Job)
  | begin (k : Job)
  | finish (k : Job) (ret : Int)
  /-- An `EXEC_STARTED` message is handled. No code sends one: it may come at any time with any content. -/
  | started (n : UInt32) (r : ExecResult)
  deriving DecidableEq, Repr

def step (s : Cluster) : Event → Option Cluster
  | .submit n cred req => some (s.submit n cred req)
  | .place k localLoad peers =>
    match s.works k with
    | some (.submitted n slot id cred req) => some (s.place k n slot id cred req localLoad peers)
    | _ => none
  | .dispatch k ret =>
    match s.works k with
    | some (.placed n slot id cred req dest) => some (s.dispatch k n slot id cred req dest ret)
    | _ => none
  | .unstarted k =>
    match s.works k with
    | some (.placed n _ _ _ _ dest) => if dest = n then some (s.advance k none .dispatched) else none
    | _ => none
  | .deliver k run =>
    match s.works k with
    | some (.request dest wire) => some (s.uckHandleExecReq k dest wire run)
    | some (.result dest r) => some ((s.advance k none (s.fate k)).uckHandleExecDone dest r)
    | _ => none
  | .lose k =>
    match s.works k with
    | some (.request _ _) => some (s.advance k none (s.fate k))
    | some (.result _ _) => some (s.advance k none (s.fate k))
    | _ => none
  | .begin k =>
    match s.works k with
    | some (.thread n ctx false) => some (s.threadBegin k n ctx)
    | _ => none
  | .finish k ret =>
    match s.works k with
    | some (.thread n ctx true) => some (s.threadFinish k n ctx ret)
    | _ => none
  | .started n r => some (s.uckHandleExecStarted n r)

/-- The steps, each with what has to be under way for it. -/
inductive Step (s : Cluster) : Event → Cluster → Prop
  | submit (n : UInt32) (cred : Cred) (req : ExecReq) : Step s (.submit n cred req) (s.submit n cred req)
  | place {k : Job} {n : UInt32} {slot : Nat} {id : UInt32} {cred : Cred} {req : ExecReq}
      (hw : s.works k = some (.submitted n slot id cred req)) (localLoad : UInt32) (peers : List Peer) :
      Step s (.place k localLoad peers) (s.place k n slot id cred req localLoad peers)
  | dispatch {k : Job} {n : UInt32} {slot : Nat} {id : UInt32} {cred : Cred} {req : ExecReq} {dest : UInt32}
      (hw : s.works k = some (.placed n slot id cred req dest)) (ret : Int) :
      Step s (.dispatch k ret) (s.dispatch k n slot id cred req dest ret)
  | unstarted {k : Job} {n : UInt32} {slot : Nat} {id : UInt32} {cred : Cred} {req : ExecReq}
      (hw : s.works k = some (.placed n slot id cred req n)) : Step s (.unstarted k) (s.advance k none .dispatched)
  | request {k : Job} {dest : UInt32} {wire : ExecWire} (hw : s.works k = some (.request dest wire)) (run : Bool) :
      Step s (.deliver k run) (s.uckHandleExecReq k dest wire run)
  | result {k : Job} {dest : UInt32} {r : ExecResult} (hw : s.works k = some (.result dest r)) (run : Bool) :
      Step s (.deliver k run) ((s.advance k none (s.fate k)).uckHandleExecDone dest r)
  | lose {k : Job} {st : Stage} (hw : s.works k = some st) : Step s (.lose k) (s.advance k none (s.fate k))
  | begin {k : Job} {n : UInt32} {ctx : ExecCtx} (hw : s.works k = some (.thread n ctx false)) :
      Step s (.begin k) (s.threadBegin k n ctx)
  | finish {k : Job} {n : UInt32} {ctx : ExecCtx} (hw : s.works k = some (.thread n ctx true)) (ret : Int) :
      Step s (.finish k ret) (s.threadFinish k n ctx ret)
  | started (n : UInt32) (r : ExecResult) : Step s (.started n r) (s.uckHandleExecStarted n r)

theorem Step.of_step {s t : Cluster} {e : Event} (h : step s e = some t) : Step s e t := by
  cases e with
  | submit n cred req => cases h; exact .submit n cred req
  | place k localLoad peers =>
    simp only [step] at h
    split at h
    · cases h; exact .place ‹_› localLoad peers
    · cases h
  | dispatch k ret =>
    simp only [step] at h
    split at h
    · cases h; exact .dispatch ‹_› ret
    · cases h
  | unstarted k =>
    simp only [step] at h
    split at h
    · split at h
      · rename_i hw hdest
        subst hdest
        cases h
        exact .unstarted hw
      · cases h
    · cases h
  | deliver k run =>
    simp only [step] at h
    split at h
    · cases h; exact .request ‹_› run
    · cases h; exact .result ‹_› run
    · cases h
  | lose k =>
    simp only [step] at h
    split at h
    · cases h; exact .lose ‹_›
    · cases h; exact .lose ‹_›
    · cases h
  | begin k =>
    simp only [step] at h
    split at h
    · cases h; exact .begin ‹_›
    · cases h
  | finish k ret =>
    simp only [step] at h
    split at h
    · cases h; exact .finish ‹_› ret
    · cases h
  | started n r => cases h; exact .started n r

end UckSmp.Exec
