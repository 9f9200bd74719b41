import UckSmp.Lib.Slots
import UckSmp.Membership.Table

/-!
# The node table with addresses, stats and connections

All that `uck_state.nodes` keeps about a node, and the local node beside it: the ioctls that set the local node and add
remote ones, the handlers of the messages that write the table, the connections to the nodes and `uck_net_stop`. What
the crypto layer, the sockets and the rate limiter answer is in the events; the HMAC under the cluster secret is a
function `mac` of the bytes it covers.

* `Step.of_step`: what a step does.
* `run_shows`: as far as membership goes, this is the table of `Membership.Table`.
-/

namespace UckSmp.Membership

open Lib Lib.Transition

/-! ## State -/

/-- The address that a socket is connected to. -/
structure SockAddr where
  ipAddr : UInt32
  port : UInt16
  deriving DecidableEq, Repr

/-- `struct uck_node_info`. -/
structure NodeInfo where
  nodeId : UInt32 := 0
  ipAddr : UInt32 := 0
  port : UInt16 := 0
  flags : UInt16 := 0
  deriving DecidableEq, Repr

def NodeInfo.addr (x : NodeInfo) : SockAddr := ⟨x.ipAddr, x.port⟩

/-- The fields of `struct uck_node_stats` in front of the HMAC, which it covers. -/
structure StatsBody where
  nodeId : UInt32 := 0
  nrCpus : UInt32 := 0
  totalMem : UInt64 := 0
  freeMem : UInt64 := 0
  loadAvg : UInt32 := 0
  nrRunning : UInt32 := 0
  timestamp : UInt64 := 0
  deriving DecidableEq, Repr

/-- `struct uck_node_stats`. -/
structure NodeStats extends StatsBody where
  hmac : BitVec 256 := 0
  deriving DecidableEq, Repr

/-- `struct uck_cgroup_stats`. -/
structure CgroupStats where
  nodeId : UInt32 := 0
  nrTasks : UInt32 := 0
  cpuUsageNs : UInt64 := 0
  memUsage : UInt64 := 0
  memLimit : UInt64 := 0
  deriving DecidableEq, Repr

/-- `struct uck_remote_node`; a socket is the address it is connected to. -/
structure RemoteNode where
  info : NodeInfo
  sock : Option SockAddr := none
  connected : Bool := false
  stats : NodeStats := {}
  lastHeartbeat : UInt64 := 0
  alive : Bool := false
  missedHeartbeats : UInt32 := 0
  suspect : Bool := false
  cgroupStats : CgroupStats := {}
  deriving DecidableEq, Repr

/-- The part of `uck_state` that the node table is. -/
structure Registry where
  localNode : NodeInfo
  nodes : List RemoteNode
  clusterEpoch : UInt32
  deriving DecidableEq, Repr

/-- `struct uck_node_announce`. -/
structure Announce where
  info : NodeInfo
  stats : NodeStats
  epoch : UInt32
  deriving DecidableEq, Repr

namespace Registry

/-- The module is loaded, `uck_quorum_init` has run. -/
def init : Registry := ⟨{}, [], 1⟩

/-! ## Events -/

/-- What a message carries. A payload of the wrong length, or one that is not received, makes it an `other` one, as do
the types whose handlers do not write the table. -/
inductive Payload
  | heartbeat (stats : NodeStats)
  | announce (ann : Announce)
  | leave
  | cgroupStats (stats : CgroupStats)
  | other
  deriving DecidableEq, Repr

structure Message where
  srcNode : UInt32
  epoch : UInt32
  body : Payload
  deriving DecidableEq, Repr

/-- How the computation of an HMAC ends. -/
inductive Hash
  | done
  /-- The transform or its descriptor cannot be allocated. -/
  | noMemory
  /-- Setting the key or the digest fails: nobody looks, and the buffer is left as it was. -/
  | undigested (left : BitVec 256)
  deriving DecidableEq, Repr

/-- How `sock_create_kern` and `kernel_connect` end. -/
inductive Connect
  | noSocket
  | refused
  | ok
  deriving DecidableEq, Repr

inductive Event
  /-- The `UCK_IOC_SET_NODE` ioctl. -/
  | setNode (info : NodeInfo)
  /-- The `UCK_IOC_ADD_NODE` ioctl. -/
  | addNode (info : NodeInfo)
  | check (i : Nat) (now : UInt64)
  | message (m : Message) (admitted : Bool) (hash : Hash) (now : UInt64)
  | connect (i : Nat) (result : Connect)
  | netStop
  deriving DecidableEq, Repr

/-! ## Handlers -/

/-- The entry that the loops over the table stop at. -/
def slotOf (r : Registry) (id : UInt32) : Option Nat := Slots.slotOf (·.info.nodeId) r.nodes id

def entryOf (r : Registry) (id : UInt32) : Option RemoteNode := (r.slotOf id).bind (r.nodes[·]?)

def update (r : Registry) (i : Nat) (f : RemoteNode → RemoteNode) : Registry := { r with nodes := r.nodes.modify i f }

/-- `uck_add_remote_node`; in a full table it returns `-ENOMEM`. -/
def uckAddRemoteNode (r : Registry) (info : NodeInfo) : Option Registry :=
  if r.nodes.length < uckMaxNodes then some { r with nodes := r.nodes ++ [{ info }] } else none

/-- `uck_compute_hmac`, with what it leaves in the buffer. -/
def uckComputeHmac (mac : StatsBody → BitVec 256) (hash : Hash) (data : StatsBody) : BitVec 256 :=
  match hash with
  | .done => mac data
  | .noMemory => 0
  | .undigested left => left

/-- The entry of a node after a heartbeat. -/
def onHeartbeat (stats : NodeStats) (now : UInt64) (x : RemoteNode) : RemoteNode :=
  { x with stats, lastHeartbeat := now, alive := true, missedHeartbeats := 0, suspect := false }

/-- `uck_handle_heartbeat`. -/
def uckHandleHeartbeat (mac : StatsBody → BitVec 256) (r : Registry) (stats : NodeStats) (hash : Hash) (now : UInt64) :
    Registry :=
  if stats.hmac = uckComputeHmac mac hash stats.toStatsBody then
    match r.slotOf stats.nodeId with
    | some i => r.update i (onHeartbeat stats now)
    | none => r
  else r

/-- `uck_handle_node_announce` refuses the epoch. -/
def Stale (r : Registry) (epoch : UInt32) : Prop := epoch ≠ 0 ∧ epoch < r.clusterEpoch

instance (r : Registry) (epoch : UInt32) : Decidable (r.Stale epoch) := inferInstanceAs (Decidable (_ ∧ _))

/-- The entry of a new node after its announcement. -/
def onJoin (ann : Announce) (now : UInt64) (x : RemoteNode) : RemoteNode :=
  { x with stats := ann.stats, alive := true, lastHeartbeat := now }

/-- The entry of a known node after an announcement. -/
def onAnnounce (ann : Announce) (now : UInt64) (x : RemoteNode) : RemoteNode :=
  { x with info := ann.info, stats := ann.stats, alive := true, lastHeartbeat := now }

/-- `uck_handle_node_announce`. -/
def uckHandleNodeAnnounce (r : Registry) (ann : Announce) (now : UInt64) : Registry :=
  if r.Stale ann.epoch then r
  else
    match r.slotOf ann.info.nodeId with
    | some i => r.update i (onAnnounce ann now)
    | none =>
      match r.uckAddRemoteNode ann.info with
      | some r' => r'.update (r'.nodes.length - 1) (onJoin ann now)
      | none => r

/-- The entry of a node that leaves. -/
def onLeave (x : RemoteNode) : RemoteNode := { x with alive := false, connected := false, sock := none }

/-- `uck_handle_node_leave`. -/
def uckHandleNodeLeave (r : Registry) (src : UInt32) : Registry :=
  let r' :=
    match r.slotOf src with
    | some i => r.update i onLeave
    | none => r
  { r' with clusterEpoch := r.clusterEpoch + 1 }

def onCgroupStats (stats : CgroupStats) (x : RemoteNode) : RemoteNode := { x with cgroupStats := stats }

/-- `uck_handle_cgroup_stats`. -/
def uckHandleCgroupStats (r : Registry) (stats : CgroupStats) : Registry :=
  match r.slotOf stats.nodeId with
  | some i => r.update i (onCgroupStats stats)
  | none => r

/-- The heartbeat of a living node is overdue. -/
def Overdue (interval now : UInt64) (x : RemoteNode) : Prop :=
  x.alive = true ∧ timeAfter now (x.lastHeartbeat + interval) = true

instance (interval now : UInt64) (x : RemoteNode) : Decidable (Overdue interval now x) :=
  inferInstanceAs (Decidable (_ ∧ _))

/-- The overdue heartbeat is the third one, or a later one. -/
def Lost (x : RemoteNode) : Prop := x.missedHeartbeats + 1 ≠ 1 ∧ 3 ≤ x.missedHeartbeats + 1

instance (x : RemoteNode) : Decidable (Lost x) := inferInstanceAs (Decidable (_ ∧ _))

/-- The entry of a node whose heartbeat is overdue. -/
def onMiss (x : RemoteNode) : RemoteNode :=
  { x with missedHeartbeats := x.missedHeartbeats + 1,
           suspect := if x.missedHeartbeats + 1 = 1 then true else x.suspect }

/-- The entry of a node that is declared dead. -/
def onDeath (x : RemoteNode) : RemoteNode :=
  { x with missedHeartbeats := x.missedHeartbeats + 1, alive := false, suspect := false }

/-- The failure check of `uck_heartbeat_thread` for one node. -/
def checkNode (interval : UInt64) (r : Registry) (i : Nat) (now : UInt64) : Registry :=
  match r.nodes[i]? with
  | none => r
  | some x =>
    if Overdue interval now x then
      if Lost x then { r.update i onDeath with clusterEpoch := r.clusterEpoch + 1 } else r.update i onMiss
    else r

/-- `uck_net_connect_node`. -/
def uckNetConnectNode (result : Connect) (x : RemoteNode) : RemoteNode :=
  if x.connected then x
  else
    match result with
    | .noSocket => x
    | .refused => { x with sock := none }
    | .ok => { x with sock := some x.info.addr, connected := true }

/-- What `uck_net_stop` does with one entry. -/
def disconnect (x : RemoteNode) : RemoteNode :=
  if x.sock.isSome then { x with sock := none, connected := false } else x

/-- `uck_net_stop`. -/
def uckNetStop (r : Registry) : Registry := { r with nodes := r.nodes.map disconnect }

/-- The rate limiter and the epoch check of `uck_handle_client` let a message pass. -/
def Dispatches (r : Registry) (m : Message) (admitted : Bool) : Prop :=
  admitted = true ∧ ¬ (m.epoch ≠ 0 ∧ m.epoch < r.clusterEpoch)

instance (r : Registry) (m : Message) (admitted : Bool) : Decidable (r.Dispatches m admitted) :=
  inferInstanceAs (Decidable (_ ∧ _))

/-- The handlers behind `uck_handle_client`. -/
def handle (mac : StatsBody → BitVec 256) (r : Registry) (m : Message) (hash : Hash) (now : UInt64) : Registry :=
  match m.body with
  | .heartbeat stats => r.uckHandleHeartbeat mac stats hash now
  | .announce ann => r.uckHandleNodeAnnounce ann now
  | .leave => r.uckHandleNodeLeave m.srcNode
  | .cgroupStats stats => r.uckHandleCgroupStats stats
  | .other => r

/-- One step; `interval` is `UCK_HEARTBEAT_INTERVAL_MS` in jiffies. -/
def step (mac : StatsBody → BitVec 256) (interval : UInt64) (r : Registry) : Event → Option Registry
  | .setNode info => some { r with localNode := info }
  | .addNode info => some ((r.uckAddRemoteNode info).getD r)
  | .check i now => some (r.checkNode interval i now)
  | .message m admitted hash now => some (if r.Dispatches m admitted then r.handle mac m hash now else r)
  | .connect i result => some (r.update i (uckNetConnectNode result))
  | .netStop => some r.uckNetStop

/-! ## What a step does -/

variable {mac : StatsBody → BitVec 256} {interval : UInt64} {r t : Registry}

/-- The steps, each with what it is in the code. -/
inductive Step (mac : StatsBody → BitVec 256) (interval : UInt64) (r : Registry) : Event → Registry → Prop
  | setNode (info : NodeInfo) : Step mac interval r (.setNode info) { r with localNode := info }
  | addNode {info : NodeInfo} (h : r.nodes.length < uckMaxNodes) :
      Step mac interval r (.addNode info) { r with nodes := r.nodes ++ [{ info }] }
  | addFull {info : NodeInfo} (h : uckMaxNodes ≤ r.nodes.length) : Step mac interval r (.addNode info) r
  | inTime {i : Nat} {now : UInt64} (h : ∀ x ∈ r.nodes[i]?, ¬ Overdue interval now x) :
      Step mac interval r (.check i now) r
  | miss {i : Nat} {now : UInt64} {x : RemoteNode} (hx : r.nodes[i]? = some x) (ho : Overdue interval now x)
      (hl : ¬ Lost x) :
      Step mac interval r (.check i now) (r.update i onMiss)
  | death {i : Nat} {now : UInt64} {x : RemoteNode} (hx : r.nodes[i]? = some x) (ho : Overdue interval now x)
      (hl : Lost x) :
      Step mac interval r (.check i now) { r.update i onDeath with clusterEpoch := r.clusterEpoch + 1 }
  | dropped {m : Message} {admitted : Bool} (hash : Hash) (now : UInt64) (h : ¬ r.Dispatches m admitted) :
      Step mac interval r (.message m admitted hash now) r
  | forged {m : Message} {stats : NodeStats} {hash : Hash} (now : UInt64) (hd : r.Dispatches m true)
      (hm : m.body = .heartbeat stats) (hh : stats.hmac ≠ uckComputeHmac mac hash stats.toStatsBody) :
      Step mac interval r (.message m true hash now) r
  | heartbeatUnknown {m : Message} {stats : NodeStats} {hash : Hash} (now : UInt64) (hd : r.Dispatches m true)
      (hm : m.body = .heartbeat stats) (hh : stats.hmac = uckComputeHmac mac hash stats.toStatsBody)
      (hi : r.slotOf stats.nodeId = none) : Step mac interval r (.message m true hash now) r
  | heartbeat {m : Message} {stats : NodeStats} {hash : Hash} {i : Nat} (now : UInt64) (hd : r.Dispatches m true)
      (hm : m.body = .heartbeat stats) (hh : stats.hmac = uckComputeHmac mac hash stats.toStatsBody)
      (hi : r.slotOf stats.nodeId = some i) :
      Step mac interval r (.message m true hash now) (r.update i (onHeartbeat stats now))
  | stale {m : Message} {ann : Announce} (hash : Hash) (now : UInt64) (hd : r.Dispatches m true)
      (hm : m.body = .announce ann) (hst : r.Stale ann.epoch) : Step mac interval r (.message m true hash now) r
  | announce {m : Message} {ann : Announce} {i : Nat} (hash : Hash) (now : UInt64) (hd : r.Dispatches m true)
      (hm : m.body = .announce ann) (hst : ¬ r.Stale ann.epoch) (hi : r.slotOf ann.info.nodeId = some i) :
      Step mac interval r (.message m true hash now) (r.update i (onAnnounce ann now))
  | join {m : Message} {ann : Announce} (hash : Hash) (now : UInt64) (hd : r.Dispatches m true)
      (hm : m.body = .announce ann) (hst : ¬ r.Stale ann.epoch) (hi : r.slotOf ann.info.nodeId = none)
      (h : r.nodes.length < uckMaxNodes) : Step mac interval r (.message m true hash now)
        { r with nodes := r.nodes ++ [onJoin ann now { info := ann.info }] }
  | joinFull {m : Message} {ann : Announce} (hash : Hash) (now : UInt64) (hd : r.Dispatches m true)
      (hm : m.body = .announce ann) (hst : ¬ r.Stale ann.epoch) (hi : r.slotOf ann.info.nodeId = none)
      (h : uckMaxNodes ≤ r.nodes.length) : Step mac interval r (.message m true hash now) r
  | leave {m : Message} {i : Nat} (hash : Hash) (now : UInt64) (hd : r.Dispatches m true) (hm : m.body = .leave)
      (hi : r.slotOf m.srcNode = some i) : Step mac interval r (.message m true hash now)
        { r.update i onLeave with clusterEpoch := r.clusterEpoch + 1 }
  | leaveUnknown {m : Message} (hash : Hash) (now : UInt64) (hd : r.Dispatches m true) (hm : m.body = .leave)
      (hi : r.slotOf m.srcNode = none) :
      Step mac interval r (.message m true hash now) { r with clusterEpoch := r.clusterEpoch + 1 }
  | cgroupStats {m : Message} {stats : CgroupStats} {i : Nat} (hash : Hash) (now : UInt64) (hd : r.Dispatches m true)
      (hm : m.body = .cgroupStats stats) (hi : r.slotOf stats.nodeId = some i) :
      Step mac interval r (.message m true hash now) (r.update i (onCgroupStats stats))
  | cgroupUnknown {m : Message} {stats : CgroupStats} (hash : Hash) (now : UInt64) (hd : r.Dispatches m true)
      (hm : m.body = .cgroupStats stats) (hi : r.slotOf stats.nodeId = none) :
      Step mac interval r (.message m true hash now) r
  | other {m : Message} (hash : Hash) (now : UInt64) (hd : r.Dispatches m true) (hm : m.body = .other) :
      Step mac interval r (.message m true hash now) r
  | connect (i : Nat) (result : Connect) :
      Step mac interval r (.connect i result) (r.update i (uckNetConnectNode result))
  | netStop : Step mac interval r .netStop r.uckNetStop

theorem Step.of_checkNode (mac : StatsBody → BitVec 256) (interval : UInt64) (r : Registry) (i : Nat) (now : UInt64) :
    Step mac interval r (.check i now) (r.checkNode interval i now) := by
  unfold checkNode
  cases hx : r.nodes[i]? with
  | none => exact .inTime (by simp [hx])
  | some x =>
    simp only
    split
    · rename_i ho
      split
      · exact .death hx ho ‹_›
      · exact .miss hx ho ‹_›
    · rename_i ho
      exact .inTime (by simp [hx, ho])

/-- An announcement of a node that is not in the table: the entry that is written is the last one, which was just
added. -/
theorem uckHandleNodeAnnounce_of_unknown {ann : Announce} (now : UInt64) (hst : ¬ r.Stale ann.epoch)
    (hi : r.slotOf ann.info.nodeId = none) :
    r.uckHandleNodeAnnounce ann now =
      if r.nodes.length < uckMaxNodes then { r with nodes := r.nodes ++ [onJoin ann now { info := ann.info }] }
      else r := by
  simp only [uckHandleNodeAnnounce, if_neg hst, hi, uckAddRemoteNode]
  by_cases hlen : r.nodes.length < uckMaxNodes
  · simp only [if_pos hlen, update, List.length_append, List.length_singleton, Nat.add_sub_cancel,
      Slots.modify_append_last]
  · simp only [if_neg hlen]

/-- An announcement that is handled. -/
theorem Step.of_announce (mac : StatsBody → BitVec 256) (interval : UInt64) {m : Message} {ann : Announce} (hash : Hash)
    (now : UInt64) (hd : r.Dispatches m true) (hm : m.body = .announce ann) :
    Step mac interval r (.message m true hash now) (r.uckHandleNodeAnnounce ann now) := by
  by_cases hst : r.Stale ann.epoch
  · rw [uckHandleNodeAnnounce, if_pos hst]
    exact .stale hash now hd hm hst
  · cases hi : r.slotOf ann.info.nodeId with
    | some i =>
      simp only [uckHandleNodeAnnounce, if_neg hst, hi]
      exact .announce hash now hd hm hst hi
    | none =>
      rw [uckHandleNodeAnnounce_of_unknown now hst hi]
      split
      · exact .join hash now hd hm hst hi ‹_›
      · exact .joinFull hash now hd hm hst hi (by omega)

/-- A message that reaches its handler. -/
theorem Step.of_handle (interval : UInt64) {m : Message} (hash : Hash) (now : UInt64) (hd : r.Dispatches m true) :
    Step mac interval r (.message m true hash now) (r.handle mac m hash now) := by
  unfold handle
  cases hm : m.body with
  | heartbeat stats =>
    simp only [uckHandleHeartbeat]
    split
    · rename_i hh
      cases hi : r.slotOf stats.nodeId with
      | some i => exact .heartbeat now hd hm hh hi
      | none => exact .heartbeatUnknown now hd hm hh hi
    · exact .forged now hd hm ‹_›
  | announce ann => exact .of_announce mac interval hash now hd hm
  | leave =>
    simp only [uckHandleNodeLeave]
    cases hi : r.slotOf m.srcNode with
    | some i => exact .leave hash now hd hm hi
    | none => exact .leaveUnknown hash now hd hm hi
  | cgroupStats stats =>
    simp only [uckHandleCgroupStats]
    cases hi : r.slotOf stats.nodeId with
    | some i => exact .cgroupStats hash now hd hm hi
    | none => exact .cgroupUnknown hash now hd hm hi
  | other => exact .other hash now hd hm

theorem Step.of_step {ev : Event} (h : step mac interval r ev = some t) : Step mac interval r ev t := by
  cases ev with
  | setNode info =>
    cases h
    exact .setNode info
  | addNode info =>
    cases h
    unfold uckAddRemoteNode
    split
    · exact .addNode ‹_›
    · exact .addFull (by omega)
  | check i now =>
    cases h
    exact .of_checkNode mac interval r i now
  | message m admitted hash now =>
    cases h
    split
    · rename_i hd
      obtain rfl := hd.1
      exact .of_handle interval hash now hd
    · exact .dropped hash now ‹_›
  | connect i result =>
    cases h
    exact .connect i result
  | netStop =>
    cases h
    exact .netStop

theorem step_ne_none (mac : StatsBody → BitVec 256) (interval : UInt64) (r : Registry) (ev : Event) :
    step mac interval r ev ≠ none := by
  cases ev <;> exact Option.some_ne_none _

theorem entryOf_eq {id : UInt32} {i : Nat} (h : r.slotOf id = some i) : r.entryOf id = r.nodes[i]? := by
  rw [entryOf, h, Option.bind_some]

theorem entryOf_eq_none {id : UInt32} (h : r.slotOf id = none) : r.entryOf id = none := by
  rw [entryOf, h, Option.bind_none]

theorem nodeId_of_slotOf {id : UInt32} {i : Nat} {x : RemoteNode} (h : r.slotOf id = some i)
    (hx : r.nodes[i]? = some x) : x.info.nodeId = id :=
  Slots.key_of_slotOf (fun z : RemoteNode => z.info.nodeId) h hx

/-! ## Membership -/

/-- What membership keeps about a node. -/
def member (x : RemoteNode) : NodeEntry :=
  { nodeId := x.info.nodeId, lastHeartbeat := x.lastHeartbeat, alive := x.alive,
    missedHeartbeats := x.missedHeartbeats, suspect := x.suspect }

/-- The same of an entry of the membership table. -/
def bare (y : NodeEntry) : NodeEntry := { y with connected := false, fencedAt := none }

/-- The table of `Membership.Table` is the membership part of the node table. -/
structure Shows (r : Registry) (s : Table) : Prop where
  epoch : s.clusterEpoch = r.clusterEpoch
  nodes : s.nodes.map bare = r.nodes.map member

/-- What membership reads of a message. -/
def Message.read (mac : StatsBody → BitVec 256) (hash : Hash) (m : Message) : Body :=
  match m.body with
  | .heartbeat stats => .heartbeat stats.nodeId (stats.hmac = uckComputeHmac mac hash stats.toStatsBody)
  | .announce ann => .announce ann.info.nodeId ann.epoch
  | .leave => .leave
  | .cgroupStats _ => .other
  | .other => .other

/-- The event of membership that an event is. -/
def Event.seen (mac : StatsBody → BitVec 256) : Event → Option Membership.Event
  | .setNode _ => none
  | .addNode info => some (.addNode info.nodeId)
  | .check i now => some (.check i now)
  | .message m admitted hash now => some (.message ⟨m.srcNode, m.epoch, m.read mac hash, m.epoch⟩ admitted now)
  | .connect _ _ => none
  | .netStop => none

namespace Shows

variable {s : Table}

theorem slotOf_eq (h : Shows r s) (id : UInt32) : s.slotOf id = r.slotOf id := by
  refine Slots.slotOf_congr NodeEntry.nodeId _ ?_ id
  have hids := congrArg (List.map NodeEntry.nodeId) h.nodes
  rwa [List.map_map, List.map_map] at hids

theorem length_eq (h : Shows r s) : s.nodes.length = r.nodes.length := by
  simpa using congrArg List.length h.nodes

theorem dispatches_iff (h : Shows r s) {m : Message} {admitted : Bool} {b : Body} {e : UInt32} :
    s.Dispatches ⟨m.srcNode, m.epoch, b, e⟩ admitted ↔ r.Dispatches m admitted := by
  simp only [Table.Dispatches, Dispatches, h.epoch]

theorem stale_iff (h : Shows r s) {epoch : UInt32} : s.Stale epoch ↔ r.Stale epoch := by
  simp only [Table.Stale, Stale, h.epoch]

theorem getElem?_eq (h : Shows r s) (i : Nat) : s.nodes[i]?.map bare = r.nodes[i]?.map member := by
  rw [← List.getElem?_map, h.nodes, List.getElem?_map]

/-- Entries are changed alike. -/
theorem update (h : Shows r s) (i : Nat) {f : RemoteNode → RemoteNode} {g k : NodeEntry → NodeEntry}
    (hf : ∀ x ∈ r.nodes[i]?, member (f x) = k (member x)) (hg : ∀ y, bare (g y) = k (bare y)) :
    (s.nodes.modify i g).map bare = (r.nodes.modify i f).map member := by
  rw [Slots.map_modify_of_comp fun y _ => hg y, h.nodes, Slots.map_modify_of_comp hf]

theorem uckAddRemoteNode (h : Shows r s) (hlen : r.nodes.length < uckMaxNodes) {x : RemoteNode} {y : NodeEntry}
    (hxy : bare y = member x) : Shows { r with nodes := r.nodes ++ [x] } (s.uckAddRemoteNode y) := by
  rw [Table.uckAddRemoteNode, if_pos (h.length_eq ▸ hlen)]
  exact ⟨h.epoch, by simp [h.nodes, hxy]⟩

theorem addFull (h : Shows r s) (hlen : uckMaxNodes ≤ r.nodes.length) (y : NodeEntry) :
    Shows r (s.uckAddRemoteNode y) := by
  rw [Table.uckAddRemoteNode, if_neg (by rw [h.length_eq]; omega)]
  exact h

/-- The failure check is the same in both tables. -/
theorem checkNode (h : Shows r s) (i : Nat) (now : UInt64) :
    Shows (r.checkNode interval i now) (s.checkNode interval i now) := by
  unfold Registry.checkNode Table.checkNode
  have hi := h.getElem?_eq i
  cases hx : r.nodes[i]? with
  | none =>
    rw [hx, Option.map_none, Option.map_eq_none_iff] at hi
    rw [hi]
    exact h
  | some x =>
    rw [hx, Option.map_some, Option.map_eq_some_iff] at hi
    obtain ⟨y, hy, hxy⟩ := hi
    have ho : Table.Overdue interval now y ↔ Overdue interval now x := by
      change Table.Overdue interval now (bare y) ↔ Table.Overdue interval now (member x)
      rw [hxy]
    have hl : Table.Lost y ↔ Lost x := by
      change Table.Lost (bare y) ↔ Table.Lost (member x)
      rw [hxy]
    simp only [hy, ho, hl]
    split
    · split
      · exact ⟨congrArg (· + 1) h.epoch,
          h.update i (k := fun z => bare (Table.onDeath 0 z)) (fun _ _ => rfl) (fun _ => rfl)⟩
      · exact ⟨h.epoch, h.update i (k := Table.onMiss) (fun _ _ => rfl) (fun _ => rfl)⟩
    · exact h

theorem uckHandleHeartbeat (h : Shows r s) (stats : NodeStats) (hash : Hash) (now : UInt64) :
    Shows (r.uckHandleHeartbeat mac stats hash now)
      (s.uckHandleHeartbeat stats.nodeId (stats.hmac = uckComputeHmac mac hash stats.toStatsBody) now) := by
  simp only [Registry.uckHandleHeartbeat, Table.uckHandleHeartbeat, h.slotOf_eq, decide_eq_true_eq]
  split
  · cases r.slotOf stats.nodeId with
    | none => exact h
    | some i => exact ⟨h.epoch, h.update i (k := Table.onHeartbeat now) (fun _ _ => rfl) (fun _ => rfl)⟩
  · exact h

theorem uckHandleNodeAnnounce (h : Shows r s) (ann : Announce) (now : UInt64) :
    Shows (r.uckHandleNodeAnnounce ann now) (s.uckHandleNodeAnnounce ann.info.nodeId ann.epoch now) := by
  by_cases hst : r.Stale ann.epoch
  · rw [Registry.uckHandleNodeAnnounce, if_pos hst, Table.uckHandleNodeAnnounce, if_pos (h.stale_iff.2 hst)]
    exact h
  · cases hi : r.slotOf ann.info.nodeId with
    | none =>
      rw [uckHandleNodeAnnounce_of_unknown now hst hi]
      simp only [Table.uckHandleNodeAnnounce, h.stale_iff, if_neg hst, h.slotOf_eq, hi]
      split
      · exact h.uckAddRemoteNode ‹_› rfl
      · exact h.addFull (by omega) _
    | some i =>
      simp only [Registry.uckHandleNodeAnnounce, Table.uckHandleNodeAnnounce, h.stale_iff, if_neg hst, h.slotOf_eq, hi]
      refine ⟨h.epoch, h.update i (k := Table.onAnnounce now) (fun x hx => ?_) (fun _ => rfl)⟩
      -- the announced number is the one that the entry was found by
      simp only [member, onAnnounce, Table.onAnnounce, nodeId_of_slotOf hi hx]

theorem uckHandleNodeLeave (h : Shows r s) (src : UInt32) :
    Shows (r.uckHandleNodeLeave src) (s.uckHandleNodeLeave src) := by
  simp only [Registry.uckHandleNodeLeave, Table.uckHandleNodeLeave, h.slotOf_eq]
  have hepoch : s.clusterEpoch + 1 = r.clusterEpoch + 1 := congrArg (· + 1) h.epoch
  cases r.slotOf src with
  | none => exact ⟨hepoch, h.nodes⟩
  | some i => exact ⟨hepoch, h.update i (k := fun z => bare (Table.onLeave 0 z)) (fun _ _ => rfl) (fun _ => rfl)⟩

/-- Membership knows nothing of the cgroup stats. -/
theorem uckHandleCgroupStats (h : Shows r s) (stats : CgroupStats) : Shows (r.uckHandleCgroupStats stats) s := by
  unfold Registry.uckHandleCgroupStats
  cases r.slotOf stats.nodeId with
  | none => exact h
  | some i =>
    exact ⟨h.epoch, h.nodes.trans ((Slots.map_modify_eq_iff member (onCgroupStats stats)).2 fun _ _ => rfl).symm⟩

theorem handle (h : Shows r s) (m : Message) (hash : Hash) (now : UInt64) :
    Shows (r.handle mac m hash now) (s.handle ⟨m.srcNode, m.epoch, m.read mac hash, m.epoch⟩ now) := by
  unfold Registry.handle Table.handle Message.read
  cases m.body with
  | heartbeat stats => exact h.uckHandleHeartbeat stats hash now
  | announce ann => exact h.uckHandleNodeAnnounce ann now
  | leave => exact h.uckHandleNodeLeave m.srcNode
  | cgroupStats stats => exact h.uckHandleCgroupStats stats
  | other => exact h

theorem connect (h : Shows r s) (i : Nat) (result : Connect) : Shows (r.update i (uckNetConnectNode result)) s := by
  refine ⟨h.epoch, h.nodes.trans ((Slots.map_modify_eq_iff _ _).2 fun x _ => ?_).symm⟩
  unfold uckNetConnectNode
  split
  · rfl
  · cases result <;> rfl

theorem netStop (h : Shows r s) : Shows r.uckNetStop s := by
  refine ⟨h.epoch, h.nodes.trans ?_⟩
  rw [uckNetStop, List.map_map]
  refine List.map_congr_left fun x _ => ?_
  simp only [Function.comp_apply, disconnect]
  split <;> rfl

end Shows

/-- A step of the node table is a step of the membership table, or does not touch membership. -/
theorem step_shows {s : Table} {ev : Event} (h : Shows r s) (hs : step mac interval r ev = some t) :
    ∃ v, run (Membership.step interval) s (ev.seen mac).toList = some v ∧ Shows t v := by
  cases ev with
  | setNode info =>
    cases hs
    exact ⟨s, rfl, h.epoch, h.nodes⟩
  | addNode info =>
    cases Step.of_step hs with
    | addNode hlen => exact ⟨_, rfl, h.uckAddRemoteNode hlen rfl⟩
    | addFull hlen => exact ⟨_, rfl, h.addFull hlen _⟩
  | check i now =>
    cases hs
    exact ⟨_, rfl, h.checkNode i now⟩
  | message m admitted hash now =>
    cases hs
    refine ⟨_, rfl, ?_⟩
    simp only [h.dispatches_iff]
    split
    · exact h.handle m hash now
    · exact h
  | connect i result =>
    cases hs
    exact ⟨s, rfl, h.connect i result⟩
  | netStop =>
    cases hs
    exact ⟨s, rfl, h.netStop⟩

/-- **Membership is what `Membership.Table` says**: a run of the node table is, as far as membership goes, a run of the
membership table. -/
theorem run_shows {es : List Event} (hr : run (step mac interval) init es = some r) :
    ∃ s, run (Membership.step interval) Membership.init (es.filterMap (Event.seen mac)) = some s ∧ Shows r s :=
  run_simulates Shows (Event.seen mac) (fun _ _ _ _ h hs => step_shows h hs) ⟨rfl, rfl⟩ hr

end Registry

end UckSmp.Membership
