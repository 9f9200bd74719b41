import UckSmp.Lib.Transition
import UckSmp.Membership.Nodes
import UckSmp.Memory.Memctl
import UckSmp.Sched.Place

/-!
# The limit of tasks of a node

Every node counts its tasks (`uck_cgroup_update_local`), the heartbeat thread sends the count to the others, and
`uck_hyper_pick_node` keeps a fork local if the best node has as many as `max_tasks_per_node`. When the count reaches
the limit, though, `uck_cgroup_update_local` returns before it stores it, so that the count of the last time stays and
is sent again. And a limit of 0, which is none to `uck_cgroup_update_local` and the only one there is as long as nobody
sets it, is reached by every node to `uck_hyper_pick_node`. The limit is the same on all nodes, and the counts that a
node receives are those that the others sent.

* `LimitCluster.Below.step`: a count that reaches the limit is never stored, sent or received.
* `limit_all_or_nothing`: the limit keeps every fork local or none.
-/

namespace UckSmp.Sched

open Lib Lib.Transition UckSmp.Membership UckSmp.Memory

/-! ## Code -/

/-- What the scan of `uck_cgroup_update_local` reads of a process. -/
structure ScannedTask where
  kthread : Bool := false
  pid : Int32
  uid : UInt32
  comm : List UInt8
  sumExecRuntime : UInt64 := 0
  /-- The file pages and the anonymous pages, if it has memory of its own. -/
  mm : Option (UInt64 × UInt64) := none
  deriving DecidableEq, Repr

/-- The tasks that count: those of users, and those of root that are named `uck…`. -/
def ScannedTask.Counts (task : ScannedTask) : Prop :=
  task.kthread = false ∧ 2 < task.pid ∧ (task.uid = 0 → task.comm.take 3 = [117, 99, 107])

instance (task : ScannedTask) : Decidable task.Counts := inferInstanceAs (Decidable (_ ∧ _ ∧ _))

/-- `nr_tasks`, `cpu_usage` and `mem_usage`. -/
structure Usage where
  nrTasks : UInt32 := 0
  cpuUsage : UInt64 := 0
  memUsage : UInt64 := 0
  deriving DecidableEq, Repr

/-- One round of the scan. -/
def Usage.add (u : Usage) (task : ScannedTask) : Usage :=
  if task.Counts then
    { nrTasks := u.nrTasks + 1
      cpuUsage := u.cpuUsage + task.sumExecRuntime
      memUsage :=
        match task.mm with
        | some (filePages, anonPages) => u.memUsage + filePages * 4096 + anonPages * 4096
        | none => u.memUsage }
  else u

/-- A node, as far as the limit goes. -/
structure LimitNode where
  registry : Registry := .init
  memctl : Memctl := {}
  /-- `local_cgroup_stats`. -/
  cgroupStats : CgroupStats := {}

/-- `uck_cgroup_update_local`, on a machine of `totalram` pages with `uck_max_pages_pct` at `pct`. -/
def LimitNode.uckCgroupUpdateLocal (n : LimitNode) (maxTasksPerNode : UInt32) (totalram pct : Nat)
    (tasks : List ScannedTask) : Int × LimitNode :=
  let u := tasks.foldl Usage.add {}
  if 0 < maxTasksPerNode ∧ maxTasksPerNode ≤ u.nrTasks then (-28, n)
  else
    let (ok, memctl) := n.memctl.uckMemctlCanAlloc totalram pct (u.memUsage / 4096).toNat
    if !ok then (-12, { n with memctl })
    else (0, { n with memctl, cgroupStats := ⟨n.registry.localNode.nodeId, u.nrTasks, u.cpuUsage, u.memUsage, 0⟩ })

/-! ## A cluster -/

/-- A count of tasks on its way. -/
structure Count where
  dest : Nat
  srcNode : UInt32
  stats : CgroupStats

/-- The nodes, all of which have the same limit. -/
structure LimitCluster where
  nodes : Nat → LimitNode := fun _ => {}
  inFlight : List Count := []

inductive LimitEvent
  /-- The heartbeat thread or the `UCK_IOC_GET_CGROUP` ioctl counts the tasks. -/
  | update (n totalram pct : Nat) (tasks : List ScannedTask)
  /-- The heartbeat thread sends what is stored. -/
  | send (n dest : Nat)
  | deliver (i : Nat) (admitted : Bool)
  /-- Pages are taken or given back. -/
  | account (n nrPages : Nat)
  | unaccount (n nrPages : Nat)
  /-- Anything else that happens to the node table. -/
  | table (n : Nat) (ev : Registry.Event)

/-- The event brings a count of tasks. -/
def carriesCount : Registry.Event → Bool
  | .message ⟨_, _, .cgroupStats _⟩ _ _ _ => true
  | _ => false

namespace LimitCluster

def setNode (s : LimitCluster) (n : Nat) (x : LimitNode) : LimitCluster :=
  { s with nodes := Function.update s.nodes n x }

/-- Something happens to the node table of a node. -/
def tableStep (mac : StatsBody → BitVec 256) (interval : UInt64) (s : LimitCluster) (n : Nat) (ev : Registry.Event) :
    Option LimitCluster :=
  ((s.nodes n).registry.step mac interval ev).map fun registry => s.setNode n { s.nodes n with registry }

/-- One step. The header of a count has no epoch. -/
def step (mac : StatsBody → BitVec 256) (interval : UInt64) (maxTasksPerNode : UInt32) (s : LimitCluster) :
    LimitEvent → Option LimitCluster
  | .update n totalram pct tasks =>
    some (s.setNode n ((s.nodes n).uckCgroupUpdateLocal maxTasksPerNode totalram pct tasks).2)
  | .send n dest =>
    some { s with
      inFlight := s.inFlight ++ [⟨dest, (s.nodes n).registry.localNode.nodeId, (s.nodes n).cgroupStats⟩] }
  | .deliver i admitted =>
    match s.inFlight[i]? with
    | none => none
    | some count =>
      { s with inFlight := s.inFlight.eraseIdx i }.tableStep mac interval count.dest
        (.message ⟨count.srcNode, 0, .cgroupStats count.stats⟩ admitted .done 0)
  | .account n nrPages =>
    some (s.setNode n { s.nodes n with memctl := (s.nodes n).memctl.uckMemctlAccountAlloc nrPages })
  | .unaccount n nrPages =>
    some (s.setNode n { s.nodes n with memctl := (s.nodes n).memctl.uckMemctlAccountFree nrPages })
  | .table n ev => if carriesCount ev then none else s.tableStep mac interval n ev

end LimitCluster

/-! ## Statement -/

/-- The node that would be picked if no limit were looked at. -/
def pickBest (nodes : List RemoteNode) : UInt32 :=
  match (nodes.foldl pickRound (-1, none)).2 with
  | none => 0
  | some target => target.info.nodeId

/-- No count reaches the limit: none that is stored, none of the node tables and none on its way. -/
structure LimitCluster.Below (limit : UInt32) (s : LimitCluster) : Prop where
  own : ∀ n, (s.nodes n).cgroupStats.nrTasks < limit
  table : ∀ n, ∀ x ∈ (s.nodes n).registry.nodes, x.cgroupStats.nrTasks < limit
  inFlight : ∀ x ∈ s.inFlight, x.stats.nrTasks < limit

/-! ## One step -/

section Step

variable {mac : StatsBody → BitVec 256} {interval : UInt64} {limit : UInt32}

theorem forall_update {P : RemoteNode → Prop} {r : Registry} {i : Nat} {f : RemoteNode → RemoteNode}
    (h : ∀ x ∈ r.nodes, P x) (hf : ∀ x, P x → P (f x)) : ∀ x ∈ (r.update i f).nodes, P x := by
  intro x hx
  obtain ⟨j, hj⟩ := List.mem_iff_getElem?.1 hx
  rw [Registry.update, List.getElem?_modify] at hj
  obtain ⟨y, hy, hxy⟩ := Option.map_eq_some_iff.1 hj
  have hy := h y (List.mem_of_getElem? hy)
  split at hxy
  · exact hxy ▸ hf y hy
  · exact hxy ▸ hy

theorem forall_append {P : RemoteNode → Prop} {l : List RemoteNode} {y : RemoteNode} (h : ∀ x ∈ l, P x) (hy : P y) :
    ∀ x ∈ l ++ [y], P x := by
  simpa [or_imp, forall_and] using ⟨h, hy⟩

/-- If the event brings a count, it is one below the limit. -/
def BringsBelow (limit : UInt32) : Registry.Event → Prop
  | .message ⟨_, _, .cgroupStats stats⟩ _ _ _ => stats.nrTasks < limit
  | _ => True

theorem bringsBelow_of_carriesCount {ev : Registry.Event} (h : carriesCount ev = false) : BringsBelow limit ev := by
  unfold carriesCount at h
  split at h
  · cases h
  next hno =>
    unfold BringsBelow
    split
    next src epoch stats admitted hash now => exact absurd rfl (hno src epoch stats admitted hash now)
    · trivial

/-- The counts of a node table change only through messages that bring them. -/
theorem registry_below {r t : Registry} {ev : Registry.Event} (hpos : 0 < limit)
    (h : ∀ x ∈ r.nodes, x.cgroupStats.nrTasks < limit) (hev : BringsBelow limit ev)
    (hs : r.step mac interval ev = some t) : ∀ x ∈ t.nodes, x.cgroupStats.nrTasks < limit := by
  cases Registry.Step.of_step hs with
  | setNode | addFull | inTime | dropped | forged | heartbeatUnknown | stale | joinFull | leaveUnknown | cgroupUnknown
  | other => exact h
  | addNode | join => exact forall_append h hpos
  | miss | death | heartbeat | announce | leave => exact forall_update h fun _ hx => hx
  | @cgroupStats m stats i hash now hd hm hi =>
    obtain ⟨src, epoch, body⟩ := m
    subst hm
    exact forall_update h fun _ _ => hev
  | connect i result =>
    refine forall_update h fun x hx => ?_
    unfold Registry.uckNetConnectNode
    split
    · exact hx
    · cases result <;> exact hx
  | netStop =>
    intro x hx
    obtain ⟨y, hy, rfl⟩ := List.mem_map.1 hx
    unfold Registry.disconnect
    split <;> exact h y hy

/-- A count that reaches the limit is not stored. -/
theorem uckCgroupUpdateLocal_below (n : LimitNode) (totalram pct : Nat) (tasks : List ScannedTask) (hpos : 0 < limit)
    (h : n.cgroupStats.nrTasks < limit) :
    (n.uckCgroupUpdateLocal limit totalram pct tasks).2.cgroupStats.nrTasks < limit ∧
      (n.uckCgroupUpdateLocal limit totalram pct tasks).2.registry = n.registry := by
  unfold LimitNode.uckCgroupUpdateLocal
  dsimp only
  split
  · exact ⟨h, rfl⟩
  next hlimit =>
    split
    · exact ⟨h, rfl⟩
    · exact ⟨UInt32.not_le.1 fun hle => hlimit ⟨hpos, hle⟩, rfl⟩

namespace LimitCluster

variable {s t : LimitCluster}

theorem Below.set (h : s.Below limit) {n : Nat} {x : LimitNode} (hown : x.cgroupStats.nrTasks < limit)
    (htable : ∀ y ∈ x.registry.nodes, y.cgroupStats.nrTasks < limit) : (s.setNode n x).Below limit := by
  refine ⟨fun m => ?_, fun m => ?_, h.inFlight⟩
  · by_cases hm : m = n
    · subst hm
      simpa [setNode] using hown
    · simpa [setNode, hm] using h.own m
  · by_cases hm : m = n
    · subst hm
      simpa [setNode] using htable
    · simpa [setNode, hm] using h.table m

theorem Below.tableStep (h : s.Below limit) (hpos : 0 < limit) {n : Nat} {ev : Registry.Event}
    (hev : BringsBelow limit ev) (hs : s.tableStep mac interval n ev = some t) : t.Below limit := by
  obtain ⟨registry, hr, rfl⟩ := Option.map_eq_some_iff.1 hs
  exact h.set (h.own n) (registry_below hpos (h.table n) hev hr)

/-- **One step.** No count that reaches the limit is stored, sent or received. -/
theorem Below.step (h : s.Below limit) (hpos : 0 < limit) {ev : LimitEvent}
    (hs : s.step mac interval limit ev = some t) : t.Below limit := by
  cases ev with
  | update n totalram pct tasks =>
    obtain rfl := Option.some.inj hs
    obtain ⟨hown, hregistry⟩ := uckCgroupUpdateLocal_below (s.nodes n) totalram pct tasks hpos (h.own n)
    refine h.set hown ?_
    rw [hregistry]
    exact h.table n
  | send n dest =>
    obtain rfl := Option.some.inj hs
    refine ⟨h.own, h.table, fun x hx => ?_⟩
    rcases List.mem_append.1 hx with hx | hx
    · exact h.inFlight x hx
    · rw [List.mem_singleton.1 hx]
      exact h.own n
  | deliver i admitted =>
    simp only [LimitCluster.step] at hs
    split at hs
    · cases hs
    next count hi =>
      have hrest : Below limit { s with inFlight := s.inFlight.eraseIdx i } :=
        ⟨h.own, h.table, fun x hx => h.inFlight x (List.mem_of_mem_eraseIdx hx)⟩
      refine hrest.tableStep hpos ?_ hs
      exact h.inFlight count (List.mem_of_getElem? hi)
  | account n nrPages | unaccount n nrPages =>
    obtain rfl := Option.some.inj hs
    exact h.set (h.own n) (h.table n)
  | table n ev =>
    simp only [LimitCluster.step, Option.ite_none_left_eq_some, Bool.not_eq_true] at hs
    exact h.tableStep hpos (bringsBelow_of_carriesCount hs.1) hs.2

end LimitCluster

end Step

/-! ## Runs -/

/-- A limit that no node is seen to reach does not matter. -/
theorem uckHyperPickNode_of_below {nodes : List RemoteNode} {limit : UInt32}
    (h : ∀ x ∈ nodes, x.cgroupStats.nrTasks < limit) : uckHyperPickNode nodes limit = pickBest nodes := by
  unfold uckHyperPickNode pickBest
  split
  next hlen => rw [List.length_eq_zero_iff.1 hlen]; rfl
  · cases hbest : (nodes.foldl pickRound (-1, none)).2 with
    | none => rfl
    | some target =>
      have hmem : target ∈ nodes := ((picked nodes).found target hbest).1
      exact if_neg (UInt32.not_le.2 (h target hmem))

/-- **All or nothing.** In every run of a cluster, a limit of 0 keeps every fork local, and any other limit keeps none:
the node that is picked is the one with the best score, however many tasks it has. -/
theorem limit_all_or_nothing (mac : StatsBody → BitVec 256) (interval : UInt64) (limit : UInt32) {es : List LimitEvent}
    {s : LimitCluster} (hr : run (LimitCluster.step mac interval limit) {} es = some s) (n : Nat) :
    uckHyperPickNode (s.nodes n).registry.nodes limit =
      if limit = 0 then 0 else pickBest (s.nodes n).registry.nodes := by
  split
  next hzero => rw [hzero]; exact uckHyperPickNode_unlimited _
  next hne =>
    have hpos : 0 < limit := UInt32.pos_iff_ne_zero.2 hne
    have hinit : LimitCluster.Below limit {} :=
      { own := fun _ => hpos, table := fun _ x hx => absurd hx List.not_mem_nil
        inFlight := fun x hx => absurd hx List.not_mem_nil }
    have hend : s.Below limit := run_inv (LimitCluster.Below limit) (fun _ _ _ h hs => h.step hpos hs) hinit hr
    exact uckHyperPickNode_of_below (hend.table n)

/-- A task of a user. -/
def userTask (pid : Int32) : ScannedTask := { pid, uid := 1000, comm := [] }

/-- Node 1 calls itself 7 and is known to node 0, to which it sends a heartbeat and a count of one task; then it has
three. -/
def fullNode : List LimitEvent :=
  [.table 1 (.setNode { nodeId := 7 }), .table 0 (.addNode { nodeId := 7 }),
    .table 0 (.message ⟨7, 0, .heartbeat { nodeId := 7, nrCpus := 4 }⟩ true .done 0),
    .update 1 1000 50 [userTask 10], .send 1 0, .deliver 0 true,
    .update 1 1000 50 [userTask 10, userTask 11, userTask 12], .send 1 0, .deliver 0 true]

theorem fullNode_picked :
    (run (LimitCluster.step (fun _ => 0) 3 2) {} fullNode).map (fun s => pickBest (s.nodes 0).registry.nodes) = some 7 ∧
      ∀ s, run (LimitCluster.step (fun _ => 0) 3 2) {} fullNode = some s →
        uckHyperPickNode (s.nodes 0).registry.nodes 2 = pickBest (s.nodes 0).registry.nodes :=
  ⟨by decide, fun _ hr => limit_all_or_nothing (fun _ => 0) 3 2 hr 0⟩

end UckSmp.Sched
