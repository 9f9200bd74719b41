import Mathlib.Data.Finset.Card
import UckSmp.Membership.Nodes
import UckSmp.Membership.Quorum

/-!
# One entry for each node

The loops over the node table stop at the first entry of a node, and `uck_get_cluster_info` and `uck_quorum_check` count
entries for nodes. Both are right as long as every node has one entry and the local node has none.
`uck_handle_node_announce` looks for the node before it adds one; the ioctls do not, and nothing looks for the local
node.

* `Distinct.unique`: what follows when all entries are different.
* `unique_iff`: the entries are different exactly while the numbers that are set, added or announced are new.
-/

namespace UckSmp.Membership

open Lib Lib.Transition

/-- `struct uck_cluster_info`. -/
structure ClusterInfo where
  numNodes : UInt32
  totalCpus : UInt32
  totalMem : UInt64
  totalFreeMem : UInt64
  totalRunning : UInt32
  deriving DecidableEq, Repr

/-- What `uck_get_cluster_info` adds for one entry. -/
def ClusterInfo.add (info : ClusterInfo) (node : RemoteNode) : ClusterInfo :=
  if node.alive then
    { numNodes := info.numNodes + 1
      totalCpus := info.totalCpus + node.stats.nrCpus
      totalMem := info.totalMem + node.stats.totalMem
      totalFreeMem := info.totalFreeMem + node.stats.freeMem
      totalRunning := info.totalRunning + node.stats.nrRunning }
  else info

/-- `uck_get_cluster_info`, with the stats of the local node. -/
def uckGetClusterInfo (localStats : StatsBody) (nodes : List RemoteNode) : ClusterInfo :=
  nodes.foldl ClusterInfo.add
    ⟨1, localStats.nrCpus, localStats.totalMem, localStats.freeMem, localStats.nrRunning⟩

namespace Registry

/-! ## Statement -/

/-- The numbers of the entries. -/
def ids (r : Registry) : List UInt32 := r.nodes.map (·.info.nodeId)

/-- The nodes that the table knows, with the local one. -/
def known (r : Registry) : Finset UInt32 := insert r.localNode.nodeId r.ids.toFinset

/-- The nodes that it believes to be alive, with the local one. -/
def living (r : Registry) : Finset UInt32 :=
  insert r.localNode.nodeId ((r.nodes.filter (·.alive)).map (·.info.nodeId)).toFinset

/-- The table has room for its entries, no two are of one node, and none is of the local node. -/
structure Distinct (r : Registry) : Prop where
  bound : r.nodes.length ≤ uckMaxNodes
  nodup : r.ids.Nodup
  foreign : r.localNode.nodeId ∉ r.ids

/-- And what the rest of the code relies on. -/
structure Unique (r : Registry) : Prop extends Distinct r where
  /-- The entry that a search for a node stops at is its only one. -/
  only : ∀ {id i j x}, r.slotOf id = some i → r.nodes[j]? = some x → x.info.nodeId = id → j = i
  /-- `uck_get_cluster_info` counts nodes. -/
  clusterInfo : ∀ localStats, (uckGetClusterInfo localStats r.nodes).numNodes.toNat = r.living.card
  /-- `uck_quorum_check` finds a majority of the nodes alive, or degrades. -/
  quorum : ∀ q, (uckQuorumCheck (r.nodes.map member) q).degraded = false ↔ r.known.card < 2 * r.living.card

/-- A payload that reaches its handler does not announce the local node. -/
def NotSelf (r : Registry) : Payload → Prop
  | .announce ann => ¬ r.Stale ann.epoch → ann.info.nodeId ∉ r.ids → r.nodes.length < uckMaxNodes →
      ann.info.nodeId ≠ r.localNode.nodeId
  | .heartbeat _ => True
  | .leave => True
  | .cgroupStats _ => True
  | .other => True

/-- The number of a node that is set or gets an entry is new. -/
def Fresh (r : Registry) : Event → Prop
  | .setNode info => info.nodeId ∉ r.ids
  | .addNode info => r.nodes.length < uckMaxNodes → info.nodeId ∉ r.ids ∧ info.nodeId ≠ r.localNode.nodeId
  | .message m admitted _ _ => r.Dispatches m admitted → r.NotSelf m.body
  | .check _ _ => True
  | .connect _ _ => True
  | .netStop => True

/-! ## What different entries are good for -/

variable {mac : StatsBody → BitVec 256} {interval : UInt64} {r t : Registry}

theorem numNodes_foldl (nodes : List RemoteNode) (info : ClusterInfo) :
    (nodes.foldl ClusterInfo.add info).numNodes = info.numNodes + .ofNat (nodes.countP (·.alive)) := by
  induction nodes generalizing info with
  | nil => simp
  | cons x nodes ih =>
    rw [List.foldl_cons, ih, ClusterInfo.add]
    cases hx : x.alive with
    | true =>
      simp only [if_true, List.countP_cons_of_pos (p := fun z : RemoteNode => z.alive) hx, UInt32.ofNat_add]
      rw [UInt32.add_assoc, UInt32.add_comm 1]
      rfl
    | false => simp [hx]

/-- `uck_get_cluster_info` counts the local node and the others that are alive. -/
theorem toNat_numNodes (localStats : StatsBody) {nodes : List RemoteNode} (hlen : nodes.length ≤ uckMaxNodes) :
    (uckGetClusterInfo localStats nodes).numNodes.toNat = 1 + nodes.countP (·.alive) := by
  have hle : nodes.countP (·.alive) ≤ 16 := List.countP_le_length.trans hlen
  rw [uckGetClusterInfo, numNodes_foldl, UInt32.toNat_add, UInt32.toNat_ofNat_of_lt' (by rw [UInt32.size]; omega),
    UInt32.toNat_one]
  omega

namespace Distinct

theorem card_known (h : Distinct r) : r.known.card = r.nodes.length + 1 := by
  rw [known, Finset.card_insert_of_notMem (by simpa using h.foreign), List.toFinset_card_of_nodup h.nodup, ids,
    List.length_map]

theorem card_living (h : Distinct r) : r.living.card = r.nodes.countP (·.alive) + 1 := by
  have hsub : ((r.nodes.filter (·.alive)).map (·.info.nodeId)).Sublist r.ids := List.filter_sublist.map _
  rw [living, Finset.card_insert_of_notMem, List.toFinset_card_of_nodup (h.nodup.sublist hsub), List.length_map,
    List.countP_eq_length_filter]
  intro hmem
  exact h.foreign (hsub.subset (List.mem_toFinset.1 hmem))

theorem clusterInfo (h : Distinct r) (localStats : StatsBody) :
    (uckGetClusterInfo localStats r.nodes).numNodes.toNat = r.living.card := by
  rw [toNat_numNodes localStats h.bound, h.card_living, Nat.add_comm]

theorem quorum (h : Distinct r) (q : Quorum) :
    (uckQuorumCheck (r.nodes.map member) q).degraded = false ↔ r.known.card < 2 * r.living.card := by
  rw [uckQuorumCheck_degraded_eq_false_iff, h.card_known, h.card_living, aliveCount, List.length_map, List.countP_map,
    Nat.add_comm 1]
  rfl

theorem unique (h : Distinct r) : Unique r where
  toDistinct := h
  only hi hx hid := Slots.eq_of_slotOf (fun z : RemoteNode => z.info.nodeId) h.nodup hi hx hid
  clusterInfo := h.clusterInfo
  quorum := h.quorum

/-! ## Steps -/

/-- A step that changes no number. -/
theorem of_ids_eq (h : Distinct r) (hl : t.localNode = r.localNode) (hids : t.ids = r.ids) : Distinct t where
  bound := by
    have hlen := congrArg List.length hids
    rw [ids, ids, List.length_map, List.length_map] at hlen
    exact hlen ▸ h.bound
  nodup := hids ▸ h.nodup
  foreign := by
    rw [hl, hids]
    exact h.foreign

end Distinct

theorem ids_append (r : Registry) (x : RemoteNode) :
    ids { r with nodes := r.nodes ++ [x] } = r.ids ++ [x.info.nodeId] := by
  simp [ids]

/-- The entries are different after one more exactly if it is new. -/
theorem distinct_append_iff (h : Distinct r) (hlen : r.nodes.length < uckMaxNodes) (x : RemoteNode) :
    Distinct { r with nodes := r.nodes ++ [x] } ↔ x.info.nodeId ∉ r.ids ∧ x.info.nodeId ≠ r.localNode.nodeId := by
  constructor
  · intro ht
    have hnodup := ht.nodup
    have hforeign := ht.foreign
    rw [ids_append] at hnodup hforeign
    refine ⟨fun hmem => ?_, fun heq => ?_⟩
    · exact (List.disjoint_of_nodup_append hnodup) hmem List.mem_cons_self
    · exact hforeign (by simp [heq])
  · rintro ⟨hnew, hne⟩
    refine ⟨?_, ?_, ?_⟩
    · rw [List.length_append, List.length_singleton]
      exact hlen
    · rw [ids_append]
      simp [List.nodup_append, h.nodup]
      rintro a ha rfl
      exact hnew ha
    · rw [ids_append]
      simp [h.foreign, hne.symm]

/-- An entry is written, and keeps its number. -/
theorem Distinct.update (h : Distinct r) {i : Nat} {epoch : UInt32} (f : RemoteNode → RemoteNode)
    (hf : ∀ x ∈ r.nodes[i]?, (f x).info.nodeId = x.info.nodeId) :
    Distinct { r.update i f with clusterEpoch := epoch } :=
  h.of_ids_eq rfl ((Slots.map_modify_eq_iff _ _).2 hf)

theorem ids_uckNetStop (r : Registry) : r.uckNetStop.ids = r.ids := by
  rw [uckNetStop, ids, ids, List.map_map]
  refine List.map_congr_left fun x _ => ?_
  simp only [Function.comp_apply, disconnect]
  split <;> rfl

theorem nodeId_uckNetConnectNode (result : Connect) (x : RemoteNode) :
    (uckNetConnectNode result x).info.nodeId = x.info.nodeId := by
  unfold uckNetConnectNode
  split
  · rfl
  · cases result <;> rfl

theorem notMem_ids_iff {id : UInt32} : id ∉ r.ids ↔ r.slotOf id = none := Slots.slotOf_eq_none_iff.symm

/-- A step keeps the entries different exactly if its numbers are new. -/
theorem Step.distinct_iff {ev : Event} (hs : Step mac interval r ev t) (h : Distinct r) :
    Distinct t ↔ r.Fresh ev := by
  cases hs with
  | setNode info => exact ⟨fun ht => ht.foreign, fun hf => ⟨h.bound, h.nodup, hf⟩⟩
  | addNode hlen => simp only [Fresh, hlen, forall_const, distinct_append_iff h hlen]
  | addFull hlen => simp only [Fresh, Nat.not_lt.2 hlen, false_imp_iff, h]
  | inTime => exact iff_of_true h trivial
  | miss => exact iff_of_true (h.update onMiss fun _ _ => rfl) trivial
  | death => exact iff_of_true (h.update onDeath fun _ _ => rfl) trivial
  | dropped _ _ hd => simp only [Fresh, hd, false_imp_iff, h]
  | forged _ hd hm | heartbeatUnknown _ hd hm | cgroupUnknown _ _ hd hm | other _ _ hd hm =>
    exact iff_of_true h (by simp [Fresh, hm, NotSelf])
  | @heartbeat _ stats _ _ now hd hm =>
    exact iff_of_true (h.update (onHeartbeat stats now) fun _ _ => rfl) (by simp [Fresh, hm, NotSelf])
  | stale _ _ hd hm hst => exact iff_of_true h (by simp [Fresh, hm, NotSelf, hst])
  | @announce _ ann i _ now hd hm hst hi =>
    refine iff_of_true (h.update (onAnnounce ann now) fun x hx => ?_) ?_
    · exact (nodeId_of_slotOf hi hx).symm
    · simp [Fresh, hm, NotSelf, notMem_ids_iff, hi]
  | join _ _ hd hm hst hi hlen =>
    rw [distinct_append_iff h hlen]
    simp [Fresh, hm, hd, NotSelf, hst, notMem_ids_iff, hi, hlen, onJoin]
  | joinFull _ _ hd hm hst hi hlen => exact iff_of_true h (by simp [Fresh, hm, NotSelf, Nat.not_lt.2 hlen])
  | leave _ _ hd hm => exact iff_of_true (h.update onLeave fun _ _ => rfl) (by simp [Fresh, hm, NotSelf])
  | leaveUnknown _ _ hd hm => exact iff_of_true (h.of_ids_eq rfl rfl) (by simp [Fresh, hm, NotSelf])
  | @cgroupStats _ stats _ _ _ hd hm =>
    exact iff_of_true (h.update (onCgroupStats stats) fun _ _ => rfl) (by simp [Fresh, hm, NotSelf])
  | connect i result =>
    exact iff_of_true (h.update (uckNetConnectNode result) fun x _ => nodeId_uckNetConnectNode result x) trivial
  | netStop => exact iff_of_true (h.of_ids_eq rfl (ids_uckNetStop r)) trivial

/-- **One entry for each node**: from the loading of the module on, every node has one entry, the local one none, the
lookups find that entry and the counts are numbers of nodes, exactly while the numbers that are set, added or announced
are new. -/
theorem unique_iff (mac : StatsBody → BitVec 256) (interval : UInt64) (es : List Event) :
    Always (step mac interval) Unique init es ↔ EachStep (step mac interval) Fresh init es := by
  have hinit : Unique init := Distinct.unique ⟨Nat.zero_le _, List.nodup_nil, List.not_mem_nil⟩
  refine always_iff_eachStep (fun r ev t h hs => ?_) (fun r ev hs => absurd hs (step_ne_none mac interval r ev)) hinit
  have hiff := (Step.of_step hs).distinct_iff h.toDistinct
  exact ⟨fun hf => (hiff.2 hf).unique, fun ht => hiff.1 ht.toDistinct⟩

/-- A node that is added twice has two entries, the second of which is never found, and is two of the three nodes that
`uck_quorum_check` counts. -/
theorem node_added_twice :
    (run (step (fun _ => 1) 5) init
      [.setNode { nodeId := 1 }, .addNode { nodeId := 2, ipAddr := 7 }, .addNode { nodeId := 2, ipAddr := 8 }]).map
        (fun r => (r.ids, r.slotOf 2, r.nodes.length + 1, r.known.card)) = some ([2, 2], some 0, 3, 2) := by
  decide

end Registry

end UckSmp.Membership
