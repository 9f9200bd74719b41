import UckSmp.Membership.Nodes

/-!
# Connections and addresses

`uck_net_connect_node` connects to the address that is in the entry at the time, `uck_handle_node_leave` and
`uck_net_stop` give the socket up, and `uck_handle_node_announce` writes a new address over the old one.

* `Step.linked_iff`, `connections_lead_iff`: the socket of a connected entry leads to the address of the entry exactly
  while no announcement changes the address of a connected node.
-/

namespace UckSmp.Membership

open Lib Lib.Transition

/-- A connected entry has a socket that was connected to its address, any other entry has none. -/
structure RemoteNode.Linked (x : RemoteNode) : Prop where
  connected : x.connected = true → x.sock = some x.info.addr
  disconnected : x.connected = false → x.sock = none

instance (x : RemoteNode) : Decidable x.Linked :=
  decidable_of_iff ((x.connected = true → x.sock = some x.info.addr) ∧ (x.connected = false → x.sock = none))
    ⟨fun h => ⟨h.1, h.2⟩, fun h => ⟨h.1, h.2⟩⟩

namespace Registry

/-- All entries are. -/
def Linked (r : Registry) : Prop := ∀ x ∈ r.nodes, x.Linked

/-- A payload that reaches its handler does not move a connected node. -/
def Stays (r : Registry) : Payload → Prop
  | .announce ann => ¬ r.Stale ann.epoch → ∀ x ∈ r.entryOf ann.info.nodeId, x.connected = true →
      x.info.addr = ann.info.addr
  | .heartbeat _ => True
  | .leave => True
  | .cgroupStats _ => True
  | .other => True

/-- No announcement moves a connected node. -/
def Unmoved (r : Registry) : Event → Prop
  | .message m admitted _ _ => r.Dispatches m admitted → r.Stays m.body
  | .setNode _ => True
  | .addNode _ => True
  | .check _ _ => True
  | .connect _ _ => True
  | .netStop => True

variable {mac : StatsBody → BitVec 256} {interval : UInt64} {r t : Registry} {x : RemoteNode}

/-! ## Entries -/

theorem linked_uckNetConnectNode (h : x.Linked) (result : Connect) : (uckNetConnectNode result x).Linked := by
  unfold uckNetConnectNode
  split
  · exact h
  · rename_i hc
    cases result with
    | noSocket => exact h
    | refused => exact ⟨fun hc' => absurd hc' hc, fun _ => rfl⟩
    | ok => exact ⟨fun _ => rfl, nofun⟩

theorem linked_disconnect (h : x.Linked) : (disconnect x).Linked := by
  unfold disconnect
  split
  · exact ⟨nofun, fun _ => rfl⟩
  · exact h

/-- After an announcement the socket leads to the new address if the node was not connected, or has not moved. -/
theorem linked_onAnnounce_iff (h : x.Linked) (ann : Announce) (now : UInt64) :
    (onAnnounce ann now x).Linked ↔ (x.connected = true → x.info.addr = ann.info.addr) := by
  constructor
  · intro ht hc
    exact Option.some.inj ((h.connected hc).symm.trans (ht.connected hc))
  · intro haddr
    exact ⟨fun hc => (h.connected hc).trans (congrArg some (haddr hc)), h.disconnected⟩

/-! ## Steps -/

/-- An entry is written. -/
theorem Linked.update_iff (h : r.Linked) (i : Nat) (epoch : UInt32) (f : RemoteNode → RemoteNode) :
    Linked { r.update i f with clusterEpoch := epoch } ↔ ∀ x ∈ r.nodes[i]?, (f x).Linked := by
  constructor
  · intro ht x hx
    exact ht (f x) (Slots.mem_modify_self hx)
  · intro hf y hy
    obtain hy | ⟨x, hx, rfl⟩ := Slots.mem_modify hy
    · exact h y hy
    · exact hf x hx

theorem Linked.update (h : r.Linked) {i : Nat} {epoch : UInt32} (f : RemoteNode → RemoteNode)
    (hf : ∀ x, x.Linked → (f x).Linked) : Linked { r.update i f with clusterEpoch := epoch } :=
  (h.update_iff i epoch f).2 fun x hx => hf x (h x (List.mem_of_getElem? hx))

theorem Linked.append (h : r.Linked) (hx : x.Linked) : Linked { r with nodes := r.nodes ++ [x] } := by
  intro y hy
  obtain hy | hy := List.mem_append.1 hy
  · exact h y hy
  · rw [List.mem_singleton.1 hy]
    exact hx

/-- An entry whose fields of the connection are not written. -/
theorem linked_of_eq {y : RemoteNode} (hi : y.info = x.info) (hs : y.sock = x.sock) (hc : y.connected = x.connected)
    (h : x.Linked) : y.Linked := by
  constructor
  · rw [hi, hs, hc]
    exact h.connected
  · rw [hs, hc]
    exact h.disconnected

/-- A step keeps the connections right exactly if it does not move a connected node. -/
theorem Step.linked_iff {ev : Event} (hs : Step mac interval r ev t) (h : r.Linked) : t.Linked ↔ r.Unmoved ev := by
  cases hs with
  | setNode info => exact iff_of_true h trivial
  | addNode hlen => exact iff_of_true (h.append ⟨nofun, fun _ => rfl⟩) trivial
  | addFull hlen => exact iff_of_true h trivial
  | inTime => exact iff_of_true h trivial
  | miss => exact iff_of_true (h.update onMiss fun _ => linked_of_eq rfl rfl rfl) trivial
  | death => exact iff_of_true (h.update onDeath fun _ => linked_of_eq rfl rfl rfl) trivial
  | dropped _ _ hd => exact iff_of_true h (by simp [Unmoved, hd])
  | forged _ hd hm | heartbeatUnknown _ hd hm | cgroupUnknown _ _ hd hm | other _ _ hd hm =>
    exact iff_of_true h (by simp [Unmoved, hm, Stays])
  | @heartbeat _ stats _ _ now hd hm =>
    exact iff_of_true (h.update (onHeartbeat stats now) fun _ => linked_of_eq rfl rfl rfl)
      (by simp [Unmoved, hm, Stays])
  | stale _ _ hd hm hst => exact iff_of_true h (by simp [Unmoved, hm, Stays, hst])
  | @announce _ ann i _ now hd hm hst hi =>
    refine (h.update_iff i r.clusterEpoch (onAnnounce ann now)).trans ?_
    simp only [Unmoved, hd, hm, Stays, hst, entryOf_eq hi, forall_const, not_false_eq_true]
    exact forall₂_congr fun x hx => linked_onAnnounce_iff (h x (List.mem_of_getElem? hx)) ann now
  | join _ _ hd hm hst hi hlen =>
    exact iff_of_true (h.append ⟨nofun, fun _ => rfl⟩) (by simp [Unmoved, hm, Stays, entryOf_eq_none hi])
  | joinFull _ _ hd hm hst hi => exact iff_of_true h (by simp [Unmoved, hm, Stays, entryOf_eq_none hi])
  | leave _ _ hd hm =>
    exact iff_of_true (h.update onLeave fun _ _ => ⟨nofun, fun _ => rfl⟩) (by simp [Unmoved, hm, Stays])
  | leaveUnknown _ _ hd hm => exact iff_of_true h (by simp [Unmoved, hm, Stays])
  | @cgroupStats _ stats _ _ _ hd hm =>
    exact iff_of_true (h.update (onCgroupStats stats) fun _ => linked_of_eq rfl rfl rfl)
      (by simp [Unmoved, hm, Stays])
  | connect i result =>
    exact iff_of_true (h.update (uckNetConnectNode result) fun _ hx => linked_uckNetConnectNode hx result) trivial
  | netStop =>
    refine iff_of_true (fun y hy => ?_) trivial
    obtain ⟨x, hx, rfl⟩ := List.mem_map.1 hy
    exact linked_disconnect (h x hx)

/-- **Connections lead where the table says** exactly while no announcement moves a connected node. -/
theorem connections_lead_iff (mac : StatsBody → BitVec 256) (interval : UInt64) (es : List Event) :
    Always (step mac interval) Linked init es ↔ EachStep (step mac interval) Unmoved init es := by
  refine always_iff_eachStep (fun r ev t h hs => ?_) (fun r ev hs => absurd hs (step_ne_none mac interval r ev)) ?_
  · exact ((Step.of_step hs).linked_iff h).symm
  · exact fun x hx => absurd hx List.not_mem_nil

/-- A node is connected to and announces itself from another address: messages to it still go to the old one. -/
theorem moved_node_not_followed :
    (run (step (fun _ => 1) 5) init
      [.addNode { nodeId := 2, ipAddr := 7, port := 9 }, .connect 0 .ok,
        .message ⟨2, 0, .announce ⟨{ nodeId := 2, ipAddr := 8, port := 9 }, {}, 0⟩⟩ true .done 3]).map
        (fun r => r.nodes.map fun x => (x.connected, x.sock, x.info.addr)) =
      some [(true, some ⟨7, 9⟩, ⟨8, 9⟩)] := by
  decide

end Registry

end UckSmp.Membership
