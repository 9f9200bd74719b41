import Mathlib.Algebra.Group.Nat.Defs
import Mathlib.Data.List.Basic
import UckSmp.Lib.Slots
import UckSmp.Lib.Transition

/-!
# Membership

The node table of one node and its cluster epoch: the failure detector of the heartbeat thread, the handlers of
`HEARTBEAT`, `NODE_ANNOUNCE` and `NODE_LEAVE`, and the epoch check in front of all handlers. A message is handled in one
step, and so is the failure check of one node, between which the heartbeat thread sends.

Two things are carried along that the code does not have: the epoch in which a message was sent, and the epoch that the
loss of a node raised the cluster to (`fencedAt`), from its loss until it is alive again.
-/

namespace UckSmp.Membership

/-! ## State -/

def uckMaxNodes : Nat := 16

/-- `time_after(a, b)`: the difference is negative as a `long`. -/
def timeAfter (a b : UInt64) : Bool := 2 ^ 63 ≤ (b - a).toNat

/-- `struct uck_remote_node`, as far as membership goes. -/
structure NodeEntry where
  nodeId : UInt32
  connected : Bool := false
  lastHeartbeat : UInt64 := 0
  alive : Bool := false
  missedHeartbeats : UInt32 := 0
  suspect : Bool := false
  fencedAt : Option UInt32 := none
  deriving DecidableEq, Repr

structure Table where
  nodes : List NodeEntry
  clusterEpoch : UInt32
  deriving DecidableEq, Repr

/-- `uck_quorum_init`. -/
def init : Table := ⟨[], 1⟩

/-! ## Messages -/

/-- What membership reads of a payload. A payload of the wrong length, or one that is not received, makes a message an
`other` one: its handler returns. -/
inductive Body
  | heartbeat (nodeId : UInt32) (hmacOk : Bool)
  | announce (nodeId : UInt32) (epoch : UInt32)
  | leave
  | other
  deriving DecidableEq, Repr

/-- A message, with the epoch of its sender at the time of sending. -/
structure Message where
  srcNode : UInt32
  epoch : UInt32
  body : Body
  sentEpoch : UInt32
  deriving DecidableEq, Repr

/-! ## Handlers -/

namespace Table

/-- The entry that the loops over the table stop at. -/
def slotOf (s : Table) (id : UInt32) : Option Nat := s.nodes.findIdx? fun x => x.nodeId = id

/-- The entry of a node that is found first. -/
def entryOf (s : Table) (id : UInt32) : Option NodeEntry := (s.slotOf id).bind (s.nodes[·]?)

def update (s : Table) (i : Nat) (f : NodeEntry → NodeEntry) : Table := { s with nodes := s.nodes.modify i f }

/-- `uck_add_remote_node`; in a full table it returns `-ENOMEM`. -/
def uckAddRemoteNode (s : Table) (x : NodeEntry) : Table :=
  if s.nodes.length < uckMaxNodes then { s with nodes := s.nodes ++ [x] } else s

/-- The entry of a node after a heartbeat. -/
def onHeartbeat (now : UInt64) (x : NodeEntry) : NodeEntry :=
  { x with lastHeartbeat := now, alive := true, missedHeartbeats := 0, suspect := false, fencedAt := none }

/-- `uck_handle_heartbeat`. -/
def uckHandleHeartbeat (s : Table) (nodeId : UInt32) (hmacOk : Bool) (now : UInt64) : Table :=
  if hmacOk then
    match s.slotOf nodeId with
    | some i => s.update i (onHeartbeat now)
    | none => s
  else s

/-- The entry of a known node after an announcement. -/
def onAnnounce (now : UInt64) (x : NodeEntry) : NodeEntry :=
  { x with alive := true, lastHeartbeat := now, fencedAt := none }

/-- `uck_handle_node_announce` refuses the epoch. -/
def Stale (s : Table) (epoch : UInt32) : Prop := epoch ≠ 0 ∧ epoch < s.clusterEpoch

instance (s : Table) (epoch : UInt32) : Decidable (s.Stale epoch) := inferInstanceAs (Decidable (_ ∧ _))

/-- `uck_handle_node_announce`. -/
def uckHandleNodeAnnounce (s : Table) (nodeId epoch : UInt32) (now : UInt64) : Table :=
  if s.Stale epoch then s
  else
    match s.slotOf nodeId with
    | some i => s.update i (onAnnounce now)
    | none => s.uckAddRemoteNode { nodeId, alive := true, lastHeartbeat := now }

/-- The entry of a node that leaves, with the new epoch. -/
def onLeave (epoch : UInt32) (x : NodeEntry) : NodeEntry :=
  { x with alive := false, connected := false, fencedAt := some epoch }

/-- `uck_handle_node_leave`: the epoch is raised for a leaving node that is not in the table, too. -/
def uckHandleNodeLeave (s : Table) (src : UInt32) : Table :=
  let s' := { s with clusterEpoch := s.clusterEpoch + 1 }
  match s.slotOf src with
  | some i => s'.update i (onLeave s'.clusterEpoch)
  | none => s'

/-- The heartbeat of a living node is overdue: `time_after` in `uck_heartbeat_thread`. -/
def Overdue (interval now : UInt64) (x : NodeEntry) : Prop :=
  x.alive = true ∧ timeAfter now (x.lastHeartbeat + interval) = true

instance (interval now : UInt64) (x : NodeEntry) : Decidable (Overdue interval now x) :=
  inferInstanceAs (Decidable (_ ∧ _))

/-- The overdue heartbeat is the third one, or a later one. -/
def Lost (x : NodeEntry) : Prop := x.missedHeartbeats + 1 ≠ 1 ∧ 3 ≤ x.missedHeartbeats + 1

instance (x : NodeEntry) : Decidable (Lost x) := inferInstanceAs (Decidable (_ ∧ _))

/-- The entry of a node whose heartbeat is overdue. -/
def onMiss (x : NodeEntry) : NodeEntry :=
  { x with missedHeartbeats := x.missedHeartbeats + 1,
           suspect := if x.missedHeartbeats + 1 = 1 then true else x.suspect }

/-- The entry of a node that is declared dead, with the new epoch. -/
def onDeath (epoch : UInt32) (x : NodeEntry) : NodeEntry :=
  { x with missedHeartbeats := x.missedHeartbeats + 1, alive := false, suspect := false, fencedAt := some epoch }

/-- The failure check of `uck_heartbeat_thread` for one node. -/
def checkNode (interval : UInt64) (s : Table) (i : Nat) (now : UInt64) : Table :=
  match s.nodes[i]? with
  | none => s
  | some x =>
    if Overdue interval now x then
      if Lost x then { s with clusterEpoch := s.clusterEpoch + 1 }.update i (onDeath (s.clusterEpoch + 1))
      else s.update i onMiss
    else s

/-- The epoch check of `uck_handle_client`, for a message that passed the rate limiter or not. -/
def Dispatches (s : Table) (m : Message) (admitted : Bool) : Prop :=
  admitted = true ∧ ¬ (m.epoch ≠ 0 ∧ m.epoch < s.clusterEpoch)

instance (s : Table) (m : Message) (admitted : Bool) : Decidable (s.Dispatches m admitted) :=
  inferInstanceAs (Decidable (_ ∧ _))

/-- The handlers behind `uck_handle_client`. -/
def handle (s : Table) (m : Message) (now : UInt64) : Table :=
  match m.body with
  | .heartbeat nodeId hmacOk => s.uckHandleHeartbeat nodeId hmacOk now
  | .announce nodeId epoch => s.uckHandleNodeAnnounce nodeId epoch now
  | .leave => s.uckHandleNodeLeave m.srcNode
  | .other => s

end Table

/-! ## Runs -/

inductive Event
  /-- The `UCK_IOC_ADD_NODE` ioctl. -/
  | addNode (id : UInt32)
  | check (i : Nat) (now : UInt64)
  | message (m : Message) (admitted : Bool) (now : UInt64)
  deriving DecidableEq, Repr

/-- One step; `interval` is `UCK_HEARTBEAT_INTERVAL_MS` in jiffies. -/
def step (interval : UInt64) (s : Table) : Event → Option Table
  | .addNode id => some (s.uckAddRemoteNode { nodeId := id })
  | .check i now => some (s.checkNode interval i now)
  | .message m admitted now => some (if s.Dispatches m admitted then s.handle m now else s)

/-! ## What a step does -/

/-- The entry of the node that a message shows to be there. -/
def Table.contact (s : Table) (m : Message) : Option Nat :=
  match m.body with
  | .heartbeat id hmacOk => if hmacOk then s.slotOf id else none
  | .announce id epoch => if s.Stale epoch then none else s.slotOf id
  | .leave => none
  | .other => none

/-- The steps, each with what it is in the code. -/
inductive Step (interval : UInt64) (s : Table) : Event → Table → Prop
  | addNode (id : UInt32) : Step interval s (.addNode id) (s.uckAddRemoteNode { nodeId := id })
  | inTime {i : Nat} {now : UInt64} (h : ∀ x ∈ s.nodes[i]?, ¬ Table.Overdue interval now x) :
      Step interval s (.check i now) s
  | miss {i : Nat} {now : UInt64} {x : NodeEntry} (hx : s.nodes[i]? = some x) (ho : Table.Overdue interval now x)
      (hl : ¬ Table.Lost x) : Step interval s (.check i now) (s.update i Table.onMiss)
  | death {i : Nat} {now : UInt64} {x : NodeEntry} (hx : s.nodes[i]? = some x) (ho : Table.Overdue interval now x)
      (hl : Table.Lost x) : Step interval s (.check i now)
        ({ s with clusterEpoch := s.clusterEpoch + 1 }.update i (Table.onDeath (s.clusterEpoch + 1)))
  | dropped {m : Message} {admitted : Bool} (now : UInt64) (h : ¬ s.Dispatches m admitted) :
      Step interval s (.message m admitted now) s
  | ignored {m : Message} (now : UInt64) (hd : s.Dispatches m true) (hc : s.contact m = none) (hl : m.body ≠ .leave) :
      Step interval s (.message m true now) s
  | heartbeat {m : Message} {id : UInt32} {i : Nat} (now : UInt64) (hd : s.Dispatches m true)
      (hm : m.body = .heartbeat id true) (hi : s.slotOf id = some i) :
      Step interval s (.message m true now) (s.update i (Table.onHeartbeat now))
  | announce {m : Message} {id epoch : UInt32} {i : Nat} (now : UInt64) (hd : s.Dispatches m true)
      (hm : m.body = .announce id epoch) (hst : ¬ s.Stale epoch) (hi : s.slotOf id = some i) :
      Step interval s (.message m true now) (s.update i (Table.onAnnounce now))
  | join {m : Message} {id epoch : UInt32} (now : UInt64) (hd : s.Dispatches m true) (hm : m.body = .announce id epoch)
      (hst : ¬ s.Stale epoch) (hi : s.slotOf id = none) : Step interval s (.message m true now)
        (s.uckAddRemoteNode { nodeId := id, alive := true, lastHeartbeat := now })
  | leave {m : Message} {i : Nat} (now : UInt64) (hd : s.Dispatches m true) (hm : m.body = .leave)
      (hi : s.slotOf m.srcNode = some i) : Step interval s (.message m true now)
        ({ s with clusterEpoch := s.clusterEpoch + 1 }.update i (Table.onLeave (s.clusterEpoch + 1)))
  | leaveUnknown {m : Message} (now : UInt64) (hd : s.Dispatches m true) (hm : m.body = .leave)
      (hi : s.slotOf m.srcNode = none) :
      Step interval s (.message m true now) { s with clusterEpoch := s.clusterEpoch + 1 }

/-- The failure check of one node. -/
theorem Step.of_checkNode (interval : UInt64) (s : Table) (i : Nat) (now : UInt64) :
    Step interval s (.check i now) (s.checkNode interval i now) := by
  unfold Table.checkNode
  cases hx : s.nodes[i]? with
  | none => exact .inTime (by simp [hx])
  | some x =>
    simp only
    split
    · rename_i ho
      split
      · exact .death hx ho ‹_›
      · exact .miss hx ho ‹_›
    · rename_i ho
      exact .inTime (by simp [hx, ho])

/-- A message that reaches its handler. -/
theorem Step.of_handle (interval : UInt64) {s : Table} {m : Message} (hd : s.Dispatches m true) (now : UInt64) :
    Step interval s (.message m true now) (s.handle m now) := by
  unfold Table.handle
  cases hm : m.body with
  | heartbeat id hmacOk =>
    simp only [Table.uckHandleHeartbeat]
    cases hmacOk with
    | false => exact .ignored now hd (by simp [Table.contact, hm]) (by simp [hm])
    | true =>
      cases hi : s.slotOf id with
      | none => exact .ignored now hd (by simp [Table.contact, hm, hi]) (by simp [hm])
      | some i => exact .heartbeat now hd hm hi
  | announce id epoch =>
    simp only [Table.uckHandleNodeAnnounce]
    split
    · rename_i hst
      exact .ignored now hd (by simp [Table.contact, hm, hst]) (by simp [hm])
    · rename_i hst
      cases hi : s.slotOf id with
      | none => exact .join now hd hm hst hi
      | some i => exact .announce now hd hm hst hi
  | leave =>
    simp only [Table.uckHandleNodeLeave]
    cases hi : s.slotOf m.srcNode with
    | none => exact .leaveUnknown now hd hm hi
    | some i => exact .leave now hd hm hi
  | other => exact .ignored now hd (by simp [Table.contact, hm]) (by simp [hm])

theorem Step.of_step {interval : UInt64} {s t : Table} {ev : Event} (h : step interval s ev = some t) :
    Step interval s ev t := by
  cases ev with
  | addNode id =>
    cases h
    exact .addNode id
  | check i now =>
    cases h
    exact .of_checkNode interval s i now
  | message m admitted now =>
    cases h
    split
    · rename_i hd
      obtain rfl := hd.1
      exact .of_handle interval hd now
    · exact .dropped now ‹_›

/-! ## Entries after a step -/

section Entries

variable {interval : UInt64} {s t : Table} {i : Nat} {x y : NodeEntry}

theorem getElem?_update (s : Table) (i : Nat) (f : NodeEntry → NodeEntry) (j : Nat) :
    (s.update i f).nodes[j]? = if i = j then s.nodes[j]?.map f else s.nodes[j]? := by
  rw [Table.update, List.getElem?_modify]
  split <;> simp

theorem nodeId_of_slotOf {id : UInt32} (h : s.slotOf id = some i) (hx : s.nodes[i]? = some x) : x.nodeId = id :=
  Lib.Slots.key_of_slotOf NodeEntry.nodeId h hx

/-- An entry that is found by its number exists. -/
theorem exists_of_slotOf {id : UInt32} (h : s.slotOf id = some i) :
    ∃ x, s.nodes[i]? = some x ∧ s.entryOf id = some x := by
  obtain ⟨x, hx, -⟩ := Lib.Slots.exists_of_slotOf NodeEntry.nodeId h
  exact ⟨x, hx, by rw [Table.entryOf, h, Option.bind_some, hx]⟩

/-- Adding a node leaves the entries as they are. -/
theorem getElem?_uckAddRemoteNode {z : NodeEntry} (hx : s.nodes[i]? = some x)
    (hy : (s.uckAddRemoteNode z).nodes[i]? = some y) : y = x := by
  obtain ⟨hj, -⟩ := List.getElem?_eq_some_iff.1 hx
  unfold Table.uckAddRemoteNode at hy
  split at hy
  · rw [List.getElem?_append_left hj, hx] at hy
    exact (Option.some.inj hy).symm
  · exact (Option.some.inj (hx.symm.trans hy)).symm

/-- An entry after a change at slot `j`. -/
theorem getElem?_update_cases {j : Nat} {f : NodeEntry → NodeEntry} (hx : s.nodes[i]? = some x)
    (hy : (s.update j f).nodes[i]? = some y) : (j = i ∧ y = f x) ∨ y = x := by
  rw [getElem?_update, hx] at hy
  split at hy
  · exact .inl ⟨‹_›, (Option.some.inj hy).symm⟩
  · exact .inr (Option.some.inj hy).symm

/-- What brings an entry to life: a valid heartbeat of its node, or an announcement of it that is not refused. -/
theorem step_alive {ev : Event} (hx : s.nodes[i]? = some x) (hs : step interval s ev = some t)
    (hy : t.nodes[i]? = some y) (hdead : x.alive = false) (halive : y.alive = true) :
    ∃ m now, ev = .message m true now ∧ s.Dispatches m true ∧ s.slotOf x.nodeId = some i ∧
      (m.body = .heartbeat x.nodeId true ∨ ∃ epoch, m.body = .announce x.nodeId epoch ∧ ¬ s.Stale epoch) := by
  have hne : y ≠ x := by
    rintro rfl
    rw [hdead] at halive
    cases halive
  have hsame : s.nodes[i]? = some y → False := fun h => hne (Option.some.inj (h.symm.trans hx))
  cases Step.of_step hs with
  | addNode id => exact (hne (getElem?_uckAddRemoteNode hx hy)).elim
  | inTime => exact (hsame hy).elim
  | miss =>
    obtain ⟨-, rfl⟩ := (getElem?_update_cases hx hy).resolve_right hne
    exact absurd (hdead.symm.trans halive) Bool.false_ne_true
  | death =>
    obtain ⟨-, rfl⟩ :=
      (getElem?_update_cases (s := { s with clusterEpoch := s.clusterEpoch + 1 }) hx hy).resolve_right hne
    cases halive
  | dropped => exact (hsame hy).elim
  | ignored => exact (hsame hy).elim
  | @heartbeat m id j now hd hm hj =>
    obtain ⟨rfl, -⟩ := (getElem?_update_cases hx hy).resolve_right hne
    obtain rfl := nodeId_of_slotOf hj hx
    exact ⟨m, now, rfl, hd, hj, .inl hm⟩
  | @announce m id epoch j now hd hm hst hj =>
    obtain ⟨rfl, -⟩ := (getElem?_update_cases hx hy).resolve_right hne
    obtain rfl := nodeId_of_slotOf hj hx
    exact ⟨m, now, rfl, hd, hj, .inr ⟨epoch, hm, hst⟩⟩
  | join => exact (hne (getElem?_uckAddRemoteNode hx hy)).elim
  | leave =>
    obtain ⟨-, rfl⟩ :=
      (getElem?_update_cases (s := { s with clusterEpoch := s.clusterEpoch + 1 }) hx hy).resolve_right hne
    cases halive
  | leaveUnknown => exact (hsame hy).elim

end Entries

end UckSmp.Membership
