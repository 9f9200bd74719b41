import Mathlib.Data.Finset.Card
import UckSmp.Membership.Table

/-!
# Joining

How the announcement of a node spreads: a member that receives a `NODE_ANNOUNCE` of a node it does not have in its table
adds the node and sends the announcement on to every peer it believes to be alive. The handler changes the table under
`uck_state.lock` and walks the table afterwards without it, so that the other handlers of the member, and other
announcements, come in between any two entries.

- `flood_stops`: members that have room for every node announced to them broadcast it once, and the announcements of a
  node are at most `uckMaxNodes` times as many as the members.
- `join_reaches`: a peer that was alive when the broadcast came to it has the node in its table, or an announcement is
  on its way to it.
-/

namespace UckSmp.Membership

open Lib.Transition

/-! ## Tables grow -/

namespace Table

def ids (s : Table) : List UInt32 := s.nodes.map (·.nodeId)

/-- Nodes are only appended, and never too many. -/
structure Grows (s t : Table) : Prop where
  ids : ∃ l, t.ids = s.ids ++ l
  cap : s.nodes.length ≤ uckMaxNodes → t.nodes.length ≤ uckMaxNodes

variable {s t : Table} {id : UInt32}

@[simp] theorem length_ids (s : Table) : s.ids.length = s.nodes.length := List.length_map _

theorem Grows.of_ids_eq (h : t.ids = s.ids) : Grows s t := by
  constructor
  · exact ⟨[], by rw [h, List.append_nil]⟩
  · intro hs
    rw [← length_ids, h, length_ids]
    exact hs

theorem Grows.mem (h : Grows s t) (hid : id ∈ s.ids) : id ∈ t.ids := by
  obtain ⟨l, hl⟩ := h.ids
  rw [hl]
  exact List.mem_append_left l hid

theorem Grows.append (h : s.Grows t) {l : List UInt32} (hl : ∃ r, s.ids = l ++ r) :
    ∃ r, t.ids = l ++ r := by
  obtain ⟨r, hr⟩ := hl
  obtain ⟨r', hr'⟩ := h.ids
  exact ⟨r ++ r', by rw [hr', hr, List.append_assoc]⟩

theorem Grows.trans {u : Table} (h : s.Grows t) (h' : t.Grows u) : s.Grows u := by
  refine ⟨?_, fun hs => h'.cap (h.cap hs)⟩
  obtain ⟨l, hl⟩ := h'.ids
  rw [hl]
  obtain ⟨r, hr⟩ := h.ids
  exact ⟨r ++ l, by rw [hr, List.append_assoc]⟩

theorem slotOf_eq_none_iff : s.slotOf id = none ↔ id ∉ s.ids := by
  simp [slotOf, ids, List.findIdx?_eq_none_iff]

theorem ids_update (i : Nat) {f : NodeEntry → NodeEntry} (hf : ∀ x, (f x).nodeId = x.nodeId) :
    (s.update i f).ids = s.ids := by
  apply List.ext_getElem?
  intro j
  simp only [ids, List.getElem?_map, getElem?_update]
  split
  · cases s.nodes[j]? <;> simp [hf]
  · rfl

theorem grows_uckAddRemoteNode (s : Table) (x : NodeEntry) : Grows s (s.uckAddRemoteNode x) := by
  unfold uckAddRemoteNode
  split
  · constructor
    · exact ⟨[x.nodeId], List.map_append⟩
    · intro _
      rw [List.length_append, List.length_singleton]
      omega
  · exact .of_ids_eq rfl

theorem grows_uckHandleNodeAnnounce (s : Table) (nodeId epoch : UInt32) (now : UInt64) :
    Grows s (s.uckHandleNodeAnnounce nodeId epoch now) := by
  unfold uckHandleNodeAnnounce
  split
  · exact .of_ids_eq rfl
  · split
    · exact .of_ids_eq (ids_update _ fun _ => rfl)
    · exact grows_uckAddRemoteNode _ _

/-- An announcement that is not refused leaves the node in a table that has room for it. -/
theorem mem_ids_uckHandleNodeAnnounce {epoch : UInt32} (hst : ¬ s.Stale epoch)
    (hroom : id ∉ s.ids → s.nodes.length < uckMaxNodes) (now : UInt64) :
    id ∈ (s.uckHandleNodeAnnounce id epoch now).ids := by
  unfold uckHandleNodeAnnounce
  rw [if_neg hst]
  cases hs : s.slotOf id with
  | none =>
    have hlt := hroom (slotOf_eq_none_iff.1 hs)
    simp [uckAddRemoteNode, hlt, ids]
  | some i =>
    have hids : (s.update i (onAnnounce now)).ids = s.ids := ids_update _ fun _ => rfl
    by_contra hn
    rw [slotOf_eq_none_iff.2 (hids ▸ hn)] at hs
    cases hs

end Table

/-- No event takes a node out of a table. -/
theorem grows_step {interval : UInt64} {s t : Table} {ev : Event} (h : step interval s ev = some t) : s.Grows t := by
  have hraise : s.Grows { s with clusterEpoch := s.clusterEpoch + 1 } := .of_ids_eq rfl
  cases Step.of_step h with
  | addNode => exact Table.grows_uckAddRemoteNode _ _
  | inTime => exact .of_ids_eq rfl
  | miss => exact .of_ids_eq (Table.ids_update _ fun _ => rfl)
  | death => exact hraise.trans (.of_ids_eq (Table.ids_update _ fun _ => rfl))
  | dropped => exact .of_ids_eq rfl
  | ignored => exact .of_ids_eq rfl
  | heartbeat => exact .of_ids_eq (Table.ids_update _ fun _ => rfl)
  | announce => exact .of_ids_eq (Table.ids_update _ fun _ => rfl)
  | join => exact Table.grows_uckAddRemoteNode _ _
  | leave => exact hraise.trans (.of_ids_eq (Table.ids_update _ fun _ => rfl))
  | leaveUnknown => exact hraise

namespace Join

/-! ## The cluster -/

/-- A `NODE_ANNOUNCE` on its way. -/
structure Announcement where
  dst : UInt32
  nodeId : UInt32
  epoch : UInt32
  deriving DecidableEq, Repr

/-- A broadcast of `uck_handle_node_announce`: the nodes in the table when it begins, and the entries that its loop has
come to, as they were then. -/
structure Broadcast where
  member : UInt32
  nodeId : UInt32
  epoch : UInt32
  peers : List UInt32
  seen : List NodeEntry := []
  done : Bool := false
  deriving DecidableEq, Repr

def Broadcast.key (b : Broadcast) : UInt32 × UInt32 := (b.member, b.nodeId)

/-- The loop sends the announcement to this entry. -/
def Broadcast.Tells (b : Broadcast) (x : NodeEntry) : Prop := x.nodeId ≠ b.nodeId ∧ x.alive = true

instance (b : Broadcast) (x : NodeEntry) : Decidable (b.Tells x) := inferInstanceAs (Decidable (_ ∧ _))

/-- The entries the announcement was sent to. -/
def Broadcast.told (b : Broadcast) : List NodeEntry := b.seen.filter fun x => b.Tells x

/-- The tables of all nodes, the announcements in flight and all broadcasts that were begun. -/
structure Cluster where
  table : UInt32 → Table
  flight : List Announcement := []
  broadcasts : List Broadcast := []

inductive Ev
  /-- An announcement is sent by a node that joins. -/
  | join (a : Announcement)
  /-- The `i`-th announcement in flight arrives. -/
  | deliver (i : Nat) (now : UInt64)
  /-- The `i`-th announcement in flight is lost, or throttled by its receiver. -/
  | lose (i : Nat)
  /-- The loop of the `i`-th broadcast comes to its next entry. -/
  | forward (i : Nat)
  /-- Anything else that happens at a member: heartbeats, departures, failure checks, the ioctl. -/
  | other (m : UInt32) (ev : Event)
  deriving DecidableEq, Repr

/-- The event is the receipt of an announcement. -/
def isAnnounce : Event → Bool
  | .message m _ _ => match m.body with
    | .announce _ _ => true
    | _ => false
  | _ => false

namespace Cluster

variable (s : Cluster)

/-- The `i`-th announcement is not in flight any more. -/
def take (i : Nat) : Cluster := { s with flight := s.flight.eraseIdx i }

/-- The section of `uck_handle_node_announce` under `uck_state.lock`. -/
def enter (a : Announcement) (now : UInt64) : Cluster :=
  { s with table := Function.update s.table a.dst ((s.table a.dst).uckHandleNodeAnnounce a.nodeId a.epoch now) }

/-- A broadcast begins. -/
def begin (a : Announcement) : Cluster :=
  { s with broadcasts := s.broadcasts ++
      [{ member := a.dst, nodeId := a.nodeId, epoch := a.epoch, peers := (s.table a.dst).ids }] }

/-- `uck_handle_node_announce` at the receiver, up to the loop of the broadcast. A node that was not in the table is
broadcast, whether it could be added or not. -/
def handle (a : Announcement) (now : UInt64) : Cluster :=
  if (s.table a.dst).Stale a.epoch then s
  else if ((s.table a.dst).slotOf a.nodeId).isNone then (s.enter a now).begin a
  else s.enter a now

/-- The loop of a broadcast comes to the entry `x`. -/
def visit (i : Nat) (b : Broadcast) (x : NodeEntry) : Cluster :=
  { s with
    flight := if b.Tells x then s.flight ++ [⟨x.nodeId, b.nodeId, b.epoch⟩] else s.flight
    broadcasts := s.broadcasts.set i { b with seen := b.seen ++ [x] } }

/-- One step of the loop of the `i`-th broadcast over the table, as it is now. -/
def forward (i : Nat) (b : Broadcast) : Cluster :=
  match (s.table b.member).nodes[b.seen.length]? with
  | some x => s.visit i b x
  | none => { s with broadcasts := s.broadcasts.set i { b with done := true } }

/-- The broadcasts of one node. -/
def broadcastsOf (n : UInt32) : List Broadcast := s.broadcasts.filter fun b => b.nodeId = n

/-- The announcements of one node that the members have sent. -/
def announcements (n : UInt32) : List NodeEntry := (s.broadcastsOf n).flatMap Broadcast.told

/-- A member that handles an announcement of a node it does not know has room for the node. -/
def HasRoom : Ev → Prop
  | .deliver i _ => ∀ a ∈ s.flight[i]?, a.nodeId ∉ (s.table a.dst).ids → (s.table a.dst).nodes.length < uckMaxNodes
  | _ => True

instance (ev : Ev) : Decidable (s.HasRoom ev) := by
  cases ev <;> unfold HasRoom <;> infer_instance

end Cluster

/-- One step; `interval` is `UCK_HEARTBEAT_INTERVAL_MS` in jiffies. -/
def step (interval : UInt64) (s : Cluster) : Ev → Option Cluster
  | .join a => some { s with flight := s.flight ++ [a] }
  | .deliver i now => s.flight[i]?.map fun a => (s.take i).handle a now
  | .lose i => if i < s.flight.length then some (s.take i) else none
  | .forward i => s.broadcasts[i]?.bind fun b => if b.done then none else some (s.forward i b)
  | .other m ev =>
    if isAnnounce ev then none
    else (Membership.step interval (s.table m) ev).map fun t => { s with table := Function.update s.table m t }

/-- Nothing is announced yet. -/
def start (table : UInt32 → Table) : Cluster := { table }

/-! ## What a step changes -/

section Steps

variable {interval : UInt64} {s t : Cluster} {ev : Ev} {i : Nat} {b : Broadcast}

theorem grows_update {table : UInt32 → Table} {m : UInt32} {u : Table} (h : (table m).Grows u) (k : UInt32) :
    (table k).Grows (Function.update table m u k) := by
  by_cases hk : k = m
  · subst hk
    rw [Function.update_self]
    exact h
  · rw [Function.update_of_ne hk]
    exact .of_ids_eq rfl

theorem grows_enter (s : Cluster) (a : Announcement) (now : UInt64) (k : UInt32) :
    (s.table k).Grows ((s.enter a now).table k) :=
  grows_update (Table.grows_uckHandleNodeAnnounce _ _ _ _) k

theorem grows_handle (s : Cluster) (a : Announcement) (now : UInt64) (k : UInt32) :
    (s.table k).Grows ((s.handle a now).table k) := by
  unfold Cluster.handle
  split
  · exact .of_ids_eq rfl
  · split
    · exact grows_enter s a now k
    · exact grows_enter s a now k

/-- The receiver knows the node after the locked section. -/
theorem mem_ids_enter {a : Announcement} (hst : ¬ (s.table a.dst).Stale a.epoch)
    (hroom : a.nodeId ∉ (s.table a.dst).ids → (s.table a.dst).nodes.length < uckMaxNodes) (now : UInt64) :
    a.nodeId ∈ ((s.enter a now).table a.dst).ids := by
  simp only [Cluster.enter, Function.update_self]
  exact Table.mem_ids_uckHandleNodeAnnounce hst hroom now

theorem forward_table (s : Cluster) (i : Nat) (b : Broadcast) : (s.forward i b).table = s.table := by
  unfold Cluster.forward
  split <;> rfl

theorem step_grows (h : step interval s ev = some t) (k : UInt32) : (s.table k).Grows (t.table k) := by
  cases ev with
  | join a =>
    cases h
    exact .of_ids_eq rfl
  | deliver i now =>
    obtain ⟨a, -, rfl⟩ := Option.map_eq_some_iff.1 h
    exact grows_handle (s.take i) a now k
  | lose i =>
    obtain ⟨-, h⟩ := Option.ite_none_right_eq_some.1 h
    cases h
    exact .of_ids_eq rfl
  | forward i =>
    obtain ⟨b, -, h⟩ := Option.bind_eq_some_iff.1 h
    obtain ⟨-, h⟩ := Option.ite_none_left_eq_some.1 h
    cases h
    rw [forward_table]
    exact .of_ids_eq rfl
  | other m ev =>
    obtain ⟨-, h⟩ := Option.ite_none_left_eq_some.1 h
    obtain ⟨u, hu, rfl⟩ := Option.map_eq_some_iff.1 h
    exact grows_update (grows_step hu) k

/-- What a change of the `i`-th broadcast leaves of all of them. -/
theorem mem_set_cases {bs : List Broadcast} {b' x : Broadcast} (hx : x ∈ bs.set i b') : x ∈ bs ∨ x = b' :=
  List.mem_or_eq_of_mem_set hx

theorem map_key_set {bs : List Broadcast} {b' : Broadcast} (hb : bs[i]? = some b) (hk : b'.key = b.key) :
    (bs.set i b').map Broadcast.key = bs.map Broadcast.key := by
  rw [List.map_set, hk]
  apply List.ext_getElem?
  intro j
  rw [List.getElem?_set]
  split
  · rename_i hij
    subst hij
    obtain ⟨hlt, rfl⟩ := List.getElem?_eq_some_iff.1 hb
    simp [hlt]
  · rfl

end Steps

/-! ## Broadcasts happen once -/

/-- Each member broadcasts a node once, and the announcements of a node that members whose broadcasts are within `M`
send are bounded by the size of `M`. -/
structure FloodStops (s : Cluster) : Prop where
  once : ∀ m n, (s.broadcasts.map Broadcast.key).count (m, n) ≤ 1
  bounded : ∀ n (M : Finset UInt32), (∀ b ∈ s.broadcasts, b.nodeId = n → b.member ∈ M) →
    (s.announcements n).length ≤ uckMaxNodes * M.card

/-- What keeps the broadcasts apart: a member that broadcast a node has it in its table. -/
structure Once (s : Cluster) : Prop where
  cap : ∀ m, (s.table m).nodes.length ≤ uckMaxNodes
  distinct : (s.broadcasts.map Broadcast.key).Nodup
  knows : ∀ b ∈ s.broadcasts, b.nodeId ∈ (s.table b.member).ids
  seen : ∀ b ∈ s.broadcasts, b.seen.length ≤ uckMaxNodes

section Flood

variable {interval : UInt64} {s t : Cluster} {ev : Ev} {i : Nat} {b : Broadcast}

theorem Once.start {table : UInt32 → Table} (hcap : ∀ m, (table m).nodes.length ≤ uckMaxNodes) :
    Once (start table) where
  cap := hcap
  distinct := List.nodup_nil
  knows := by simp [Join.start]
  seen := by simp [Join.start]

/-- Growing tables make no difference to the broadcasts. -/
theorem Once.grow (h : Once s) (hg : ∀ m, (s.table m).Grows (t.table m)) (hb : t.broadcasts = s.broadcasts) :
    Once t where
  cap m := (hg m).cap (h.cap m)
  distinct := hb ▸ h.distinct
  knows b hmem := (hg b.member).mem (h.knows b (hb ▸ hmem))
  seen b hmem := h.seen b (hb ▸ hmem)

/-- A broadcast goes on. -/
theorem Once.set (b' : Broadcast) (h : Once s) (hb : s.broadcasts[i]? = some b) (hk : b'.key = b.key)
    (hseen : b'.seen.length ≤ uckMaxNodes) (ht : t.table = s.table) (hbs : t.broadcasts = s.broadcasts.set i b') :
    Once t where
  cap m := ht ▸ h.cap m
  distinct := by
    rw [hbs, map_key_set hb hk]
    exact h.distinct
  knows x hx := by
    rw [ht]
    rcases mem_set_cases (hbs ▸ hx) with hx | rfl
    · exact h.knows x hx
    · obtain ⟨hm, hn⟩ := Prod.ext_iff.1 hk
      have hknows := h.knows b (List.mem_of_getElem? hb)
      rw [← show x.member = b.member from hm, ← show x.nodeId = b.nodeId from hn] at hknows
      exact hknows
  seen x hx := by
    rcases mem_set_cases (hbs ▸ hx) with hx | rfl
    · exact h.seen x hx
    · exact hseen

theorem Once.forward (h : Once s) (hb : s.broadcasts[i]? = some b) : Once (s.forward i b) := by
  have hold := h.seen b (List.mem_of_getElem? hb)
  unfold Cluster.forward
  split
  · rename_i x hx
    refine h.set { b with seen := b.seen ++ [x] } hb rfl ?_ rfl rfl
    obtain ⟨hlt, -⟩ := List.getElem?_eq_some_iff.1 hx
    have hcap := h.cap b.member
    rw [List.length_append, List.length_singleton]
    omega
  · exact h.set { b with done := true } hb rfl hold rfl rfl

/-- A member begins its first broadcast of a node that it knows. -/
theorem Once.begin (h : Once s) {a : Announcement} (hnew : ∀ b ∈ s.broadcasts, b.key ≠ (a.dst, a.nodeId))
    (hmem : a.nodeId ∈ (s.table a.dst).ids) : Once (s.begin a) where
  cap := h.cap
  distinct := by
    rw [Cluster.begin, List.map_append, List.map_singleton]
    refine List.nodup_append.2 ⟨h.distinct, List.nodup_singleton _, ?_⟩
    intro k hk k' hk'
    obtain ⟨b, hb, rfl⟩ := List.mem_map.1 hk
    rw [List.mem_singleton.1 hk']
    exact hnew b hb
  knows b hb := by
    rcases List.mem_append.1 hb with hb | hb
    · exact h.knows b hb
    · rw [List.mem_singleton.1 hb]
      exact hmem
  seen b hb := by
    rcases List.mem_append.1 hb with hb | hb
    · exact h.seen b hb
    · rw [List.mem_singleton.1 hb]
      exact Nat.zero_le _

theorem Once.handle (h : Once s) {a : Announcement} (now : UInt64)
    (hroom : a.nodeId ∉ (s.table a.dst).ids → (s.table a.dst).nodes.length < uckMaxNodes) : Once (s.handle a now) := by
  unfold Cluster.handle
  split
  · exact h
  · rename_i hst
    have henter : Once (s.enter a now) := h.grow (grows_enter s a now) rfl
    split
    · rename_i hnew
      -- a member that broadcast the node before would have it in its table
      refine henter.begin (fun b hb hk => ?_) (mem_ids_enter hst hroom now)
      obtain ⟨hm, hn⟩ := Prod.ext_iff.1 hk
      have hknows := h.knows b hb
      rw [show b.member = a.dst from hm, show b.nodeId = a.nodeId from hn] at hknows
      exact Table.slotOf_eq_none_iff.1 (Option.isNone_iff_eq_none.1 hnew) hknows
    · exact henter

theorem step_once (h : Once s) (hroom : s.HasRoom ev) (hs : step interval s ev = some t) : Once t := by
  have hg := step_grows hs
  cases ev with
  | join a =>
    cases hs
    exact h.grow hg rfl
  | deliver i now =>
    obtain ⟨a, ha, rfl⟩ := Option.map_eq_some_iff.1 hs
    have htake : Once (s.take i) := h.grow (fun _ => .of_ids_eq rfl) rfl
    exact htake.handle now (hroom a ha)
  | lose i =>
    obtain ⟨-, hs⟩ := Option.ite_none_right_eq_some.1 hs
    cases hs
    exact h.grow hg rfl
  | forward i =>
    obtain ⟨b, hb, hs⟩ := Option.bind_eq_some_iff.1 hs
    obtain ⟨-, hs⟩ := Option.ite_none_left_eq_some.1 hs
    cases hs
    exact h.forward hb
  | other m ev =>
    obtain ⟨-, hs⟩ := Option.ite_none_left_eq_some.1 hs
    obtain ⟨u, -, rfl⟩ := Option.map_eq_some_iff.1 hs
    exact h.grow hg rfl

/-- The members that broadcast a node are all different. -/
theorem Once.card_le (h : Once s) {n : UInt32} {M : Finset UInt32}
    (hM : ∀ b ∈ s.broadcasts, b.nodeId = n → b.member ∈ M) : (s.broadcastsOf n).length ≤ M.card := by
  have hnodup : ((s.broadcastsOf n).map Broadcast.member).Nodup := by
    have hkeys : ((s.broadcastsOf n).map Broadcast.key).Nodup := h.distinct.sublist (List.filter_sublist.map _)
    have hmap : (s.broadcastsOf n).map Broadcast.key = ((s.broadcastsOf n).map Broadcast.member).map (·, n) := by
      rw [List.map_map]
      refine List.map_congr_left fun b hb => ?_
      rw [← of_decide_eq_true (List.mem_filter.1 hb).2]
      rfl
    rw [hmap] at hkeys
    exact hkeys.of_map _
  rw [← List.length_map Broadcast.member, ← List.toFinset_card_of_nodup hnodup]
  apply Finset.card_le_card
  intro m hm
  obtain ⟨b, hb, rfl⟩ := List.mem_map.1 (List.mem_toFinset.1 hm)
  obtain ⟨hb, hn⟩ := List.mem_filter.1 hb
  exact hM b hb (of_decide_eq_true hn)

theorem length_flatMap_le {α β : Type*} {f : α → List β} {k : Nat} {l : List α} (h : ∀ x ∈ l, (f x).length ≤ k) :
    (l.flatMap f).length ≤ k * l.length := by
  induction l with
  | nil => exact Nat.zero_le _
  | cons x l ih =>
    have hx := h x List.mem_cons_self
    have hl := ih fun y hy => h y (List.mem_cons_of_mem _ hy)
    rw [List.flatMap_cons, List.length_append, List.length_cons, Nat.mul_succ]
    omega

theorem Once.floodStops (h : Once s) : FloodStops s where
  once m n := List.nodup_iff_count_le_one.1 h.distinct (m, n)
  bounded n M hM := by
    have hlen := h.card_le hM
    have htold : ∀ b ∈ s.broadcastsOf n, b.told.length ≤ uckMaxNodes := by
      intro b hb
      have hseen := h.seen b (List.mem_filter.1 hb).1
      have hle : b.told.length ≤ b.seen.length := List.length_filter_le _ _
      omega
    calc (s.announcements n).length ≤ uckMaxNodes * (s.broadcastsOf n).length := length_flatMap_le htold
      _ ≤ uckMaxNodes * M.card := Nat.mul_le_mul_left _ hlen

/-- **Flooding stops**: when the members have room for the nodes announced to them, whatever the peer tables are and
however the announcements travel, each member broadcasts a node once. -/
theorem flood_stops (interval : UInt64) {table : UInt32 → Table} (hcap : ∀ m, (table m).nodes.length ≤ uckMaxNodes)
    {es : List Ev} (hroom : EachStep (step interval) Cluster.HasRoom (start table) es) :
    Always (step interval) FloodStops (start table) es :=
  Always.of_eachStep Once (fun _ _ _ h hg hs => step_once h hg hs) (fun _ h => h.floodStops) (.start hcap) hroom

/-- Two members that know each other, each with `k` further nodes in its table, all of them dead. -/
def twoMembers (k : Nat) (m : UInt32) : Table :=
  if m = 1 then ⟨{ nodeId := 2, alive := true } :: (List.range k).map fun i => { nodeId := .ofNat (100 + i) }, 1⟩
  else if m = 2 then ⟨{ nodeId := 1, alive := true } :: (List.range k).map fun i => { nodeId := .ofNat (100 + i) }, 1⟩
  else init

/-- Node 99 joins at the first member, which tells the second one, which tells the first one. -/
def roundTrip : List Ev :=
  [.join ⟨1, 99, 0⟩, .deliver 0 0, .forward 0, .deliver 0 0, .forward 1, .deliver 0 0]

theorem twoMembers_flood_stops :
    (∀ m, (twoMembers 3 m).nodes.length ≤ uckMaxNodes) ∧
      Always (step 0) FloodStops (start (twoMembers 3)) roundTrip := by
  have hcap : ∀ m, (twoMembers 3 m).nodes.length ≤ uckMaxNodes := by
    intro m
    unfold twoMembers
    split
    · decide
    · split <;> decide
  exact ⟨hcap, flood_stops 0 hcap (by decide)⟩

/-- With full tables the announcement comes back to the first member, which broadcasts it again. -/
theorem twoMembers_floods :
    (∀ m ∈ [1, 2], (twoMembers 15 m).nodes.length = uckMaxNodes) ∧
      ¬ Always (step 0) FloodStops (start (twoMembers 15)) roundTrip := by
  refine ⟨fun m hm => ?_, fun h => ?_⟩
  · simp only [List.mem_cons, List.not_mem_nil, or_false] at hm
    rcases hm with rfl | rfl <;> decide
  · exact absurd ((h.get (by decide)).once 1 99) (by decide)

end Flood

/-! ## Joins reach the peers -/

/-- The node is in the table of the peer, or an announcement is on its way there. -/
def Cluster.Reached (s : Cluster) (n peer : UInt32) : Prop :=
  n ∈ (s.table peer).ids ∨ ∃ a ∈ s.flight, a.dst = peer ∧ a.nodeId = n

/-- What a broadcast is good for. -/
structure JoinReaches (s : Cluster) : Prop where
  /-- The member that broadcasts a node has added it. -/
  added : ∀ b ∈ s.broadcasts, b.nodeId ∈ (s.table b.member).ids
  /-- A broadcast that is over came to all the nodes in the table when it began. -/
  complete : ∀ b ∈ s.broadcasts, b.done = true → ∀ peer ∈ b.peers, ∃ x ∈ b.seen, x.nodeId = peer
  /-- Those that were alive are reached, -/
  reached : ∀ b ∈ s.broadcasts, ∀ x ∈ b.seen, x.nodeId ≠ b.nodeId → x.alive = true → s.Reached b.nodeId x.nodeId
  /-- so that they know the node when nothing is in flight. -/
  quiet : s.flight = [] → ∀ b ∈ s.broadcasts, ∀ x ∈ b.seen, x.nodeId ≠ b.nodeId → x.alive = true →
    b.nodeId ∈ (s.table x.nodeId).ids

/-- What relates a broadcast to the tables and to the announcements in flight. -/
structure Sound (s : Cluster) (b : Broadcast) : Prop where
  epoch : b.epoch = 0
  added : b.nodeId ∈ (s.table b.member).ids
  peers : ∃ l, (s.table b.member).ids = b.peers ++ l
  seen : ∃ l, (s.table b.member).ids = b.seen.map (·.nodeId) ++ l
  complete : b.done = true → b.peers.length ≤ b.seen.length
  reached : ∀ x ∈ b.seen, b.Tells x → s.Reached b.nodeId x.nodeId

structure Spreads (s : Cluster) : Prop where
  epoch : ∀ a ∈ s.flight, a.epoch = 0
  sound : ∀ b ∈ s.broadcasts, Sound s b

/-- Announcements are not lost and carry no epoch. -/
def Cluster.Reliable (s : Cluster) (ev : Ev) : Prop :=
  s.HasRoom ev ∧ match ev with
    | .join a => a.epoch = 0
    | .lose _ => False
    | _ => True

instance (s : Cluster) (ev : Ev) : Decidable (s.Reliable ev) := by
  unfold Cluster.Reliable
  cases ev <;> infer_instance

section Spread

variable {interval : UInt64} {s t : Cluster} {ev : Ev} {i : Nat} {b : Broadcast}

theorem Spreads.start (table : UInt32 → Table) : Spreads (start table) := by
  constructor <;> simp [Join.start]

/-- Tables grow, and an announcement is not in flight any more when its receiver knows the node. -/
theorem Sound.grow (h : Sound s b) (hg : ∀ m, (s.table m).Grows (t.table m))
    (hf : ∀ a ∈ s.flight, a ∈ t.flight ∨ a.nodeId ∈ (t.table a.dst).ids) : Sound t b where
  epoch := h.epoch
  added := (hg _).mem h.added
  peers := (hg _).append h.peers
  seen := (hg _).append h.seen
  complete := h.complete
  reached x hx ht := by
    rcases h.reached x hx ht with hk | ⟨a, ha, hd, hn⟩
    · exact .inl ((hg _).mem hk)
    · rcases hf a ha with ha | hk
      · exact .inr ⟨a, ha, hd, hn⟩
      · exact .inl (by rwa [hd, hn] at hk)

theorem Spreads.begin (h : Spreads s) {a : Announcement} (hep : a.epoch = 0)
    (hmem : a.nodeId ∈ (s.table a.dst).ids) : Spreads (s.begin a) where
  epoch := h.epoch
  sound b hb := by
    rcases List.mem_append.1 hb with hb | hb
    · exact (h.sound b hb).grow (fun _ => .of_ids_eq rfl) fun _ => .inl
    · rw [List.mem_singleton.1 hb]
      constructor
      · exact hep
      · exact hmem
      · exact ⟨[], (List.append_nil _).symm⟩
      · exact ⟨_, rfl⟩
      · intro hd
        cases hd
      · intro x hx
        cases hx

/-- The announcement that arrives is one that its receiver knows the node of after the locked section. -/
theorem Spreads.handle (h : Spreads s) {a : Announcement} (ha : s.flight[i]? = some a) (now : UInt64)
    (hroom : a.nodeId ∉ (s.table a.dst).ids → (s.table a.dst).nodes.length < uckMaxNodes) :
    Spreads ((s.take i).handle a now) := by
  have hep := h.epoch a (List.mem_of_getElem? ha)
  have hst : ¬ ((s.take i).table a.dst).Stale a.epoch := fun hst => hst.1 hep
  have hknows : a.nodeId ∈ (((s.take i).enter a now).table a.dst).ids := mem_ids_enter hst hroom now
  have henter : Spreads ((s.take i).enter a now) := by
    constructor
    · exact fun a' ha' => h.epoch a' (List.mem_of_mem_eraseIdx ha')
    · intro b hb
      refine (h.sound b hb).grow (grows_enter (s.take i) a now) fun a' ha' => ?_
      by_cases hne : a' = a
      · subst hne
        exact .inr hknows
      · refine .inl (List.mem_eraseIdx_iff_getElem?.2 ?_)
        obtain ⟨j, hj⟩ := List.mem_iff_getElem?.1 ha'
        refine ⟨j, fun hij => hne ?_, hj⟩
        subst hij
        exact Option.some.inj (hj.symm.trans ha)
  unfold Cluster.handle
  rw [if_neg hst]
  split
  · exact henter.begin hep hknows
  · exact henter

theorem mem_flight_visit {x : NodeEntry} {a : Announcement} (ha : a ∈ s.flight) : a ∈ (s.visit i b x).flight := by
  unfold Cluster.visit
  simp only
  split
  · exact List.mem_append_left _ ha
  · exact ha

/-- The loop comes to an entry. -/
theorem Sound.visit (h : Sound s b) {x : NodeEntry} (hx : (s.table b.member).nodes[b.seen.length]? = some x)
    (hdone : b.done = false) : Sound (s.visit i b x) { b with seen := b.seen ++ [x] } where
  epoch := h.epoch
  added := h.added
  peers := h.peers
  seen := by
    obtain ⟨l, hl⟩ := h.seen
    have hget : (s.table b.member).ids[b.seen.length]? = some x.nodeId := by
      rw [Table.ids, List.getElem?_map, hx]
      rfl
    rw [hl, List.getElem?_append_right (by simp), List.length_map, Nat.sub_self] at hget
    cases l with
    | nil => cases hget
    | cons y l =>
      cases hget
      exact ⟨l, by simp [Cluster.visit, hl]⟩
  complete hd := by
    rw [show b.done = true from hd] at hdone
    cases hdone
  reached y hy ht := by
    rcases List.mem_append.1 hy with hy | hy
    · rcases h.reached y hy ht with hk | ⟨a, ha, hd⟩
      · exact .inl hk
      · exact .inr ⟨a, mem_flight_visit ha, hd⟩
    · obtain rfl := List.mem_singleton.1 hy
      refine .inr ⟨⟨y.nodeId, b.nodeId, b.epoch⟩, ?_, rfl, rfl⟩
      have ht : b.Tells y := ht
      simp only [Cluster.visit, if_pos ht]
      exact List.mem_append_right _ List.mem_cons_self

theorem Spreads.forward (h : Spreads s) (hb : s.broadcasts[i]? = some b) (hdone : b.done = false) :
    Spreads (s.forward i b) := by
  have hsound := h.sound b (List.mem_of_getElem? hb)
  unfold Cluster.forward
  split
  · rename_i x hx
    constructor
    · intro a ha
      unfold Cluster.visit at ha
      simp only at ha
      split at ha
      · rcases List.mem_append.1 ha with ha | ha
        · exact h.epoch a ha
        · rw [List.mem_singleton.1 ha]
          exact hsound.epoch
      · exact h.epoch a ha
    · intro b' hb'
      rcases mem_set_cases hb' with hb' | rfl
      · refine (h.sound b' hb').grow (fun _ => .of_ids_eq rfl) fun a ha => .inl ?_
        exact mem_flight_visit ha
      · exact hsound.visit hx hdone
  · rename_i hx
    constructor
    · exact h.epoch
    · intro b' hb'
      rcases mem_set_cases hb' with hb' | rfl
      · exact (h.sound b' hb').grow (fun _ => .of_ids_eq rfl) fun _ => .inl
      · refine ⟨hsound.epoch, hsound.added, hsound.peers, hsound.seen, fun _ => ?_, hsound.reached⟩
        obtain ⟨l, hl⟩ := hsound.peers
        have hlen := congrArg List.length hl
        rw [Table.length_ids, List.length_append] at hlen
        have hend := List.getElem?_eq_none_iff.1 hx
        simp only
        omega

theorem step_spreads (h : Spreads s) (hrel : s.Reliable ev) (hs : step interval s ev = some t) : Spreads t := by
  have hg := step_grows hs
  cases ev with
  | join a =>
    cases hs
    constructor
    · intro a' ha'
      rcases List.mem_append.1 ha' with ha' | ha'
      · exact h.epoch a' ha'
      · rw [List.mem_singleton.1 ha']
        exact hrel.2
    · exact fun b hb => (h.sound b hb).grow hg fun a' ha' => .inl (List.mem_append_left _ ha')
  | deliver i now =>
    obtain ⟨a, ha, rfl⟩ := Option.map_eq_some_iff.1 hs
    exact h.handle ha now (hrel.1 a ha)
  | lose i => exact hrel.2.elim
  | forward i =>
    obtain ⟨b, hb, hs⟩ := Option.bind_eq_some_iff.1 hs
    obtain ⟨hdone, hs⟩ := Option.ite_none_left_eq_some.1 hs
    cases hs
    exact h.forward hb (Bool.not_eq_true _ ▸ hdone)
  | other m ev =>
    obtain ⟨-, hs⟩ := Option.ite_none_left_eq_some.1 hs
    obtain ⟨u, -, rfl⟩ := Option.map_eq_some_iff.1 hs
    exact ⟨h.epoch, fun b hb => (h.sound b hb).grow hg fun _ => .inl⟩

/-- A broadcast that is over came to every node that was in the table. -/
theorem Sound.mem_seen (h : Sound s b) (hdone : b.done = true) {peer : UInt32} (hp : peer ∈ b.peers) :
    ∃ x ∈ b.seen, x.nodeId = peer := by
  obtain ⟨l, hl⟩ := h.peers
  obtain ⟨r, hr⟩ := h.seen
  -- both are initial parts of the table now, and the nodes then are the shorter one
  have heq : b.peers = (b.seen.map (·.nodeId)).take b.peers.length := by
    have htake := congrArg (List.take b.peers.length) (hl.symm.trans hr)
    rwa [List.take_left, List.take_append_of_le_length (by simpa using h.complete hdone)] at htake
  rw [heq] at hp
  exact List.mem_map.1 (List.mem_of_mem_take hp)

theorem Spreads.joinReaches (h : Spreads s) : JoinReaches s where
  added b hb := (h.sound b hb).added
  complete b hb hdone _ hp := (h.sound b hb).mem_seen hdone hp
  reached b hb x hx hne halive := (h.sound b hb).reached x hx ⟨hne, halive⟩
  quiet hf b hb x hx hne halive := by
    rcases (h.sound b hb).reached x hx ⟨hne, halive⟩ with hk | ⟨a, ha, -⟩
    · exact hk
    · rw [hf] at ha
      cases ha

/-- **A join reaches every peer**: when members have room for the nodes announced to them, and announcements carry no
epoch and are delivered, in whatever order, a peer that was alive when a broadcast came to it knows the node or will be
told. -/
theorem join_reaches (interval : UInt64) (table : UInt32 → Table) {es : List Ev}
    (hrel : EachStep (step interval) Cluster.Reliable (start table) es) :
    Always (step interval) JoinReaches (start table) es :=
  Always.of_eachStep Spreads (fun _ _ _ h hg hs => step_spreads h hg hs) (fun _ h => h.joinReaches) (.start table) hrel

theorem twoMembers_join_reaches :
    (run (step 0) (start (twoMembers 3)) roundTrip).isSome = true ∧
      Always (step 0) JoinReaches (start (twoMembers 3)) roundTrip :=
  ⟨by decide, join_reaches 0 (twoMembers 3) (by decide)⟩

end Spread

end Join

end UckSmp.Membership
