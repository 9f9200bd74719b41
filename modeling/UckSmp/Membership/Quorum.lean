import Mathlib.Data.Finset.Card
import UckSmp.Membership.Table

/-!
# Quorum

`uck_quorum_check` counts the nodes that are alive in the node's own table, itself included, against a majority of the
configured ones, and sets or clears the degraded mode. Each node decides for itself, from flags that need not agree
with any other node's.

- `no_split_brain`: nodes that see only nodes of their own partition alive, and are not degraded, are in one partition.
-/

namespace UckSmp.Membership

/-- The quorum fields of `uck_state`. -/
structure Quorum where
  degraded : Bool := false
  threshold : Nat := 1
  deriving DecidableEq, Repr

/-- `alive_count` of `uck_quorum_check`: the node itself and the entries that are alive. -/
def aliveCount (nodes : List NodeEntry) : Nat := 1 + nodes.countP (·.alive)

/-- `uck_quorum_check`. -/
def uckQuorumCheck (nodes : List NodeEntry) (q : Quorum) : Quorum :=
  let totalConfigured := nodes.length + 1
  if totalConfigured ≤ 1 then { q with degraded := false }
  else
    let threshold := totalConfigured / 2 + 1
    { threshold, degraded := decide (aliveCount nodes < threshold) }

/-- The node is not degraded after the check just if a majority is alive. -/
theorem uckQuorumCheck_degraded_eq_false_iff (nodes : List NodeEntry) (q : Quorum) :
    (uckQuorumCheck nodes q).degraded = false ↔ nodes.length + 1 < 2 * aliveCount nodes := by
  simp only [uckQuorumCheck]
  split
  · have hpos : 0 < aliveCount nodes := by
      unfold aliveCount
      omega
    constructor
    · intro _
      omega
    · intro _
      rfl
  · simp only [decide_eq_false_iff_not]
    omega

/-- A cluster cut into partitions: every member lists every other one once and believes only members of its own
partition to be alive. -/
structure Partitioned (β : Type*) where
  members : Finset UInt32
  nodes : UInt32 → List NodeEntry
  block : UInt32 → β
  listed_once : ∀ n ∈ members, ((nodes n).map (·.nodeId)).Nodup
  lists_others : ∀ n ∈ members, ∀ m, m ∈ (nodes n).map (·.nodeId) ↔ m ∈ members ∧ m ≠ n
  alive_block : ∀ n ∈ members, ∀ x ∈ nodes n, x.alive = true → block x.nodeId = block n

namespace Partitioned

variable {β : Type*} (P : Partitioned β) {n m : UInt32}

/-- The members in the partition of `n`. -/
noncomputable def side (n : UInt32) : Finset UInt32 := by
  classical exact P.members.filter fun m => P.block m = P.block n

theorem mem_side {n m : UInt32} : m ∈ P.side n ↔ m ∈ P.members ∧ P.block m = P.block n := by
  unfold side
  simp only [Finset.mem_filter]

/-- The table of a member has an entry for every other one. -/
theorem length_nodes (hn : n ∈ P.members) : (P.nodes n).length + 1 = P.members.card := by
  have hlist : ((P.nodes n).map (·.nodeId)).toFinset = P.members.erase n := by
    ext m
    rw [List.mem_toFinset, P.lists_others n hn m, Finset.mem_erase]
    exact and_comm
  have hcard := List.toFinset_card_of_nodup (P.listed_once n hn)
  rw [hlist, Finset.card_erase_of_mem hn, List.length_map] at hcard
  have hpos := Finset.card_pos.2 ⟨n, hn⟩
  omega

/-- What a member counts is at most its own partition. -/
theorem aliveCount_le_card_side (hn : n ∈ P.members) : aliveCount (P.nodes n) ≤ (P.side n).card := by
  have hnodup : (((P.nodes n).filter (·.alive)).map (·.nodeId)).Nodup :=
    (P.listed_once n hn).sublist (List.filter_sublist.map _)
  have hsub : (((P.nodes n).filter (·.alive)).map (·.nodeId)).toFinset ⊆ (P.side n).erase n := by
    intro m hm
    rw [List.mem_toFinset, List.mem_map] at hm
    obtain ⟨x, hx, rfl⟩ := hm
    obtain ⟨hx, halive⟩ := List.mem_filter.1 hx
    obtain ⟨hmem, hne⟩ := (P.lists_others n hn x.nodeId).1 (List.mem_map_of_mem hx)
    exact Finset.mem_erase.2 ⟨hne, P.mem_side.2 ⟨hmem, P.alive_block n hn x hx halive⟩⟩
  have hself : n ∈ P.side n := P.mem_side.2 ⟨hn, rfl⟩
  have hle := Finset.card_le_card hsub
  rw [List.toFinset_card_of_nodup hnodup, List.length_map, Finset.card_erase_of_mem hself,
    ← List.countP_eq_length_filter] at hle
  have hpos := Finset.card_pos.2 ⟨n, hself⟩
  unfold aliveCount
  omega

/-- **No split brain**: whatever the nodes thought before, two members that are not degraded after the check are in the
same partition. -/
theorem no_split_brain (q : UInt32 → Quorum) (hn : n ∈ P.members) (hm : m ∈ P.members)
    (hqn : (uckQuorumCheck (P.nodes n) (q n)).degraded = false)
    (hqm : (uckQuorumCheck (P.nodes m) (q m)).degraded = false) : P.block n = P.block m := by
  rw [uckQuorumCheck_degraded_eq_false_iff, P.length_nodes hn] at hqn
  rw [uckQuorumCheck_degraded_eq_false_iff, P.length_nodes hm] at hqm
  have hcn := P.aliveCount_le_card_side hn
  have hcm := P.aliveCount_le_card_side hm
  -- two majorities of the members meet, and partitions that meet are one
  obtain ⟨x, hx⟩ := Finset.inter_nonempty_of_card_lt_card_add_card (s := P.members) (t := P.side n) (u := P.side m)
    (fun _ h => (P.mem_side.1 h).1) (fun _ h => (P.mem_side.1 h).1) (by omega)
  obtain ⟨hxn, hxm⟩ := Finset.mem_inter.1 hx
  exact (P.mem_side.1 hxn).2.symm.trans (P.mem_side.1 hxm).2

/-- Three nodes, of which the third is cut off. -/
def threeNodes : Partitioned Bool where
  members := {1, 2, 3}
  nodes n :=
    if n = 1 then [{ nodeId := 2, alive := true }, { nodeId := 3 }]
    else if n = 2 then [{ nodeId := 3 }, { nodeId := 1, alive := true }]
    else [{ nodeId := 1 }, { nodeId := 2 }]
  block n := n = 3
  listed_once := by
    intro n hn
    simp only [Finset.mem_insert, Finset.mem_singleton] at hn
    rcases hn with rfl | rfl | rfl <;> decide
  lists_others := by
    intro n hn m
    simp only [Finset.mem_insert, Finset.mem_singleton] at hn ⊢
    rcases hn with rfl | rfl | rfl <;> simp <;> grind
  alive_block := by
    intro n hn
    simp only [Finset.mem_insert, Finset.mem_singleton] at hn
    rcases hn with rfl | rfl | rfl <;> simp

theorem threeNodes_no_split_brain :
    (threeNodes.members.card = 3 ∧ (uckQuorumCheck (threeNodes.nodes 3) {}).degraded = true) ∧
      threeNodes.block 1 = threeNodes.block 2 :=
  ⟨by decide, threeNodes.no_split_brain (fun _ => {}) (n := 1) (m := 2) (by decide) (by decide) (by decide) (by decide)⟩

end Partitioned

end UckSmp.Membership
