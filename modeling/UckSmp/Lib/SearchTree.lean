import Mathlib.Data.Tree.Basic
import Mathlib.Order.Lattice

/-!
# Search trees

Binary trees that are searched by comparing keys, with a new node linked where the search for its key ends. How a tree
is balanced is left open: a `Balancer` may do anything that keeps the in-order sequence of the nodes.

* `Sorted`: the keys of the in-order sequence increase, so each is there once.
* `lookup_eq_some_iff`: a search in a sorted tree finds the node with the key.
* `sorted_link`, `lookup_link`: a new key is linked, and the other searches end as before.
* `lookup_eq_of_inorder`: balancing changes no search.
* `clear_eq`: a tree is empty after its first node has been erased again and again.
-/

namespace Lib.SearchTree

section Operations

variable {α κ : Type*} [LinearOrder κ] (key : α → κ)

/-- The nodes from left to right. -/
def inorder : BinaryTree α → List α
  | .nil => []
  | .node a l r => inorder l ++ a :: inorder r

/-- The search for a key. -/
def lookup (k : κ) : BinaryTree α → Option α
  | .nil => none
  | .node a l r => if k < key a then lookup k l else if key a < k then lookup k r else some a

/-- A node is linked where the search for its key ends; at an equal key it goes right. -/
def link (x : α) : BinaryTree α → BinaryTree α
  | .nil => .node x .nil .nil
  | .node a l r => if key x < key a then .node a (link x l) r else .node a l (link x r)

/-- The leftmost node. -/
def first : BinaryTree α → Option α
  | .nil => none
  | .node a l _ => (first l).or (some a)

def Sorted (t : BinaryTree α) : Prop := (inorder t).Pairwise fun a b => key a < key b

end Operations

/-- What a balanced tree does after a node was linked and when its first node is erased. The number stands for all that
this may depend on beside the tree, such as the colours of the nodes. -/
structure Balancer (α : Type*) where
  balance : Nat → BinaryTree α → BinaryTree α
  eraseFirst : Nat → BinaryTree α → BinaryTree α
  inorder_balance : ∀ n t, inorder (balance n t) = inorder t
  inorder_eraseFirst : ∀ n t, inorder (eraseFirst n t) = (inorder t).tail

variable {α κ : Type*} [LinearOrder κ] {key : α → κ} {t t' l r : BinaryTree α} {a x : α} {k : κ}

/-! ## The in-order sequence -/

theorem inorder_eq_nil_iff : inorder t = [] ↔ t = .nil := by
  cases t with
  | nil => exact iff_of_true rfl rfl
  | node a l r => exact iff_of_false (List.append_ne_nil_of_right_ne_nil _ (List.cons_ne_nil _ _)) nofun

/-- The leftmost node is the first one. -/
theorem first_eq_head? (t : BinaryTree α) : first t = (inorder t).head? := by
  induction t with
  | nil => rfl
  | node a l r ihl _ => rw [first, inorder, List.head?_append, ihl, List.head?_cons]

theorem inorder_map {β : Type*} (f : α → β) (t : BinaryTree α) : inorder (t.map f) = (inorder t).map f := by
  induction t with
  | nil => rfl
  | node a l r ihl ihr => rw [BinaryTree.map, inorder, inorder, ihl, ihr, List.map_append, List.map_cons]

theorem mem_inorder_link : a ∈ inorder (link key x t) ↔ a = x ∨ a ∈ inorder t := by
  induction t with
  | nil => exact List.mem_cons
  | node b l r ihl ihr =>
    unfold link
    split
    · simp only [inorder, List.mem_append, List.mem_cons, ihl, or_assoc]
    · simp only [inorder, List.mem_append, List.mem_cons, ihr, or_left_comm]

theorem sorted_nil : Sorted key .nil := List.Pairwise.nil

theorem sorted_node_iff : Sorted key (.node a l r) ↔
    Sorted key l ∧ Sorted key r ∧ (∀ b ∈ inorder l, key b < key a) ∧ ∀ b ∈ inorder r, key a < key b := by
  unfold Sorted
  rw [inorder, List.pairwise_append, List.pairwise_cons]
  constructor
  · rintro ⟨hl, ⟨har, hr⟩, hlr⟩
    exact ⟨hl, hr, fun b hb => hlr b hb a List.mem_cons_self, har⟩
  · rintro ⟨hl, hr, hla, har⟩
    refine ⟨hl, ⟨har, hr⟩, ?_⟩
    intro b hb c hc
    rcases List.mem_cons.1 hc with rfl | hc
    · exact hla b hb
    · exact lt_trans (hla b hb) (har c hc)

/-- A new key keeps the tree sorted. -/
theorem sorted_link (h : Sorted key t) (hx : ∀ b ∈ inorder t, key b ≠ key x) : Sorted key (link key x t) := by
  induction t with
  | nil => exact List.pairwise_singleton _ _
  | node a l r ihl ihr =>
    obtain ⟨hl, hr, hla, har⟩ := sorted_node_iff.1 h
    have hxl : ∀ b ∈ inorder l, key b ≠ key x := fun b hb => hx b (List.mem_append_left _ hb)
    have hxr : ∀ b ∈ inorder r, key b ≠ key x := fun b hb =>
      hx b (List.mem_append_right _ (List.mem_cons_of_mem _ hb))
    have hxa : key a ≠ key x := hx a (List.mem_append_right _ List.mem_cons_self)
    unfold link
    split
    · rename_i hlt
      refine sorted_node_iff.2 ⟨ihl hl hxl, hr, ?_, har⟩
      intro b hb
      rcases mem_inorder_link.1 hb with rfl | hb
      · exact hlt
      · exact hla b hb
    · rename_i hge
      refine sorted_node_iff.2 ⟨hl, ihr hr hxr, hla, ?_⟩
      intro b hb
      rcases mem_inorder_link.1 hb with rfl | hb
      · exact lt_of_le_of_ne (not_lt.1 hge) hxa
      · exact har b hb

/-! ## Searches -/

/-- **A search** in a sorted tree finds the node with the key. -/
theorem lookup_eq_some_iff (h : Sorted key t) : lookup key k t = some a ↔ a ∈ inorder t ∧ key a = k := by
  induction t with
  | nil => exact iff_of_false nofun fun h => List.not_mem_nil h.1
  | node b l r ihl ihr =>
    obtain ⟨hl, hr, hlb, hbr⟩ := sorted_node_iff.1 h
    rw [lookup, inorder, List.mem_append, List.mem_cons]
    split
    · -- the key is smaller than that of the root and of all that is right of it
      rename_i hlt
      rw [ihl hl]
      constructor
      · rintro ⟨ha, hk⟩
        exact ⟨.inl ha, hk⟩
      · rintro ⟨ha | rfl | ha, hk⟩
        · exact ⟨ha, hk⟩
        · exact absurd hlt (hk ▸ lt_irrefl _)
        · exact absurd (lt_trans hlt (hbr a ha)) (hk ▸ lt_irrefl _)
    · split
      · rename_i hgt
        rw [ihr hr]
        constructor
        · rintro ⟨ha, hk⟩
          exact ⟨.inr (.inr ha), hk⟩
        · rintro ⟨ha | rfl | ha, hk⟩
          · exact absurd (lt_trans (hlb a ha) hgt) (hk ▸ lt_irrefl _)
          · exact absurd hgt (hk ▸ lt_irrefl _)
          · exact ⟨ha, hk⟩
      · rename_i hge hle
        have hk : k = key b := le_antisymm (not_lt.1 hle) (not_lt.1 hge)
        rw [Option.some.injEq]
        constructor
        · rintro rfl
          exact ⟨.inr (.inl rfl), hk.symm⟩
        · rintro ⟨ha | rfl | ha, hak⟩
          · exact absurd (hlb a ha) (hak ▸ hk ▸ lt_irrefl _)
          · rfl
          · exact absurd (hbr a ha) (hak ▸ hk ▸ lt_irrefl _)

/-- What a search finds has the key, in any tree. -/
theorem key_of_lookup (h : lookup key k t = some a) : key a = k := by
  induction t with
  | nil => cases h
  | node b l r ihl ihr =>
    rw [lookup] at h
    split at h
    · exact ihl h
    · split at h
      · exact ihr h
      · rename_i hge hle
        cases h
        exact le_antisymm (not_lt.1 hge) (not_lt.1 hle)

/-- Balancing changes no search. -/
theorem lookup_eq_of_inorder (h : Sorted key t) (heq : inorder t' = inorder t) : lookup key k t' = lookup key k t := by
  have h' : Sorted key t' := by
    unfold Sorted
    rw [heq]
    exact h
  ext a
  rw [lookup_eq_some_iff h', lookup_eq_some_iff h, heq]

theorem forall_ne_of_lookup_eq_none (h : Sorted key t) (hk : lookup key k t = none) : ∀ b ∈ inorder t, key b ≠ k := by
  intro b hb hbk
  rw [(lookup_eq_some_iff h).2 ⟨hb, hbk⟩] at hk
  cases hk

/-- A search after a new key was linked. -/
theorem lookup_link (h : Sorted key t) (hx : lookup key (key x) t = none) (k : κ) :
    lookup key k (link key x t) = if k = key x then some x else lookup key k t := by
  have hne := forall_ne_of_lookup_eq_none h hx
  ext a
  rw [lookup_eq_some_iff (sorted_link h hne), mem_inorder_link]
  split
  · rename_i hk
    rw [Option.some.injEq]
    constructor
    · rintro ⟨rfl | ha, hak⟩
      · rfl
      · exact absurd (hak.trans hk) (hne a ha)
    · rintro rfl
      exact ⟨.inl rfl, hk.symm⟩
  · rename_i hk
    rw [lookup_eq_some_iff h]
    constructor
    · rintro ⟨rfl | ha, hak⟩
      · exact absurd hak.symm hk
      · exact ⟨ha, hak⟩
    · rintro ⟨ha, hak⟩
      exact ⟨.inr ha, hak⟩

section Map

variable {f : α → α} (hf : ∀ a, key (f a) = key a)

include hf

/-- Nodes that keep their keys may change in place. -/
theorem sorted_map (h : Sorted key t) : Sorted key (t.map f) := by
  unfold Sorted
  rw [inorder_map, List.pairwise_map]
  simp only [hf]
  exact h

theorem lookup_map (k : κ) (t : BinaryTree α) : lookup key k (t.map f) = (lookup key k t).map f := by
  induction t with
  | nil => rfl
  | node a l r ihl ihr =>
    rw [BinaryTree.map, lookup, lookup, hf, ihl, ihr]
    split
    · rfl
    · split <;> rfl

end Map

/-! ## Clearing a tree -/

/-- The first node is erased while there is one. The result is the tree that is left and how often that was done. -/
def clear (b : Balancer α) (n : Nat) (t : BinaryTree α) : BinaryTree α × Nat :=
  match h : first t with
  | none => (t, n)
  | some _ => clear b (n + 1) (b.eraseFirst n t)
termination_by (inorder t).length
decreasing_by
  rw [b.inorder_eraseFirst, List.length_tail]
  rw [first_eq_head?] at h
  have := List.length_pos_of_mem (List.mem_of_mem_head? h)
  omega

/-- **Nothing is left** of a tree that is cleared. -/
theorem clear_eq (b : Balancer α) (n : Nat) (t : BinaryTree α) : clear b n t = (.nil, n + (inorder t).length) := by
  fun_induction clear b n t with
  | case1 n t h =>
    rw [first_eq_head?, List.head?_eq_none_iff, inorder_eq_nil_iff] at h
    subst h
    rfl
  | case2 n t a h ih =>
    rw [first_eq_head?] at h
    have := List.length_pos_of_mem (List.mem_of_mem_head? h)
    rw [ih, b.inorder_eraseFirst, List.length_tail]
    congr 1
    omega

/-- A tree without its leftmost node. -/
def dropFirst : BinaryTree α → BinaryTree α
  | .nil => .nil
  | .node _ .nil r => r
  | .node a (.node b l m) r => .node a (dropFirst (.node b l m)) r

theorem inorder_dropFirst (t : BinaryTree α) : inorder (dropFirst t) = (inorder t).tail := by
  fun_induction dropFirst t with
  | case1 => rfl
  | case2 => rfl
  | case3 a b l m r ih =>
    have hne : inorder (.node b l m) ≠ [] := mt inorder_eq_nil_iff.1 nofun
    rw [inorder, ih]
    exact (List.tail_append_of_ne_nil hne).symm

/-- A tree that is not balanced. -/
def Balancer.plain (α : Type*) : Balancer α where
  balance _ t := t
  eraseFirst _ t := dropFirst t
  inorder_balance _ _ := rfl
  inorder_eraseFirst _ t := inorder_dropFirst t

end Lib.SearchTree
