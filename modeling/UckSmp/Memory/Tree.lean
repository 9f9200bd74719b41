import Mathlib.Logic.Function.Basic
import UckSmp.Lib.SearchTree
import UckSmp.Memory.Faults

/-!
# The page tree of a region

`uck_page.c`: the entries of a region are the nodes of a red-black tree, searched by their index. A step is a critical
section under `region->lock`: it looks a page up, puts an entry for it into the tree if there is none and it needs one,
and changes entries in place. What `rb_insert_color` and `rb_erase` do to the shape of the tree is left open.

* `lookup_step`: a section does to the tree what it does to a map from indices to entries.
* `page_tree_unique`: the tree is a set of indices in every run.
* `cache_is_tree`: the cache of `Memory.Faults` is what the trees of the regions hold.
-/

namespace UckSmp.Memory.Tree

open Lib.SearchTree
open Lib.Transition

/-! ## Code -/

/-- The entry of a page, with its index. -/
abbrev PageNode := Nat × PageEntry Nat

/-- `region->pages`, and the number of times that the tree was balanced or a node erased. -/
structure Pages where
  tree : BinaryTree PageNode := .nil
  calls : Nat := 0

namespace Pages

variable (b : Balancer PageNode) (owner : Nat) (s : Pages)

/-- `uck_page_lookup`. -/
def uckPageLookup (index : Nat) : Option (PageEntry Nat) := (lookup Prod.fst index s.tree).map Prod.snd

/-- `uck_page_insert`. -/
def uckPageInsert (entry : PageNode) : Pages :=
  ⟨b.balance s.calls (link Prod.fst entry s.tree), s.calls + 1⟩

/-- `uck_page_alloc_entry`, when there is memory for the entry. -/
def uckPageAllocEntry (index : Nat) : Pages := s.uckPageInsert b (index, Memory.uckPageAllocEntry owner)

/-- `uck_page_free_all`. -/
def uckPageFreeAll : Pages := ⟨(clear b s.calls s.tree).1, (clear b s.calls s.tree).2⟩

/-- An entry is allocated if the lookup found none. -/
def ensure (index : Nat) (alloc : Bool) : Pages :=
  if s.uckPageLookup index = none ∧ alloc = true then s.uckPageAllocEntry b owner index else s

/-- The entry of an index is changed in place. -/
def modify (index : Nat) (f : PageEntry Nat → PageEntry Nat) : Pages :=
  { s with tree := s.tree.map fun n => if n.1 = index then (n.1, f n.2) else n }

/-- All entries are changed in place. -/
def modifyAll (f : PageEntry Nat → PageEntry Nat) : Pages := { s with tree := s.tree.map fun n => (n.1, f n.2) }

end Pages

/-- The sections that look at the page tree of a region. -/
inductive Section
  /-- The first section of `uck_fault`. -/
  | fault (index : Nat) (isWrite : Bool) (a : FaultAllocs)
  | batchPage (index page : Nat) (entryAlloc : Bool)
  | afterBatch (index : Nat) (isWrite : Bool)
  | install (index : Nat) (isWrite : Bool) (page : Nat)
  | abort (index : Nat)
  | mkwrite (index : Nat)
  | invalidate (index : Nat)
  | leave (node : Nat)
  | teardown
  deriving DecidableEq, Repr

/-- What `NODE_LEAVE` does to an entry. -/
def leaveEntry (owner node : Nat) (e : PageEntry Nat) : PageEntry Nat :=
  if owner = node ∧ e.ownerNode = node then { e with state := .invalid } else e

/-- One section, in a region of the given owner. -/
def step (b : Balancer PageNode) (owner : Nat) (s : Pages) : Section → Pages
  | .fault i w a =>
    (s.ensure b owner i a.entry).modify i fun e => (uckFaultEnter owner w a (s.uckPageLookup i)).entry.getD e
  | .batchPage i page entryAlloc =>
    (s.ensure b owner i entryAlloc).modify i fun _ => batchInstall owner page (s.uckPageLookup i)
  | .afterBatch i w => s.modify i fun e => ((uckFaultAfterBatch w (s.uckPageLookup i)).map Prod.fst).getD e
  | .install i w page => s.modify i (uckFaultInstall w page)
  | .abort i => s.modify i uckFaultAbort
  | .mkwrite i => s.modify i fun e => (uckPageMkwrite (s.uckPageLookup i)).1.getD e
  | .invalidate i => s.modify i uckHandleInvalidate
  | .leave node => s.modifyAll (leaveEntry owner node)
  | .teardown => s.uckPageFreeAll b

/-- The tree after some sections. -/
def after (b : Balancer PageNode) (owner : Nat) (secs : List Section) : Pages := secs.foldl (step b owner) {}

/-! ## Statement -/

/-- The index for which a section needs an entry, if there is memory for one. -/
def Section.allocates : Section → Option Nat
  | .fault i _ a => if a.entry then some i else none
  | .batchPage i _ entryAlloc => if entryAlloc then some i else none
  | _ => none

/-- The indices with an entry after one more section. -/
def Section.track (is : List Nat) : Section → List Nat
  | .teardown => []
  | x => x.allocates.toList ++ is

/-- The indices for which a section since the last teardown could have an entry. -/
def allocated (secs : List Section) : List Nat := secs.foldl Section.track []

/-! ## The map of a tree -/

/-- What a section does to a map from indices to entries. -/
def effect (owner : Nat) (m : Nat → Option (PageEntry Nat)) : Section → Nat → Option (PageEntry Nat)
  | .fault i w a => Function.update m i (uckFaultEnter owner w a (m i)).entry
  | .batchPage i page entryAlloc =>
    if m i = none ∧ entryAlloc = false then m else Function.update m i (some (batchInstall owner page (m i)))
  | .afterBatch i w => Function.update m i (((uckFaultAfterBatch w (m i)).map Prod.fst).or (m i))
  | .install i w page => Function.update m i ((m i).map (uckFaultInstall w page))
  | .abort i => Function.update m i ((m i).map uckFaultAbort)
  | .mkwrite i => Function.update m i (uckPageMkwrite (m i)).1
  | .invalidate i => Function.update m i ((m i).map uckHandleInvalidate)
  | .leave node => fun j => (m j).map (leaveEntry owner node)
  | .teardown => fun _ => none

variable {b : Balancer PageNode} {owner : Nat} {s : Pages}

/-- The indices of the entries increase from left to right. -/
def Pages.Ordered (s : Pages) : Prop := Sorted Prod.fst s.tree

theorem lookup_eq_none_of {i : Nat} (h : s.uckPageLookup i = none) : lookup Prod.fst i s.tree = none :=
  Option.map_eq_none_iff.1 h

/-- A new entry is found, and the others are found as before. -/
theorem uckPageLookup_insert (hs : s.Ordered) {i : Nat} (hi : s.uckPageLookup i = none) (e : PageEntry Nat) :
    (s.uckPageInsert b (i, e)).Ordered ∧
      (s.uckPageInsert b (i, e)).uckPageLookup = Function.update s.uckPageLookup i (some e) := by
  have hnone : lookup Prod.fst (Prod.fst (i, e)) s.tree = none := lookup_eq_none_of hi
  have hlink := sorted_link hs (forall_ne_of_lookup_eq_none hs hnone)
  have hbalance := b.inorder_balance s.calls (link Prod.fst (i, e) s.tree)
  constructor
  · unfold Pages.Ordered Sorted Pages.uckPageInsert
    rw [hbalance]
    exact hlink
  · funext j
    show (lookup Prod.fst j (b.balance s.calls (link Prod.fst (i, e) s.tree))).map Prod.snd = _
    rw [lookup_eq_of_inorder hlink hbalance, lookup_link hs hnone, Function.update_apply]
    split <;> rfl

theorem uckPageLookup_modify (s : Pages) (i : Nat) (f : PageEntry Nat → PageEntry Nat) :
    (s.modify i f).uckPageLookup = Function.update s.uckPageLookup i ((s.uckPageLookup i).map f) := by
  funext j
  unfold Pages.uckPageLookup Pages.modify
  have hkey : ∀ n : PageNode, (if n.1 = i then (n.1, f n.2) else n).1 = n.1 := by
    intro n
    split <;> rfl
  rw [lookup_map hkey, Function.update_apply]
  cases hj : lookup Prod.fst j s.tree with
  | none =>
    split
    · rename_i hji
      rw [← hji, hj]
      rfl
    · rfl
  | some n =>
    have hn : n.1 = j := key_of_lookup hj
    subst hn
    split
    · rename_i hni
      rw [← hni, hj]
      simp
    · rename_i hni
      simp [hni]

theorem ordered_modify (hs : s.Ordered) (i : Nat) (f : PageEntry Nat → PageEntry Nat) : (s.modify i f).Ordered := by
  apply sorted_map ?_ hs
  intro n
  split <;> rfl

theorem uckPageLookup_modifyAll (s : Pages) (f : PageEntry Nat → PageEntry Nat) (i : Nat) :
    (s.modifyAll f).uckPageLookup i = (s.uckPageLookup i).map f := by
  unfold Pages.uckPageLookup Pages.modifyAll
  have hkey : ∀ n : PageNode, ((n.1, f n.2) : PageNode).1 = n.1 := fun _ => rfl
  rw [lookup_map hkey, Option.map_map, Option.map_map]
  rfl

/-- The entry that a section works on: the one that was found, or a new one. -/
theorem ensure_spec (hs : s.Ordered) (i : Nat) (alloc : Bool) :
    (s.ensure b owner i alloc).Ordered ∧ (s.ensure b owner i alloc).uckPageLookup = Function.update s.uckPageLookup i
      ((s.uckPageLookup i).or (if alloc then some (uckPageAllocEntry owner) else none)) := by
  unfold Pages.ensure
  split
  · rename_i h
    obtain ⟨hnone, rfl⟩ := h
    rw [hnone]
    exact uckPageLookup_insert hs hnone _
  · rename_i h
    refine ⟨hs, ?_⟩
    rw [eq_comm, Function.update_eq_self_iff]
    cases hi : s.uckPageLookup i with
    | some e => rfl
    | none =>
      cases alloc with
      | true => exact absurd ⟨hi, rfl⟩ h
      | false => rfl

theorem uckPageFreeAll_tree (b : Balancer PageNode) (s : Pages) : (s.uckPageFreeAll b).tree = .nil := by
  rw [Pages.uckPageFreeAll, clear_eq]

/-! ## Sections -/

/-- The first section of a fault leaves an entry, unless there was none and none could be allocated. -/
theorem entry_uckFaultEnter (owner : Nat) (w : Bool) (a : FaultAllocs) (e? : Option (PageEntry Nat)) :
    (e?.or (if a.entry then some (uckPageAllocEntry owner) else none)).map
      (fun e => (uckFaultEnter owner w a e?).entry.getD e) = (uckFaultEnter owner w a e?).entry := by
  have hmiss : ∀ e : PageEntry Nat, ∃ e', (faultMiss a e).entry = some e' := by
    intro e
    unfold faultMiss
    dsimp only
    split
    · exact ⟨_, rfl⟩
    · split
      · exact ⟨_, rfl⟩
      · split <;> exact ⟨_, rfl⟩
  cases e? with
  | some e =>
    unfold uckFaultEnter
    dsimp only
    split
    · split <;> rfl
    · obtain ⟨e', he'⟩ := hmiss e
      rw [he']
      rfl
  | none =>
    unfold uckFaultEnter
    dsimp only
    split
    · obtain ⟨e', he'⟩ := hmiss (uckPageAllocEntry owner)
      rw [he']
      rfl
    · rfl

theorem ordered_step (hs : s.Ordered) (x : Section) : (step b owner s x).Ordered := by
  cases x with
  | fault i w a => exact ordered_modify (ensure_spec hs i a.entry).1 i _
  | batchPage i page ea => exact ordered_modify (ensure_spec hs i ea).1 i _
  | leave node => exact sorted_map (fun _ => rfl) hs
  | teardown =>
    unfold step Pages.Ordered
    rw [uckPageFreeAll_tree]
    exact sorted_nil
  | _ => exact ordered_modify hs _ _

/-- **A section does to the tree** what it does to a map from indices to entries. -/
theorem lookup_step (hs : s.Ordered) (x : Section) :
    (step b owner s x).uckPageLookup = effect owner s.uckPageLookup x := by
  cases x with
  | fault i w a =>
    rw [step, uckPageLookup_modify, (ensure_spec hs i a.entry).2, Function.update_self, Function.update_idem, effect,
      entry_uckFaultEnter]
  | batchPage i page ea =>
    rw [step, uckPageLookup_modify, (ensure_spec hs i ea).2, Function.update_self, Function.update_idem, effect]
    by_cases h : s.uckPageLookup i = none ∧ ea = false
    · rw [if_pos h, h.1, h.2]
      exact Function.update_eq_self_iff.2 h.1.symm
    · rw [if_neg h]
      congr 1
      cases hi : s.uckPageLookup i with
      | some e => rfl
      | none =>
        cases ea with
        | true => rfl
        | false => exact absurd ⟨hi, rfl⟩ h
  | afterBatch i w =>
    rw [step, uckPageLookup_modify, effect]
    congr 1
    cases s.uckPageLookup i with
    | some e => cases h : uckFaultAfterBatch w (some e) <;> rfl
    | none => rfl
  | install i w page => exact uckPageLookup_modify s i _
  | abort i => exact uckPageLookup_modify s i _
  | mkwrite i =>
    rw [step, uckPageLookup_modify, effect]
    congr 1
    cases s.uckPageLookup i with
    | some e =>
      unfold uckPageMkwrite
      dsimp only
      split <;> rfl
    | none => rfl
  | invalidate i => exact uckPageLookup_modify s i _
  | leave node =>
    funext j
    exact uckPageLookup_modifyAll s _ j
  | teardown =>
    funext j
    rw [step, Pages.uckPageLookup, uckPageFreeAll_tree]
    rfl

/-! ## The set of indices -/

/-- The tree has an entry for exactly these indices. -/
def Pages.Exact (s : Pages) (is : List Nat) : Prop := ∀ i, (s.uckPageLookup i).isSome = true ↔ i ∈ is

variable {is : List Nat}

theorem exact_ensure (hs : s.Ordered) (h : s.Exact is) (i : Nat) (alloc : Bool) :
    (s.ensure b owner i alloc).Exact ((if alloc then some i else none).toList ++ is) := by
  intro j
  rw [(ensure_spec hs i alloc).2, Function.update_apply, List.mem_append, ← h j]
  by_cases hji : j = i
  · cases alloc <;> simp [hji]
  · cases alloc <;> simp [hji]

theorem exact_modify (h : s.Exact is) (i : Nat) (f : PageEntry Nat → PageEntry Nat) : (s.modify i f).Exact is := by
  intro j
  rw [uckPageLookup_modify, Function.update_apply]
  split
  · rename_i hji
    rw [Option.isSome_map, ← hji]
    exact h j
  · exact h j

theorem exact_step (hs : s.Ordered) (h : s.Exact is) (x : Section) : (step b owner s x).Exact (x.track is) := by
  cases x with
  | fault i w a => exact exact_modify (exact_ensure hs h i a.entry) i _
  | batchPage i page ea => exact exact_modify (exact_ensure hs h i ea) i _
  | leave node =>
    intro j
    rw [step, uckPageLookup_modifyAll, Option.isSome_map]
    exact h j
  | teardown =>
    intro j
    rw [lookup_step hs]
    exact iff_of_false Bool.false_ne_true List.not_mem_nil
  | _ => exact exact_modify h _ _

/-- What holds of the tree after any sections. -/
theorem ordered_exact_after (b : Balancer PageNode) (owner : Nat) (secs : List Section) :
    (after b owner secs).Ordered ∧ (after b owner secs).Exact (allocated secs) := by
  unfold after allocated
  induction secs using List.reverseRecOn with
  | nil => exact ⟨sorted_nil, fun i => iff_of_false Bool.false_ne_true List.not_mem_nil⟩
  | append_singleton secs x ih =>
    rw [List.foldl_append, List.foldl_append]
    exact ⟨ordered_step ih.1 x, exact_step ih.1 ih.2 x⟩

/-- **The page tree is a set of indices**, after any sections and however the tree is balanced: each index is there
once, a lookup finds an entry for the indices for which a section since the last teardown could have one, an insertion
leaves the other lookups as they are, and `uck_page_free_all` empties the tree. -/
theorem page_tree_unique (b : Balancer PageNode) (owner : Nat) (secs : List Section) :
    let s := after b owner secs
    ((inorder s.tree).map Prod.fst).Pairwise (· < ·) ∧
    (∀ i, (s.uckPageLookup i).isSome = true ↔ i ∈ allocated secs) ∧
    (∀ i, s.uckPageLookup i = none → ∀ e j, j ≠ i →
      (s.uckPageInsert b (i, e)).uckPageLookup j = s.uckPageLookup j) ∧
    (s.uckPageFreeAll b).tree = .nil := by
  intro s
  obtain ⟨hs, hexact⟩ := ordered_exact_after b owner secs
  refine ⟨?_, hexact, ?_, uckPageFreeAll_tree b s⟩
  · rw [List.pairwise_map]
    exact hs
  · intro i hi e j hji
    rw [(uckPageLookup_insert hs hi e).2, Function.update_of_ne hji]

/-- Pages 3, 1 and 2 are faulted on and the first one is invalidated: its entry stays, and is found again. -/
example :
    let secs := [.fault 3 false ⟨true, true, true⟩, .fault 1 false ⟨true, true, true⟩, .batchPage 2 7 true,
      .invalidate 3, .fault 3 true ⟨true, true, true⟩]
    (inorder (after (.plain _) 2 secs).tree).map Prod.fst = [1, 2, 3] ∧ allocated secs = [3, 2, 1, 3] := by decide

/-! ## The cache of a node -/

/-- The entries of one region. -/
def row (c : Cache) (slot : Nat) (i : Nat) : Option (PageEntry Nat) := c.entry (slot, i)

/-- In each region, nothing is changed or one section takes place. -/
def Changes (cfg : Config) (c c' : Cache) : Prop :=
  ∀ slot, row c' slot = row c slot ∨ ∃ x, row c' slot = effect (cfg.owner slot) (row c slot) x

variable {cfg : Config} {c : Cache} {n : Node} {k : Key}

theorem Changes.refl (cfg : Config) (c : Cache) : Changes cfg c c := fun _ => .inl rfl

/-- A section of a region leaves an entry, or none where there was none. -/
theorem changes_set {e? : Option (PageEntry Nat)} (x : Section)
    (hx : effect (cfg.owner k.1) (row c k.1) x = Function.update (row c k.1) k.2 e?) : Changes cfg c (c.set k e?) := by
  cases e? with
  | none => exact Changes.refl cfg c
  | some e =>
    intro slot
    by_cases hslot : slot = k.1
    · subst hslot
      refine .inr ⟨x, ?_⟩
      rw [hx]
      funext i
      by_cases hi : i = k.2
      · subst hi
        rw [Function.update_self]
        exact Cache.put_entry_self
      · rw [Function.update_of_ne hi]
        exact Cache.put_entry_of_ne fun h => hi (congrArg Prod.snd h)
    · refine .inl ?_
      funext i
      exact Cache.put_entry_of_ne fun h => hslot (congrArg Prod.fst h)

theorem changes_enter (w : Bool) (a : Allocs) : Changes cfg n.cache (n.enter cfg k w a).2.cache := by
  by_cases hk : k.2 * pageSize < cfg.size k.1
  · rw [Node.enter_cache hk]
    exact changes_set (.fault k.2 w ⟨a.entry, (n.mem.uckMemctlCanAlloc cfg.totalram cfg.pct 1).1, a.page⟩) rfl
  · rw [Node.enter_outside hk]
    exact Changes.refl _ _

theorem changes_batchPage (ea : Bool) : Changes cfg n.cache (n.batchPage cfg k ea).2.cache := by
  unfold Node.batchPage
  by_cases hno : (n.cache.entry k).isNone = true ∧ ea = false
  · rw [if_pos hno]
    exact Changes.refl _ _
  · rw [if_neg hno]
    have hput : Changes cfg n.cache (n.cache.set k (some (batchInstall (cfg.owner k.1) n.next (n.cache.entry k)))) := by
      apply changes_set (.batchPage k.2 n.next ea)
      exact if_neg fun h => hno ⟨Option.isNone_iff_eq_none.2 h.1, h.2⟩
    cases n.cache.page k <;> exact hput

theorem changes_afterBatch {w : Bool} {own g : Nat} {n' : Node} (h : n.afterBatch k w own = some (g, n')) :
    Changes cfg n.cache n'.cache := by
  obtain ⟨e, he, hg, rfl⟩ := Node.afterBatch_eq_some h
  have hrow : row n.cache k.1 k.2 = some e := he
  have hset : Changes cfg n.cache (n.cache.set k (some (if w then e.grantWrite else e))) := by
    apply changes_set (.afterBatch k.2 w)
    rw [effect, hrow, uckFaultAfterBatch, hg]
    cases w <;> rfl
  exact hset

/-- A step of the node is a section of its regions. -/
theorem changes_step {s t : Faults.Sys} {e : Faults.Ev} (h : Faults.step cfg s e = some t) :
    Changes cfg s.node.cache t.node.cache := by
  cases e with
  | fault k w a =>
    cases h
    rw [Faults.Sys.fault_node]
    exact changes_enter w a
  | thread i act =>
    obtain ⟨x, -, hact⟩ := Faults.Acts.of_step h
    generalize x.phase = p at hact
    cases hact with
    | wake hwake =>
      obtain ⟨-, -, rfl⟩ := Node.wake_eq_some hwake
      exact Changes.refl _ _
    | sigbus => exact Changes.refl _ _
    | request own =>
      rw [Faults.Sys.request_cache]
      exact Changes.refl _ _
    | receive own j rest m ea =>
      rw [Faults.Sys.receive_node]
      exact changes_batchPage ea
    | batchEnd own rest hn => exact Changes.refl _ _
    | batchFailed own rest => exact Changes.refl _ _
    | recheck own =>
      unfold Faults.Sys.recheck
      split
      · rename_i g node hafter
        exact changes_afterBatch hafter
      · exact Changes.refl _ _
    | complete own ok =>
      unfold Faults.Sys.complete
      split
      · show Changes cfg s.node.cache (s.node.install x.key x.isWrite own).cache
        rw [Node.install_cache]
        exact changes_set (.install x.key.2 x.isWrite own) rfl
      · show Changes cfg s.node.cache (s.node.abort x.key own).cache
        rw [Node.abort_eq]
        exact changes_set (.abort x.key.2) rfl
  | mkwrite k =>
    cases h
    rw [Node.mkwrite_eq]
    exact changes_set (.mkwrite k.2) rfl
  | invalidate k =>
    cases h
    rw [Node.invalidate_eq]
    exact changes_set (.invalidate k.2) rfl
  | leave node =>
    cases h
    intro slot
    exact .inr ⟨.leave node, rfl⟩
  | unmap g =>
    obtain ⟨-, rfl⟩ := Faults.of_step_unmap h
    exact Changes.refl _ _
  | quorum nodes =>
    cases h
    exact Changes.refl _ _
  | teardown =>
    obtain ⟨-, rfl⟩ := Faults.of_step_teardown h
    intro slot
    exact .inr ⟨.teardown, rfl⟩

/-- **The cache of a node is what the trees of its regions hold**, in every run. -/
theorem cache_is_tree (b : Balancer PageNode) {es : List Faults.Ev} {s : Faults.Sys}
    (h : run (Faults.step cfg) {} es = some s) (slot : Nat) :
    ∃ secs, (after b (cfg.owner slot) secs).uckPageLookup = row s.node.cache slot := by
  apply run_inv (fun s => ∃ secs, (after b (cfg.owner slot) secs).uckPageLookup = row s.node.cache slot) ?_ ?_ h
  · rintro s e t ⟨secs, hsecs⟩ hstep
    rcases changes_step hstep slot with hsame | ⟨x, hx⟩
    · exact ⟨secs, hsecs.trans hsame.symm⟩
    · refine ⟨secs ++ [x], ?_⟩
      have hafter : after b (cfg.owner slot) (secs ++ [x]) =
          step b (cfg.owner slot) (after b (cfg.owner slot) secs) x := List.foldl_append
      rw [hafter, lookup_step (ordered_exact_after b _ secs).1, hsecs, hx]
  · exact ⟨[], rfl⟩

end UckSmp.Memory.Tree
