import Mathlib.Logic.Function.Basic

/-!
# Circular linked lists

Doubly linked lists in the manner of `list_head`: nodes with a link to the next one and one to the previous one, in a
ring that is closed at a head without an element.

* `Path`: the links between two nodes, in both directions.
* `Path.retarget`: the last link of a path is led elsewhere.
* `Ring.addTail`, `Ring.addTail_head`, `Ring.del`: what an insertion in front of a node and a removal make of the
  sequence of the elements.
-/

namespace Lib.LinkedList

/-- The links of all nodes. -/
structure Links (ν : Type*) where
  next : ν → ν
  prev : ν → ν

section Operations

variable {ν : Type*} [DecidableEq ν] (s : Links ν)

/-- `list_add_tail`: a node is put in front of another one. -/
def Links.addTail (new pos : ν) : Links ν where
  next := Function.update (Function.update s.next new pos) (s.prev pos) new
  prev := Function.update (Function.update s.prev pos new) new (s.prev pos)

/-- `list_del`: the neighbours of a node are linked to each other. The links of the node itself are not used again. -/
def Links.del (e : ν) : Links ν where
  next := Function.update s.next (s.prev e) (s.next e)
  prev := Function.update s.prev (s.next e) (s.prev e)

end Operations

section Paths

variable {ν : Type*} {s s' : Links ν} {a b c e h new : ν} {l l₁ l₂ : List ν}

/-- The links from `a` to `b` lead through these nodes, in both directions. -/
def Path (s : Links ν) : ν → List ν → ν → Prop
  | a, [], b => s.next a = b ∧ s.prev b = a
  | a, c :: l, b => s.next a = c ∧ s.prev c = a ∧ Path s c l b

/-- The elements of the ring that is closed at `h`. -/
structure Ring (s : Links ν) (h : ν) (l : List ν) : Prop where
  nodup : (h :: l).Nodup
  path : Path s h l h

theorem path_append : Path s a (l₁ ++ c :: l₂) b ↔ Path s a l₁ c ∧ Path s c l₂ b := by
  induction l₁ generalizing a with
  | nil => exact and_assoc.symm
  | cons d l₁ ih => rw [List.cons_append, Path, Path, ih, and_assoc, and_assoc]

/-- The node in front of the end of a path is on the path. -/
theorem Path.prev_mem (hp : Path s a l b) : s.prev b ∈ a :: l := by
  induction l generalizing a with
  | nil => exact hp.2 ▸ List.mem_cons_self
  | cons c l ih => exact List.mem_cons_of_mem _ (ih hp.2.2)

/-- The links of other nodes do not matter for a path. -/
theorem Path.congr (hp : Path s a l b) (hnext : ∀ x ∈ a :: l, s'.next x = s.next x)
    (hprev : ∀ x ∈ l ++ [b], s'.prev x = s.prev x) : Path s' a l b := by
  induction l generalizing a with
  | nil => exact ⟨(hnext a List.mem_cons_self).trans hp.1, (hprev b List.mem_cons_self).trans hp.2⟩
  | cons c l ih =>
    refine ⟨(hnext a List.mem_cons_self).trans hp.1, (hprev c List.mem_cons_self).trans hp.2.1, ?_⟩
    exact ih hp.2.2 (fun x hx => hnext x (List.mem_cons_of_mem _ hx)) fun x hx => hprev x (List.mem_cons_of_mem _ hx)

/-- The last link of a path is led elsewhere. -/
theorem Path.retarget (hp : Path s a l b) (hnodup : (a :: l).Nodup)
    (hnext : ∀ x ∈ a :: l, x ≠ s.prev b → s'.next x = s.next x) (hprev : ∀ x ∈ l, s'.prev x = s.prev x)
    (hlast : s'.next (s.prev b) = c) (hback : s'.prev c = s.prev b) : Path s' a l c := by
  induction l generalizing a with
  | nil =>
    obtain rfl := hp.2
    exact ⟨hlast, hback⟩
  | cons d l ih =>
    obtain ⟨ha, hnodup⟩ := List.nodup_cons.1 hnodup
    have hne : a ≠ s.prev b := fun heq => ha (heq ▸ hp.2.2.prev_mem)
    refine ⟨(hnext a List.mem_cons_self hne).trans hp.1, (hprev d List.mem_cons_self).trans hp.2.1, ?_⟩
    exact ih hp.2.2 hnodup (fun x hx => hnext x (List.mem_cons_of_mem _ hx)) fun x hx =>
      hprev x (List.mem_cons_of_mem _ hx)

/-- A new node somewhere among the elements. -/
theorem nodup_insert (hnodup : (h :: (l₁ ++ l₂)).Nodup) (hnew : new ∉ h :: (l₁ ++ l₂)) :
    (h :: (l₁ ++ new :: l₂)).Nodup := by
  have hperm : (h :: (l₁ ++ new :: l₂)).Perm (new :: h :: (l₁ ++ l₂)) :=
    (List.perm_middle.cons h).trans (List.Perm.swap new h _)
  exact hperm.nodup_iff.2 (List.nodup_cons.2 ⟨hnew, hnodup⟩)

/-! ## Where the nodes of a ring are not -/

theorem Ring.nodup_before (hr : Ring s h (l₁ ++ e :: l₂)) : (h :: l₁).Nodup :=
  hr.nodup.sublist ((List.sublist_append_left l₁ _).cons_cons h)

theorem Ring.not_mem_before (hr : Ring s h (l₁ ++ e :: l₂)) : e ∉ l₁ := by
  obtain ⟨-, -, hdisj⟩ := List.nodup_append.1 (List.nodup_cons.1 hr.nodup).2
  exact fun hmem => hdisj e hmem e List.mem_cons_self rfl

theorem Ring.ne_of_mem_behind (hr : Ring s h (l₁ ++ e :: l₂)) {x : ν} (hx : x ∈ l₂ ++ [h]) : x ≠ e := by
  rintro rfl
  have hnodup := (List.perm_append_singleton h (l₁ ++ x :: l₂)).nodup_iff.2 hr.nodup
  rw [List.append_assoc] at hnodup
  exact (List.nodup_cons.1 (List.nodup_append.1 hnodup).2.1).1 hx

/-- The last node in front of an element is none of those behind it. -/
theorem Ring.ne_prev (hr : Ring s h (l₁ ++ e :: l₂)) {x : ν} (hx : x ∈ e :: l₂) : x ≠ s.prev e := by
  rintro rfl
  obtain ⟨hh, hnodup⟩ := List.nodup_cons.1 hr.nodup
  obtain ⟨-, -, hdisj⟩ := List.nodup_append.1 hnodup
  rcases List.mem_cons.1 (path_append.1 hr.path).1.prev_mem with heq | hmem
  · exact hh (heq ▸ List.mem_append_right _ hx)
  · exact hdisj _ hmem _ hx rfl

end Paths

variable {ν : Type*} [DecidableEq ν] {s : Links ν} {a h e new pos : ν} {l l₁ l₂ : List ν}

/-! ## Insertion -/

/-- A new node at the end of a path. -/
theorem Path.addTail (hp : Path s a l pos) (hnodup : (a :: l).Nodup) (hpos : pos ∉ l) (hnew : new ∉ a :: l)
    (hne : new ≠ pos) : Path (s.addTail new pos) a (l ++ [new]) pos := by
  have hlast : new ≠ s.prev pos := fun heq => hnew (heq ▸ hp.prev_mem)
  rw [path_append]
  constructor
  · apply hp.retarget hnodup
    · intro x hx hxlast
      have hxnew : x ≠ new := fun heq => hnew (heq ▸ hx)
      simp only [Links.addTail, Function.update_of_ne hxlast, Function.update_of_ne hxnew]
    · intro x hx
      have hxnew : x ≠ new := fun heq => hnew (heq ▸ List.mem_cons_of_mem _ hx)
      have hxpos : x ≠ pos := fun heq => hpos (heq ▸ hx)
      simp only [Links.addTail, Function.update_of_ne hxnew, Function.update_of_ne hxpos]
    · exact Function.update_self ..
    · exact Function.update_self ..
  · constructor
    · simp only [Links.addTail, Function.update_of_ne hlast, Function.update_self]
    · simp only [Links.addTail, Function.update_of_ne hne.symm, Function.update_self]

/-- A node is put in front of an element. -/
theorem Ring.addTail (hr : Ring s h (l₁ ++ pos :: l₂)) (hnew : new ∉ h :: (l₁ ++ pos :: l₂)) :
    Ring (s.addTail new pos) h (l₁ ++ new :: pos :: l₂) := by
  obtain ⟨hbefore, hafter⟩ := path_append.1 hr.path
  have hnew₁ : new ∉ h :: l₁ := fun hmem => hnew (List.cons_subset_cons h (List.subset_append_left _ _) hmem)
  have hnew₂ : new ∉ pos :: l₂ := fun hmem => hnew (List.mem_cons_of_mem _ (List.mem_append_right _ hmem))
  have hnewpos : new ≠ pos := fun heq => hnew₂ (heq ▸ List.mem_cons_self)
  refine ⟨nodup_insert hr.nodup hnew, ?_⟩
  have hsplit : l₁ ++ new :: pos :: l₂ = (l₁ ++ [new]) ++ pos :: l₂ := by rw [List.append_assoc, List.singleton_append]
  rw [hsplit, path_append]
  refine ⟨hbefore.addTail hr.nodup_before hr.not_mem_before hnew₁ hnewpos, ?_⟩
  -- the rest of the ring keeps its links
  apply hafter.congr
  · intro x hx
    have hxnew : x ≠ new := fun heq => hnew₂ (heq ▸ hx)
    simp only [Links.addTail, Function.update_of_ne (hr.ne_prev hx), Function.update_of_ne hxnew]
  · intro x hx
    have hxnew : x ≠ new := by
      rintro rfl
      rcases List.mem_append.1 hx with hmem | hmem
      · exact hnew₂ (List.mem_cons_of_mem _ hmem)
      · exact hnew (List.mem_singleton.1 hmem ▸ List.mem_cons_self)
    simp only [Links.addTail, Function.update_of_ne hxnew, Function.update_of_ne (hr.ne_of_mem_behind hx)]

/-- A node is put in front of the head: it is the last element. -/
theorem Ring.addTail_head (hr : Ring s h l) (hnew : new ∉ h :: l) : Ring (s.addTail new h) h (l ++ [new]) := by
  obtain ⟨hh, -⟩ := List.nodup_cons.1 hr.nodup
  have hne : new ≠ h := fun heq => hnew (heq ▸ List.mem_cons_self)
  have hnil : h :: (l ++ []) = h :: l := by rw [List.append_nil]
  exact ⟨nodup_insert (hnil ▸ hr.nodup) (hnil ▸ hnew), hr.path.addTail hr.nodup hh hnew hne⟩

/-! ## Removal -/

/-- An element is removed. -/
theorem Ring.del (hr : Ring s h (l₁ ++ e :: l₂)) : Ring (s.del e) h (l₁ ++ l₂) := by
  obtain ⟨hbefore, hafter⟩ := path_append.1 hr.path
  have hnodup : (h :: (l₁ ++ l₂)).Nodup :=
    hr.nodup.sublist ((List.Sublist.append_left (List.sublist_cons_self e l₂) l₁).cons_cons h)
  refine ⟨hnodup, ?_⟩
  -- the path up to the element leads to the node behind it
  have hlead (hnext : s.next e ∉ l₁) : Path (s.del e) h l₁ (s.next e) := by
    apply hbefore.retarget hr.nodup_before
    · intro x _ hxlast
      exact Function.update_of_ne hxlast ..
    · intro x hx
      have hxnext : x ≠ s.next e := fun heq => hnext (heq ▸ hx)
      exact Function.update_of_ne hxnext ..
    · exact Function.update_self ..
    · exact Function.update_self ..
  cases l₂ with
  | nil =>
    have hnext : s.next e = h := hafter.1
    rw [hnext] at hlead
    rw [List.append_nil]
    exact hlead (List.nodup_cons.1 hr.nodup_before).1
  | cons c l₂ =>
    obtain ⟨hnext, -, hrest⟩ := hafter
    have hsplit : l₁ ++ e :: c :: l₂ = (l₁ ++ [e]) ++ c :: l₂ := by rw [List.append_assoc, List.singleton_append]
    have hr' : Ring s h ((l₁ ++ [e]) ++ c :: l₂) := hsplit ▸ hr
    rw [hnext] at hlead
    rw [path_append]
    refine ⟨hlead fun hmem => hr'.not_mem_before (List.mem_append_left _ hmem), ?_⟩
    apply hrest.congr
    · intro x hx
      exact Function.update_of_ne (hr.ne_prev (List.mem_cons_of_mem _ hx)) ..
    · intro x hx
      have hxnext : x ≠ s.next e := hnext ▸ hr'.ne_of_mem_behind hx
      exact Function.update_of_ne hxnext ..

end Lib.LinkedList
