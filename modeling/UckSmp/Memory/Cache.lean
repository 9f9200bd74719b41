import Mathlib.Logic.Function.Basic
import UckSmp.Memory.Entry

/-!
# The page cache of a node

The page entries of all regions of one node, with the trees that they are in: an index is in its tree once. A page is
its number, in the order of allocation.

* `tally`: how many entries have a page with a property; `tally_put` is how the change of one entry changes it.
-/

namespace UckSmp.Memory

/-- The slot of a region and the index of a page in it. -/
abbrev Key := Nat × Nat

/-- The page trees of the regions. -/
structure Cache where
  entry : Key → Option (PageEntry Nat)
  tree : List Key
  nodup : tree.Nodup
  mem_tree : ∀ k, k ∈ tree ↔ (entry k).isSome = true

namespace Cache

def empty : Cache := ⟨fun _ => none, [], List.nodup_nil, by simp⟩

/-- The page of an entry. -/
def page (c : Cache) (k : Key) : Option Nat := (c.entry k).bind (·.page)

/-- The entry of a page is changed, or put into the tree. -/
def put (c : Cache) (k : Key) (e : PageEntry Nat) : Cache where
  entry := Function.update c.entry k (some e)
  tree := if k ∈ c.tree then c.tree else c.tree ++ [k]
  nodup := by
    split
    · exact c.nodup
    · rename_i hk
      exact List.nodup_append.2 ⟨c.nodup, List.nodup_cons.2 ⟨List.not_mem_nil, List.nodup_nil⟩, fun a ha b hb hab =>
        hk (List.mem_singleton.1 hb ▸ hab ▸ ha)⟩
  mem_tree j := by
    have hj := c.mem_tree j
    by_cases hjk : j = k
    · subst hjk
      rw [Function.update_self]
      split
      · rename_i hk
        exact ⟨fun _ => rfl, fun _ => hk⟩
      · simp
    · rw [Function.update_of_ne hjk, ← hj]
      split
      · rfl
      · simp [hjk]

/-- What a section leaves in the cache, if anything. -/
def set (c : Cache) (k : Key) : Option (PageEntry Nat) → Cache
  | some e => c.put k e
  | none => c

/-- All entries are changed in place. -/
def map (c : Cache) (f : Key → PageEntry Nat → PageEntry Nat) : Cache where
  entry k := (c.entry k).map (f k)
  tree := c.tree
  nodup := c.nodup
  mem_tree k := by
    rw [c.mem_tree k]
    simp

/-- The number of entries whose page has a property. -/
def tally (c : Cache) (q : Option Nat → Bool) : Nat := c.tree.countP fun k => q (c.page k)

variable {c : Cache} {k j : Key} {e : PageEntry Nat}

@[simp] theorem put_entry_self : (c.put k e).entry k = some e := Function.update_self ..

theorem put_entry_of_ne (h : j ≠ k) : (c.put k e).entry j = c.entry j := Function.update_of_ne h ..

@[simp] theorem put_page_self : (c.put k e).page k = e.page := by simp [page]

theorem put_page_of_ne (h : j ≠ k) : (c.put k e).page j = c.page j := by simp [page, put_entry_of_ne h]

theorem set_entry_of_ne {e? : Option (PageEntry Nat)} (h : j ≠ k) : (c.set k e?).entry j = c.entry j := by
  cases e? with
  | none => rfl
  | some e => exact put_entry_of_ne h

/-- A count over distinct elements after the predicate has changed at one of them. -/
theorem countP_change {α : Type*} {l : List α} (hl : l.Nodup) {a : α} (ha : a ∈ l) {p q : α → Bool}
    (hpq : ∀ b, b ≠ a → p b = q b) : l.countP q + (p a).toNat = l.countP p + (q a).toNat := by
  induction l with
  | nil => cases ha
  | cons b l ih =>
    obtain ⟨hb, hl⟩ := List.nodup_cons.1 hl
    rw [List.countP_cons, List.countP_cons]
    by_cases hba : b = a
    · subst hba
      have hrest : l.countP q = l.countP p := by
        refine List.countP_congr fun x hx => ?_
        rw [hpq x fun hxb => hb (hxb ▸ hx)]
      rw [hrest]
      cases p b <;> cases q b <;> simp
    · have hal := (List.mem_cons.1 ha).resolve_left (Ne.symm hba)
      have hih := ih hl hal
      rw [hpq b hba]
      omega

/-- How the change of one entry changes a tally. -/
theorem tally_put (q : Option Nat → Bool) (hq : q none = false) :
    (c.put k e).tally q + (q (c.page k)).toNat = c.tally q + (q e.page).toNat := by
  have hother : ∀ j, j ≠ k → q (c.page j) = q ((c.put k e).page j) := fun j hj => by rw [put_page_of_ne hj]
  unfold tally
  by_cases hk : k ∈ c.tree
  · have htree : (c.put k e).tree = c.tree := if_pos hk
    rw [htree]
    have hchange := countP_change c.nodup hk (p := fun j => q (c.page j)) (q := fun j => q ((c.put k e).page j)) hother
    simpa using hchange
  · have htree : (c.put k e).tree = c.tree ++ [k] := if_neg hk
    have hnone : c.page k = none := by
      have hno := (c.mem_tree k).not.1 hk
      simp only [Bool.not_eq_true, Option.isSome_eq_false_iff, Option.isNone_iff_eq_none] at hno
      simp [page, hno]
    have hrest : c.tree.countP (fun j => q ((c.put k e).page j)) = c.tree.countP fun j => q (c.page j) := by
      refine List.countP_congr fun x hx => ?_
      rw [hother x fun hxk => hk (hxk ▸ hx)]
    rw [htree, List.countP_append, hrest, List.countP_singleton, put_page_self, hnone, hq]
    cases q e.page <;> simp

/-- A changed entry with the page that was there. -/
theorem tally_put_of_page (he : e.page = c.page k) (q : Option Nat → Bool) (hq : q none = false) :
    (c.put k e).tally q = c.tally q := by
  have hput := tally_put (c := c) (k := k) (e := e) q hq
  rw [he] at hput
  exact Nat.add_right_cancel hput

theorem tally_set_of_page {e? : Option (PageEntry Nat)} (he : ∀ e ∈ e?, e.page = c.page k) (q : Option Nat → Bool)
    (hq : q none = false) : (c.set k e?).tally q = c.tally q := by
  cases e? with
  | none => rfl
  | some e => exact tally_put_of_page (he e rfl) q hq

/-- Entries that keep their pages. -/
theorem tally_map {f : Key → PageEntry Nat → PageEntry Nat} (hf : ∀ k e, (f k e).page = e.page)
    (q : Option Nat → Bool) : (c.map f).tally q = c.tally q := by
  have hpage : ∀ k, (c.map f).page k = c.page k := by
    intro k
    simp only [page, map]
    cases c.entry k with
    | none => rfl
    | some e => exact hf k e
  exact List.countP_congr fun k _ => by rw [hpage]

theorem tally_pos_iff {q : Option Nat → Bool} (hq : q none = false) : 0 < c.tally q ↔ ∃ k, q (c.page k) = true := by
  rw [tally, List.countP_pos_iff]
  constructor
  · rintro ⟨k, -, hk⟩
    exact ⟨k, hk⟩
  · rintro ⟨k, hk⟩
    refine ⟨k, (c.mem_tree k).2 ?_, hk⟩
    cases hentry : c.entry k with
    | some e => rfl
    | none =>
      simp only [page, hentry, Option.bind_none, hq] at hk
      cases hk

/-- The number of entries that hold a page. -/
def held (c : Cache) : Nat := c.tally Option.isSome

/-- The number of entries that point to a page. -/
def pointers (c : Cache) (g : Nat) : Nat := c.tally (· == some g)

end Cache

end UckSmp.Memory
