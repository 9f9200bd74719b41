import Mathlib.Data.List.Nodup

/-!
# Tables searched by key

A table is a list of entries that is searched from the front for a key, changed at the slot that was found, and only
ever grows at its end.

* `key_of_slotOf`, `slotOf_eq_none_iff`: what a search finds.
* `slotOf_congr`: a search sees the keys only.
* `eq_of_slotOf`: with all keys different, a search finds the only entry of its key.
* `map_modify_eq_iff`: when a change of one entry does not show.
* `lookup_set`, `lookup_append`: what a search finds after a change.
-/

namespace Lib.Slots

variable {α β κ : Type*} [DecidableEq κ] {key : α → κ} {l : List α} {k : κ} {i j : Nat} {x y : α}

/-- The slot of the first entry with the key. -/
def slotOf (key : α → κ) (l : List α) (k : κ) : Option Nat := l.findIdx? fun x => key x = k

theorem exists_of_slotOf (key : α → κ) (h : slotOf key l k = some i) : ∃ x, l[i]? = some x ∧ key x = k := by
  obtain ⟨hl, hk, -⟩ := List.findIdx?_eq_some_iff_getElem.1 h
  exact ⟨_, List.getElem?_eq_getElem hl, by simpa using hk⟩

theorem key_of_slotOf (key : α → κ) (h : slotOf key l k = some i) (hx : l[i]? = some x) : key x = k := by
  obtain ⟨y, hy, hk⟩ := exists_of_slotOf key h
  obtain rfl := Option.some.inj (hy.symm.trans hx)
  exact hk

theorem slotOf_eq_none_iff : slotOf key l k = none ↔ k ∉ l.map key := by
  simp [slotOf, List.findIdx?_eq_none_iff]

/-- A search sees the keys only. -/
theorem slotOf_eq_map (key : α → κ) (l : List α) (k : κ) : slotOf key l k = slotOf id (l.map key) k := by
  simp only [slotOf, List.findIdx?_map, id_eq]
  rfl

/-- Tables with the same keys give the same results. -/
theorem slotOf_congr (key : α → κ) (key' : β → κ) {l' : List β} (h : l.map key = l'.map key') (k : κ) :
    slotOf key l k = slotOf key' l' k := by
  rw [slotOf_eq_map key l, slotOf_eq_map key' l', h]

/-- The entry that is found is the only one with its key. -/
theorem eq_of_slotOf (key : α → κ) (hn : (l.map key).Nodup) (h : slotOf key l k = some i) (hy : l[j]? = some y)
    (hk : key y = k) : j = i := by
  obtain ⟨x, hx, hkx⟩ := exists_of_slotOf key h
  have hi : (l.map key)[i]? = some k := by rw [List.getElem?_map, hx, Option.map_some, hkx]
  have hj : (l.map key)[j]? = some k := by rw [List.getElem?_map, hy, Option.map_some, hk]
  obtain ⟨hlt, -⟩ := List.getElem?_eq_some_iff.1 hj
  exact (List.getElem?_inj hlt hn).1 (hj.trans hi.symm)

/-- A change of one entry does not show in `g` exactly if it does not show in that entry. -/
theorem map_modify_eq_iff (g : α → β) (f : α → α) :
    (l.modify i f).map g = l.map g ↔ ∀ x ∈ l[i]?, g (f x) = g x := by
  induction l generalizing i with
  | nil => simp
  | cons a l ih =>
    cases i with
    | zero => simp
    | succ i => simp [ih]

/-- An entry after a change of one entry. -/
theorem mem_modify {f : α → α} (h : y ∈ l.modify i f) : y ∈ l ∨ ∃ x, l[i]? = some x ∧ y = f x := by
  obtain ⟨j, hj⟩ := List.mem_iff_getElem?.1 h
  rw [List.getElem?_modify] at hj
  split at hj
  · rename_i hij
    subst hij
    obtain ⟨x, hx, rfl⟩ := Option.map_eq_some_iff.1 hj
    exact .inr ⟨x, hx, rfl⟩
  · exact .inl (List.mem_of_getElem? (by simpa using hj))

theorem mem_modify_self {f : α → α} (h : l[i]? = some x) : f x ∈ l.modify i f := by
  refine List.mem_of_getElem? (i := i) ?_
  rw [List.getElem?_modify, h]
  simp

theorem modify_append_last (l : List α) (a : α) (f : α → α) : (l ++ [a]).modify l.length f = l ++ [f a] := by
  induction l with
  | nil => rfl
  | cons b l ih => simp [ih]

/-- A change that shows in `g` as the change `h`. -/
theorem map_modify_of_comp {g : α → β} {f : α → α} {h : β → β} (hfh : ∀ x ∈ l[i]?, g (f x) = h (g x)) :
    (l.modify i f).map g = (l.map g).modify i h := by
  induction l generalizing i with
  | nil => simp
  | cons a l ih =>
    cases i with
    | zero => simpa using hfh
    | succ i => simpa using ih (by simpa using hfh)

/-- An entry in the place of one with the same key. -/
theorem map_set_eq (key : α → β) (hy : l[i]? = some y) (hk : key x = key y) : (l.set i x).map key = l.map key := by
  obtain ⟨hlt, -⟩ := List.getElem?_eq_some_iff.1 hy
  refine List.ext_getElem? fun j => ?_
  rw [List.getElem?_map, List.getElem?_map]
  by_cases hij : i = j
  · subst hij
    rw [List.getElem?_set_self hlt, hy, Option.map_some, Option.map_some, hk]
  · rw [List.getElem?_set_ne hij]

/-! ## The entry that is found -/

/-- The first entry with the key. -/
def lookup (key : α → κ) (l : List α) (k : κ) : Option α := (slotOf key l k).bind fun i => l[i]?

theorem lookup_isSome_iff : (lookup key l k).isSome = true ↔ k ∈ l.map key := by
  rw [← not_iff_not, ← slotOf_eq_none_iff, lookup]
  cases hi : slotOf key l k with
  | none => simp
  | some i =>
    obtain ⟨x, hx, -⟩ := exists_of_slotOf key hi
    simp [hx]

/-- A changed entry that keeps its key is what a search for that key finds, and all that changes. -/
theorem lookup_set (hi : slotOf key l k = some i) (hx : key x = k) (k' : κ) :
    lookup key (l.set i x) k' = if k' = k then some x else lookup key l k' := by
  obtain ⟨y, hy, hk⟩ := exists_of_slotOf key hi
  obtain ⟨hlt, -⟩ := List.getElem?_eq_some_iff.1 hy
  rw [lookup, slotOf_congr key key (map_set_eq key hy (hx.trans hk.symm))]
  split
  · rename_i heq
    rw [heq, hi, Option.bind_some, List.getElem?_set_self hlt]
  · rename_i hne
    rw [lookup]
    cases hj : slotOf key l k' with
    | none => rfl
    | some j =>
      -- the other key is found in another slot
      have hij : i ≠ j := by
        rintro rfl
        exact hne (by rw [← key_of_slotOf key hj hy, hk])
      rw [Option.bind_some, Option.bind_some, List.getElem?_set_ne hij]

/-- A search that finds an entry does not look at what comes behind it. -/
theorem lookup_append (h : lookup key l k = some x) (m : List α) : lookup key (l ++ m) k = some x := by
  obtain ⟨i, hi, hx⟩ := Option.bind_eq_some_iff.1 h
  obtain ⟨hlt, -⟩ := List.getElem?_eq_some_iff.1 hx
  have happ : slotOf key (l ++ m) k = some i := by
    rw [slotOf, List.findIdx?_append, ← slotOf, hi]
    rfl
  rw [lookup, happ, Option.bind_some, List.getElem?_append_left hlt, hx]

end Lib.Slots
