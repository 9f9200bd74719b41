import Mathlib.Data.List.Sort
import Mathlib.Data.List.TakeWhile

/-!
# Lists kept in a stable order

A list that is sorted by a key, in which the elements of one key stand as they came. An element is inserted in front of
the first one with a greater key (`orderedInsert` of the strict order).

* `Stable.insert`, `Stable.erase`: how the order is kept when an element comes and when one goes.
* `Stable.perm`: the elements are those that have come.
-/

namespace Lib.StableSort

variable {α κ : Type*} [LinearOrder κ] {key : α → κ} {a b : α} {l live : List α}

/-- The elements of `live`, sorted by their keys; the order of `live` is kept within a key. -/
structure Stable (key : α → κ) (l live : List α) : Prop where
  sorted : l.Pairwise fun a b => key a ≤ key b
  same : ∀ k, l.filter (key · = k) = live.filter (key · = k)

/-- An element behind those whose keys are not greater. -/
def insert (key : α → κ) (a : α) (l : List α) : List α := l.orderedInsert (fun x y => key x < key y) a

theorem insert_eq (key : α → κ) (a : α) (l : List α) :
    insert key a l =
      l.takeWhile (fun b => ¬ key a < key b) ++ a :: l.dropWhile (fun b => ¬ key a < key b) :=
  List.orderedInsert_eq_take_drop ..

theorem Stable.nil : Stable key [] [] := ⟨List.Pairwise.nil, fun _ => rfl⟩

theorem le_of_mem_takeWhile (hb : b ∈ l.takeWhile fun b => ¬ key a < key b) : key b ≤ key a := by
  have hnot := List.mem_takeWhile_imp hb
  exact not_lt.1 (of_decide_eq_true hnot)

/-- Behind the place of insertion all keys are greater. -/
theorem lt_of_mem_dropWhile (hl : l.Pairwise fun a b => key a ≤ key b)
    (hb : b ∈ l.dropWhile fun b => ¬ key a < key b) : key a < key b := by
  induction l with
  | nil => exact absurd hb List.not_mem_nil
  | cons c l ih =>
    obtain ⟨hc, hl⟩ := List.pairwise_cons.1 hl
    rw [List.dropWhile_cons] at hb
    split at hb
    · exact ih hl hb
    · rename_i hlt
      have hac : key a < key c := by simpa using hlt
      rcases List.mem_cons.1 hb with rfl | hb
      · exact hac
      · exact lt_of_lt_of_le hac (hc b hb)

theorem sorted_insert (hl : l.Pairwise fun a b => key a ≤ key b) :
    (insert key a l).Pairwise fun a b => key a ≤ key b := by
  have hsplit := hl
  rw [← List.takeWhile_append_dropWhile (p := fun b => ¬ key a < key b) (l := l)] at hsplit
  obtain ⟨hbefore, hafter, hacross⟩ := List.pairwise_append.1 hsplit
  rw [insert_eq, List.pairwise_append]
  refine ⟨hbefore, List.pairwise_cons.2 ⟨fun b hb => (lt_of_mem_dropWhile hl hb).le, hafter⟩, ?_⟩
  intro b hb c hc
  rcases List.mem_cons.1 hc with rfl | hc
  · exact le_of_mem_takeWhile hb
  · exact hacross b hb c hc

/-- The new element is the last one of its key. -/
theorem filter_insert (hl : l.Pairwise fun a b => key a ≤ key b) (k : κ) :
    (insert key a l).filter (key · = k) = (l ++ [a]).filter (key · = k) := by
  have hsplit : l.filter (key · = k) = (l.takeWhile fun b => ¬ key a < key b).filter (key · = k) ++
      (l.dropWhile fun b => ¬ key a < key b).filter (key · = k) := by
    rw [← List.filter_append, List.takeWhile_append_dropWhile]
  rw [insert_eq, List.filter_append, List.filter_append, hsplit, List.append_assoc]
  congr 1
  by_cases hk : key a = k
  · have hnone : (l.dropWhile fun b => ¬ key a < key b).filter (key · = k) = [] := by
      rw [List.filter_eq_nil_iff]
      intro b hb hbk
      exact absurd ((of_decide_eq_true hbk).trans hk.symm) (lt_of_mem_dropWhile hl hb).ne'
    rw [List.filter_cons, List.filter_cons, hnone, List.nil_append, List.filter_nil]
  · have hneg : ¬ decide (key a = k) = true := fun h => hk (of_decide_eq_true h)
    rw [List.filter_cons, if_neg hneg, List.filter_cons, if_neg hneg, List.filter_nil, List.append_nil]

theorem Stable.insert (h : Stable key l live) (a : α) : Stable key (insert key a l) (live ++ [a]) := by
  refine ⟨sorted_insert h.sorted, fun k => ?_⟩
  rw [filter_insert h.sorted, List.filter_append, h.same, List.filter_append]

section Erase

variable [DecidableEq α]

/-- An element counts in the list as often as it came. -/
theorem Stable.perm (h : Stable key l live) : l.Perm live := by
  rw [List.perm_iff_count]
  intro a
  have hkey : decide (key a = key a) = true := decide_eq_true rfl
  have hcount (l : List α) : (l.filter (key · = key a)).count a = l.count a :=
    List.count_filter (p := fun b => key b = key a) hkey
  rw [← hcount l, h.same, hcount]

theorem Stable.erase (h : Stable key l live) (hnodup : live.Nodup) (a : α) :
    Stable key (l.erase a) (live.erase a) := by
  have hl : l.Nodup := h.perm.nodup_iff.2 hnodup
  refine ⟨h.sorted.sublist List.erase_sublist, fun k => ?_⟩
  rw [hl.erase_eq_filter, hnodup.erase_eq_filter, List.filter_filter, List.filter_filter]
  simp only [Bool.and_comm, ← List.filter_filter (p := (· != a)), h.same]

end Erase

end Lib.StableSort
