import Mathlib.Data.List.Perm.Basic
import Mathlib.Data.List.Range
import Mathlib.Logic.Function.Basic

/-!
# Arrays whose last entry fills the gaps

The first `size` slots of an array are in use. A new entry goes into the first free slot, and an entry is removed by
copying the last one over it. The slots behind the end keep what they had.

* `toList_push`, `toList_swapRemove`: the entries in use.
* `swapRemove_last`: the last entry is copied onto itself.
-/

namespace Lib

@[ext] structure SwapArray (α : Type) where
  slots : Nat → α
  size : Nat

namespace SwapArray

variable {α β : Type} (a : SwapArray α)

/-- The entries in use. -/
def toList : List α := (List.range a.size).map a.slots

def set (i : Nat) (x : α) : SwapArray α := { a with slots := Function.update a.slots i x }

def push (x : α) : SwapArray α := { a.set a.size x with size := a.size + 1 }

def swapRemove (i : Nat) : SwapArray α := { a.set i (a.slots (a.size - 1)) with size := a.size - 1 }

/-- Every entry in use is changed. -/
def modify (f : Nat → α → α) : SwapArray α :=
  { a with slots := fun i => if i < a.size then f i (a.slots i) else a.slots i }

@[simp] theorem size_push (x : α) : (a.push x).size = a.size + 1 := rfl

@[simp] theorem size_swapRemove (i : Nat) : (a.swapRemove i).size = a.size - 1 := rfl

@[simp] theorem size_modify (f : Nat → α → α) : (a.modify f).size = a.size := rfl

@[simp] theorem length_toList : a.toList.length = a.size := by
  simp [toList]

theorem mem_toList {x : α} : x ∈ a.toList ↔ ∃ i < a.size, a.slots i = x := by
  simp [toList]

theorem slots_push_of_ne {i : Nat} (hi : i ≠ a.size) (x : α) : (a.push x).slots i = a.slots i :=
  Function.update_of_ne hi _ _

@[simp] theorem slots_push_self (x : α) : (a.push x).slots a.size = x := Function.update_self _ _ _

theorem slots_swapRemove_of_ne {i j : Nat} (hj : j ≠ i) : (a.swapRemove i).slots j = a.slots j :=
  Function.update_of_ne hj _ _

theorem slots_modify_of_lt {i : Nat} (hi : i < a.size) (f : Nat → α → α) : (a.modify f).slots i = f i (a.slots i) :=
  if_pos hi

theorem slots_modify_of_le {i : Nat} (hi : a.size ≤ i) (f : Nat → α → α) : (a.modify f).slots i = a.slots i :=
  if_neg (Nat.not_lt.2 hi)

/-- A change that a view does not see. -/
theorem map_toList_modify {f : Nat → α → α} {g : α → β} (h : ∀ i x, g (f i x) = g x) :
    (a.modify f).toList.map g = a.toList.map g := by
  simp only [toList, List.map_map, size_modify]
  refine List.map_congr_left fun i hi => ?_
  rw [Function.comp_apply, Function.comp_apply, slots_modify_of_lt a (List.mem_range.1 hi), h]

theorem toList_push (x : α) : (a.push x).toList = a.toList ++ [x] := by
  rw [toList, size_push, List.range_succ, List.map_append, List.map_singleton, slots_push_self]
  congr 1
  refine List.map_congr_left fun i hi => ?_
  exact slots_push_of_ne a (Nat.ne_of_lt (List.mem_range.1 hi)) x

/-- The last entry is copied onto itself. -/
theorem swapRemove_last : (a.swapRemove (a.size - 1)).slots = a.slots := Function.update_eq_self _ _

/-- The entries that are left, with the one that was removed. -/
theorem toList_swapRemove {i : Nat} (hi : i < a.size) : (a.slots i :: (a.swapRemove i).toList).Perm a.toList := by
  obtain ⟨n, hn⟩ : ∃ n, a.size = n + 1 := ⟨a.size - 1, by omega⟩
  have hall : a.toList = (List.range n).map a.slots ++ [a.slots n] := by
    rw [toList, hn, List.range_succ, List.map_append, List.map_singleton]
  have hlast : a.size - 1 = n := by omega
  rw [hall, toList, size_swapRemove, hlast]
  by_cases hin : i = n
  · rw [hin, ← hlast, swapRemove_last]
    exact (List.perm_append_singleton _ _).symm
  · -- The last entry takes the place of the one that is removed.
    have hlt : i < ((List.range n).map a.slots).length := by
      simp only [List.length_map, List.length_range]
      omega
    have hset : (List.range n).map (a.swapRemove i).slots = ((List.range n).map a.slots).set i (a.slots n) := by
      refine List.ext_getElem (by simp) fun j hj hj' => ?_
      rw [List.getElem_set]
      simp only [List.getElem_map, List.getElem_range]
      split
      · rename_i hij
        rw [← hij, ← hlast]
        exact Function.update_self _ _ _
      · rename_i hij
        exact slots_swapRemove_of_ne a (Ne.symm hij)
    have hback : (a.slots i :: ((List.range n).map a.slots).eraseIdx i).Perm ((List.range n).map a.slots) := by
      simpa using List.getElem_cons_eraseIdx_perm hlt
    rw [hset]
    refine ((List.set_perm_cons_eraseIdx hlt _).cons _).trans ?_
    refine (List.Perm.swap _ _ _).trans ?_
    exact (hback.cons _).trans (List.perm_append_singleton _ _).symm

end SwapArray

end Lib
