import UckSmp.Defs

/-!
# The prefetch list

`uck_build_prefetch_list`: the faulting page first, then pages of an adaptive window that are not in the cache. The
window and the last index are `static` variables of the function, so they are a state that every call of the node
updates.
-/

namespace UckSmp.Memory

/-- The `static` variables of `uck_build_prefetch_list`. -/
structure PrefetchStatics where
  lastPageIndex : Nat := 0
  sequentialCount : Nat := 0
  prefetchWindow : Nat := uckPrefetchWindow
  deriving DecidableEq, Repr

/-- The access-pattern tracking: a successor of the last index counts as sequential, any other new index as random. -/
def PrefetchStatics.track (st : PrefetchStatics) (faultIndex : Nat) : PrefetchStatics :=
  if faultIndex = st.lastPageIndex + 1 then
    let seq := st.sequentialCount + 1
    { lastPageIndex := faultIndex
      sequentialCount := seq
      prefetchWindow :=
        if seq > 4 ∧ st.prefetchWindow < 32 then min (st.prefetchWindow * 2) 32 else st.prefetchWindow }
  else if faultIndex ≠ st.lastPageIndex then
    { lastPageIndex := faultIndex, sequentialCount := 0, prefetchWindow := max (st.prefetchWindow / 2) 1 }
  else { st with lastPageIndex := faultIndex }

/-- The scan of `n` indices from `idx` on, with room for `room` more pages in the list. -/
def prefetchScan (cached : Nat → Bool) (faultIndex : Nat) : (n idx room : Nat) → List Nat
  | 0, _, _ => []
  | n + 1, idx, room =>
    if room = 0 then []
    else if idx = faultIndex then prefetchScan cached faultIndex n (idx + 1) room
    else if cached idx then prefetchScan cached faultIndex n (idx + 1) room
    else idx :: prefetchScan cached faultIndex n (idx + 1) (room - 1)

/-- `uck_build_prefetch_list`: the list and the statics after the call. `cached` says which pages have an entry that is
not `INVALID`, `maxIndex` is the region's number of pages. -/
def uckBuildPrefetchList (cached : Nat → Bool) (maxIndex faultIndex maxPages : Nat) (st : PrefetchStatics) :
    List Nat × PrefetchStatics :=
  let st := st.track faultIndex
  let start := if faultIndex > st.prefetchWindow then faultIndex - st.prefetchWindow else 0
  (faultIndex :: prefetchScan cached faultIndex (maxIndex - start) start (maxPages - 1), st)

/-- The faulting page is on its own list. -/
theorem mem_uckBuildPrefetchList (cached : Nat → Bool) (maxIndex p maxPages : Nat) (st : PrefetchStatics) :
    p ∈ (uckBuildPrefetchList cached maxIndex p maxPages st).1 := List.mem_cons_self

/-- The scan leaves out the faulting page and the pages that are cached. -/
theorem of_mem_prefetchScan {cached : Nat → Bool} {p j : Nat} {n idx room : Nat}
    (h : j ∈ prefetchScan cached p n idx room) : j ≠ p ∧ cached j = false := by
  induction n generalizing idx room with
  | zero => cases h
  | succ n ih =>
    unfold prefetchScan at h
    split at h
    · cases h
    · split at h
      · exact ih h
      · split at h
        · exact ih h
        · rename_i hp hc
          rcases List.mem_cons.1 h with rfl | h
          · exact ⟨hp, Bool.not_eq_true _ ▸ hc⟩
          · exact ih h

end UckSmp.Memory
