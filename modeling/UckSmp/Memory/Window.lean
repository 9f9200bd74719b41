import Mathlib.Data.List.Basic
import UckSmp.Lib.Transition
import UckSmp.Memory.Node

/-!
# The adaptive window of the prefetch list

`uck_build_prefetch_list` doubles its window while the faults are sequential and halves it while they are not, but uses
it for the start of the scan only: the scan ends at the end of the region, or when the list is full.

* `build_eq`: the list is the faulting page and the first pages that are missing from the start of the window on.
* `prefetch_well_formed`: what holds of the list after any history.
* `governed_iff`: when the window bounds what is prefetched; `random_faults_fetch_seven` is a call for which it does
  not.
-/

namespace UckSmp.Memory

open Lib.Transition

/-! ## Statement -/

/-- A call of `uck_build_prefetch_list`: the size and the entries of the region, and the arguments. -/
structure PrefetchCall where
  size : Nat
  entry : Nat → Option (PageEntry Nat)
  faultIndex : Nat
  maxPages : Nat

namespace PrefetchCall

variable (q : PrefetchCall) (st : PrefetchStatics)

def maxIndex : Nat := q.size / pageSize

/-- The page is not in the cache, or `INVALID` there. -/
def Missing (i : Nat) : Prop := ∀ e ∈ q.entry i, e.state = .invalid

instance (i : Nat) : Decidable (q.Missing i) := inferInstanceAs (Decidable (∀ e ∈ q.entry i, e.state = .invalid))

def build : List Nat × PrefetchStatics :=
  uckBuildPrefetchList (fun i => stateOf (q.entry i) ≠ .invalid) q.maxIndex q.faultIndex q.maxPages st

/-- A call, for what it leaves in the statics. -/
def step (st : PrefetchStatics) (q : PrefetchCall) : Option PrefetchStatics := some (q.build st).2

/-- A list as the caller may use it. -/
structure WellFormed (list : List Nat) : Prop where
  length_pos : 1 ≤ list.length
  length_le : list.length ≤ q.maxPages
  nodup : list.Nodup
  head : list.head? = some q.faultIndex
  tail : ∀ i ∈ list.tail, i < q.maxIndex ∧ q.Missing i

/-- The window, as it is after the call, bounds how far and how many pages are prefetched. -/
def Governed : Prop :=
  (∀ i ∈ (q.build st).1.tail, q.faultIndex ≤ i + (q.build st).2.prefetchWindow ∧
    i ≤ q.faultIndex + (q.build st).2.prefetchWindow) ∧
  (q.build st).1.tail.length ≤ (q.build st).2.prefetchWindow

instance : Decidable (q.Governed st) := inferInstanceAs (Decidable (_ ∧ _))

/-- A page of the window around the fault that could be prefetched. -/
def IsNear (window i : Nat) : Bool :=
  i ≠ q.faultIndex ∧ q.Missing i ∧ q.faultIndex ≤ i + window ∧ i ≤ q.faultIndex + window

/-- A page after the window that could be prefetched. -/
def IsFar (window i : Nat) : Bool := q.Missing i ∧ q.faultIndex + window < i

/-- How many pages of the region are near. -/
def near (window : Nat) : Nat := (List.range q.maxIndex).countP (q.IsNear window)

def far (window : Nat) : Nat := (List.range q.maxIndex).countP (q.IsFar window)

end PrefetchCall

/-! ## The scan -/

/-- The scan takes the first pages that are neither cached nor the faulting one. -/
theorem prefetchScan_eq (cached : Nat → Bool) (p n idx room : Nat) :
    prefetchScan cached p n idx room =
      ((List.range' idx n).filter fun i => decide (i ≠ p) && !cached i).take room := by
  induction n generalizing idx room with
  | zero => rw [prefetchScan, List.range'_zero, List.filter_nil, List.take_nil]
  | succ n ih =>
    rw [prefetchScan, List.range'_succ, List.filter_cons]
    cases room with
    | zero => rfl
    | succ room =>
      rw [if_neg (Nat.succ_ne_zero room)]
      split
      · rename_i hp
        rw [if_neg (by simp [hp]), ih]
      · rename_i hp
        split
        · rename_i hcached
          rw [if_neg (by simp [hcached]), ih]
        · rename_i hcached
          rw [if_pos (by simp [hp, hcached]), ih, List.take_succ_cons, Nat.add_sub_cancel]

/-- The numbers from `a` on. -/
theorem filter_range' (P : Nat → Bool) (a n : Nat) :
    (List.range' a (n - a)).filter P = (List.range n).filter fun i => P i && decide (a ≤ i) := by
  rcases Nat.le_total a n with h | h
  · have hsplit : List.range n = List.range' 0 a ++ List.range' a (n - a) := by
      have happ := @List.range'_append_1 0 a (n - a)
      rw [Nat.zero_add] at happ
      rw [happ, List.range_eq_range', Nat.add_sub_cancel' h]
    have hlow : (List.range' 0 a).filter (fun i => P i && decide (a ≤ i)) = [] := by
      rw [List.filter_eq_nil_iff]
      intro i hi
      have := List.mem_range'_1.1 hi
      simp
      omega
    have hhigh :
        (List.range' a (n - a)).filter (fun i => P i && decide (a ≤ i)) = (List.range' a (n - a)).filter P := by
      apply List.filter_congr
      intro i hi
      rw [decide_eq_true (List.mem_range'_1.1 hi).1, Bool.and_true]
    rw [hsplit, List.filter_append, hlow, hhigh, List.nil_append]
  · have hnone : (List.range n).filter (fun i => P i && decide (a ≤ i)) = [] := by
      rw [List.filter_eq_nil_iff]
      intro i hi
      have := List.mem_range.1 hi
      simp
      omega
    rw [hnone, Nat.sub_eq_zero_of_le h, List.range'_zero, List.filter_nil]

/-- The numbers up to `b` come before the others. -/
theorem filter_range_split (P : Nat → Bool) (b n : Nat) :
    (List.range n).filter P =
      ((List.range n).filter fun i => P i && decide (i ≤ b)) ++
        (List.range n).filter fun i => P i && decide (b < i) := by
  induction n with
  | zero => rfl
  | succ n ih =>
    simp only [List.range_succ, List.filter_append]
    rw [ih]
    by_cases hn : n ≤ b
    · -- nothing is after `b` yet
      have hnone : (List.range n).filter (fun i => P i && decide (b < i)) = [] := by
        rw [List.filter_eq_nil_iff]
        intro i hi
        have := List.mem_range.1 hi
        simp
        omega
      simp [List.filter_cons, hnone, hn, Nat.not_lt.2 hn]
    · simp [List.filter_cons, hn, Nat.lt_of_not_le hn]

/-! ## The list -/

namespace PrefetchCall

variable {q : PrefetchCall} {st : PrefetchStatics}

theorem missing_iff {i : Nat} : q.Missing i ↔ stateOf (q.entry i) = .invalid := by
  unfold Missing
  cases q.entry i with
  | none => exact iff_of_true (fun e he => nomatch he) rfl
  | some e => exact ⟨fun h => h e rfl, fun h e' he' => Option.mem_some.1 he' ▸ h⟩

/-- **The list** is the faulting page and the first ones of the window and after it that are missing. -/
theorem build_eq (q : PrefetchCall) (st : PrefetchStatics) :
    (q.build st).1 = q.faultIndex :: ((List.range q.maxIndex).filter (q.IsNear (q.build st).2.prefetchWindow) ++
      (List.range q.maxIndex).filter (q.IsFar (q.build st).2.prefetchWindow)).take (q.maxPages - 1) := by
  simp only [build, uckBuildPrefetchList]
  generalize (st.track q.faultIndex).prefetchWindow = w
  have hstart : (if q.faultIndex > w then q.faultIndex - w else 0) = q.faultIndex - w := by
    split <;> omega
  rw [hstart, prefetchScan_eq, filter_range', filter_range_split _ (q.faultIndex + w)]
  have hnear : ∀ i, ((decide (i ≠ q.faultIndex) && !decide (stateOf (q.entry i) ≠ .invalid)) &&
      decide (q.faultIndex - w ≤ i) && decide (i ≤ q.faultIndex + w)) = q.IsNear w i := by
    intro i
    rw [Bool.eq_iff_iff]
    simp only [IsNear, missing_iff, Bool.and_eq_true, Bool.not_eq_true', decide_eq_true_eq, decide_eq_false_iff_not,
      not_not, Nat.sub_le_iff_le_add, and_assoc]
  have hfar : ∀ i, ((decide (i ≠ q.faultIndex) && !decide (stateOf (q.entry i) ≠ .invalid)) &&
      decide (q.faultIndex - w ≤ i) && decide (q.faultIndex + w < i)) = q.IsFar w i := by
    intro i
    rw [Bool.eq_iff_iff]
    simp only [IsFar, missing_iff, Bool.and_eq_true, Bool.not_eq_true', decide_eq_true_eq, decide_eq_false_iff_not,
      not_not]
    -- after the window is after its start, and not the fault
    constructor
    · rintro ⟨⟨⟨-, hmissing⟩, -⟩, hlt⟩
      exact ⟨hmissing, hlt⟩
    · rintro ⟨hmissing, hlt⟩
      exact ⟨⟨⟨by omega, hmissing⟩, by omega⟩, hlt⟩
  simp only [hnear, hfar]

theorem mem_tail {i : Nat} (h : i ∈ (q.build st).1.tail) : i ≠ q.faultIndex ∧ i < q.maxIndex ∧ q.Missing i := by
  rw [build_eq, List.tail_cons] at h
  rcases List.mem_append.1 (List.mem_of_mem_take h) with h | h
  · obtain ⟨hi, hnear⟩ := List.mem_filter.1 h
    have hnear := of_decide_eq_true hnear
    exact ⟨hnear.1, List.mem_range.1 hi, hnear.2.1⟩
  · obtain ⟨hi, hfar⟩ := List.mem_filter.1 h
    have hfar := of_decide_eq_true hfar
    exact ⟨by omega, List.mem_range.1 hi, hfar.1⟩

/-- The pages after the first one are distinct: they come from one scan. -/
theorem nodup_tail (q : PrefetchCall) (st : PrefetchStatics) : (q.build st).1.tail.Nodup := by
  rw [build, uckBuildPrefetchList, List.tail_cons, prefetchScan_eq]
  exact List.Nodup.sublist ((List.take_sublist _ _).trans List.filter_sublist) List.nodup_range'

theorem wellFormed_build (hmax : 1 ≤ q.maxPages) (st : PrefetchStatics) : q.WellFormed (q.build st).1 := by
  have hcons : (q.build st).1 = q.faultIndex :: (q.build st).1.tail := rfl
  refine ⟨?_, ?_, ?_, rfl, ?_⟩
  · exact Nat.succ_pos _
  · rw [build_eq, List.length_cons, List.length_take]
    omega
  · rw [hcons, List.nodup_cons]
    exact ⟨fun h => (mem_tail h).1 rfl, nodup_tail q st⟩
  · intro i hi
    exact (mem_tail hi).2

end PrefetchCall

/-- The list of a fault is built by a call with the pages of its region in the cache. -/
theorem Node.prefetchList_eq_build (c : Config) (s : Node) (k : Key) :
    s.prefetchList c k =
      PrefetchCall.build ⟨c.size k.1, fun i => s.cache.entry (k.1, i), k.2, uckPrefetchWindow⟩ s.statics := rfl

namespace PrefetchCall

variable {st : PrefetchStatics}

/-! ## The window -/

/-- The window is between its bounds. -/
def WindowBounded (st : PrefetchStatics) : Prop := 1 ≤ st.prefetchWindow ∧ st.prefetchWindow ≤ 32

theorem windowBounded_track (h : WindowBounded st) (faultIndex : Nat) : WindowBounded (st.track faultIndex) := by
  obtain ⟨hpos, hle⟩ := h
  unfold PrefetchStatics.track WindowBounded
  split
  · dsimp only
    split <;> omega
  · split
    · dsimp only
      omega
    · exact ⟨hpos, hle⟩

/-- **The list is well formed** after any history of calls, and the window stays between its bounds. -/
theorem prefetch_well_formed {history : List PrefetchCall} {st : PrefetchStatics}
    (hrun : run step {} history = some st) {q : PrefetchCall} (hmax : 1 ≤ q.maxPages) :
    q.WellFormed (q.build st).1 ∧ 1 ≤ (q.build st).2.prefetchWindow ∧ (q.build st).2.prefetchWindow ≤ 32 := by
  have hstep : ∀ st q st', WindowBounded st → step st q = some st' → WindowBounded st' := by
    intro st q st' h hst
    cases hst
    exact windowBounded_track h q.faultIndex
  have hbounded : WindowBounded st := run_inv WindowBounded hstep ⟨by decide, by decide⟩ hrun
  exact ⟨wellFormed_build hmax st, windowBounded_track hbounded q.faultIndex⟩

/-- A region of 100 pages without any entry. -/
def onEmpty (faultIndex : Nat) : PrefetchCall := ⟨100 * pageSize, fun _ => none, faultIndex, uckPrefetchWindow⟩

/-- The same region with every page of an odd index in the cache. -/
def onHalf (faultIndex : Nat) : PrefetchCall :=
  { onEmpty faultIndex with entry := fun i => if i % 2 = 1 then some ⟨some i, .shared, 1, false⟩ else none }

/-- After a sequential fault and a random one: the list passes the pages that are in the cache by. -/
theorem prefetch_well_formed_after_faults : ∃ st, run step {} [onEmpty 1, onEmpty 2, onHalf 40] = some st ∧
    ((onHalf 20).build st).1 = [20, 18, 22, 24, 26, 28, 30, 32] ∧
    (onHalf 20).WellFormed ((onHalf 20).build st).1 ∧ ((onHalf 20).build st).2.prefetchWindow = 2 := by
  refine ⟨_, rfl, by decide, ?_, by decide⟩
  exact (@prefetch_well_formed [onEmpty 1, onEmpty 2, onHalf 40] _ rfl (onHalf 20) (by decide)).1

/-- The fault is neither on the last page nor on the one after it. -/
def IsRandom (st : PrefetchStatics) (q : PrefetchCall) : Prop :=
  q.faultIndex ≠ st.lastPageIndex ∧ q.faultIndex ≠ st.lastPageIndex + 1

instance (q : PrefetchCall) : Decidable (IsRandom st q) := inferInstanceAs (Decidable (_ ∧ _))

/-- A random fault halves the window. -/
theorem window_of_isRandom {q : PrefetchCall} (h : IsRandom st q) :
    (q.build st).2.prefetchWindow = max (st.prefetchWindow / 2) 1 := by
  show (st.track q.faultIndex).prefetchWindow = _
  rw [PrefetchStatics.track, if_neg h.2, if_pos h.1]

/-- **Random faults** shrink the window to its minimum. -/
theorem window_le_of_random {calls : List PrefetchCall} {st st' : PrefetchStatics}
    (hrun : run step st calls = some st') (hrandom : EachStep step IsRandom st calls) :
    st'.prefetchWindow ≤ max (st.prefetchWindow / 2 ^ calls.length) 1 := by
  induction calls generalizing st with
  | nil =>
    cases hrun
    rw [List.length_nil, Nat.pow_zero, Nat.div_one]
    exact Nat.le_max_left _ _
  | cons q calls ih =>
    rw [run_cons (t := (q.build st).2) rfl] at hrun
    have hrest := ih hrun (hrandom.2 _ rfl)
    have hpos : 0 < 2 ^ calls.length := Nat.two_pow_pos _
    rw [window_of_isRandom hrandom.1] at hrest
    rw [List.length_cons, Nat.pow_succ, Nat.mul_comm, ← Nat.div_div_eq_div_mul]
    rcases Nat.le_total (st.prefetchWindow / 2) 1 with h | h
    · -- the window is at its minimum already
      rw [Nat.max_eq_right h] at hrest
      have := Nat.div_le_self 1 (2 ^ calls.length)
      omega
    · rw [Nat.max_eq_left h] at hrest
      exact hrest

/-! ## What the window bounds -/

/-- The list takes pages after the window exactly when the pages of the window leave room for them. -/
theorem forall_le_iff {near far : List Nat} {b : Nat} (hnear : ∀ i ∈ near, i ≤ b) (hfar : ∀ i ∈ far, b < i)
    (room : Nat) : (∀ i ∈ (near ++ far).take room, i ≤ b) ↔ room ≤ near.length ∨ far.length = 0 := by
  rw [List.take_append]
  constructor
  · intro h
    by_contra hnot
    obtain ⟨hroom, hlen⟩ := not_or.1 hnot
    obtain ⟨i, rest, rfl⟩ := List.exists_cons_of_length_pos (Nat.pos_of_ne_zero hlen)
    obtain ⟨k, hk⟩ := Nat.exists_eq_add_of_lt (Nat.lt_of_not_le hroom)
    have hi : i ∈ near.take room ++ (i :: rest).take (room - near.length) := by
      rw [hk, Nat.add_assoc, Nat.add_sub_cancel_left, List.take_succ_cons]
      exact List.mem_append_right _ List.mem_cons_self
    exact Nat.not_lt.2 (h i hi) (hfar i List.mem_cons_self)
  · intro h i hi
    rcases List.mem_append.1 hi with hi | hi
    · exact hnear i (List.mem_of_mem_take hi)
    · rcases h with h | h
      · rw [Nat.sub_eq_zero_of_le h, List.take_zero] at hi
        cases hi
      · rw [List.length_eq_zero_iff.1 h, List.take_nil] at hi
        cases hi

/-- **The window governs a call** exactly when the pages in the window that can be prefetched fill the list or no page
after the window can be prefetched, and those that are taken are not more than the window. -/
theorem governed_iff (q : PrefetchCall) (st : PrefetchStatics) :
    let window := (q.build st).2.prefetchWindow
    q.Governed st ↔
      (q.maxPages - 1 ≤ q.near window ∨ q.far window = 0) ∧ min (q.maxPages - 1) (q.near window) ≤ window := by
  intro window
  have hnear : ∀ i ∈ (List.range q.maxIndex).filter (q.IsNear window),
      q.faultIndex ≤ i + window ∧ i ≤ q.faultIndex + window := by
    intro i hi
    exact (of_decide_eq_true (List.mem_filter.1 hi).2).2.2
  have hfar : ∀ i ∈ (List.range q.maxIndex).filter (q.IsFar window), q.faultIndex + window < i := by
    intro i hi
    exact (of_decide_eq_true (List.mem_filter.1 hi).2).2
  have htail := congrArg List.tail (build_eq q st)
  rw [List.tail_cons] at htail
  have hbefore : ∀ i ∈ (q.build st).1.tail, q.faultIndex ≤ i + window := by
    intro i hi
    rw [htail] at hi
    rcases List.mem_append.1 (List.mem_of_mem_take hi) with hi | hi
    · exact (hnear i hi).1
    · have := hfar i hi
      omega
  have hlength : (q.build st).1.tail.length = min (q.maxPages - 1) (q.near window + q.far window) := by
    rw [htail, List.length_take, List.length_append, ← List.countP_eq_length_filter, ← List.countP_eq_length_filter]
    rfl
  have hafter := forall_le_iff (fun i hi => (hnear i hi).2) hfar (q.maxPages - 1)
  rw [← htail, ← List.countP_eq_length_filter, ← List.countP_eq_length_filter] at hafter
  constructor
  · rintro ⟨hall, hlen⟩
    have hor : q.maxPages - 1 ≤ q.near window ∨ q.far window = 0 := hafter.1 fun i hi => (hall i hi).2
    rw [hlength] at hlen
    exact ⟨hor, by omega⟩
  · rintro ⟨hor, hmin⟩
    refine ⟨fun i hi => ⟨hbefore i hi, hafter.2 hor i hi⟩, ?_⟩
    rw [hlength]
    omega

/-- After random faults on pages 10, 20 and 30, the window is one page. The list of a fault on page 50 goes from page 49
to page 56. -/
theorem random_faults_fetch_seven :
    ∃ st, run step {} [onEmpty 10, onEmpty 20, onEmpty 30] = some st ∧
      ((onEmpty 50).build st).2.prefetchWindow = 1 ∧
      ((onEmpty 50).build st).1 = [50, 49, 51, 52, 53, 54, 55, 56] ∧ ¬ (onEmpty 50).Governed st := by
  refine ⟨⟨30, 0, 1⟩, rfl, rfl, ?_, ?_⟩
  · decide +kernel
  · decide +kernel

end PrefetchCall

end UckSmp.Memory
