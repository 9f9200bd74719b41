import Mathlib.Logic.Function.Basic
import UckSmp.Lib.Transition
import UckSmp.Memory.Region

/-!
# The region table over a run

The array `uck_state.regions` with its counter, under the ioctls that add a region and the cleanup that empties it.
`UCK_IOC_CREATE_REGION` checks the size of a region, `UCK_IOC_JOIN_REGION` does not.

* `inUse_uckCreateRegion`: the part of the array that is in use is the table of `Memory.Region`.
* `Kept`: what every call keeps, sizes apart.
* `region_table_iff`: when the table is as it should be along a whole run; `join_of_100_bytes` breaks it.
-/

namespace UckSmp.Memory.RegionTable

open Lib.Transition
open UckSmp.Exec (Cred)

/-! ## Code -/

/-- The error codes of the two ioctls. -/
inductive IoctlError
  | ebusy
  | efault
  | einval
  | enomem
  | eexist
  deriving DecidableEq, Repr

/-- `uck_state.regions` and `uck_state.num_regions`. -/
structure Table where
  regions : Nat → Region := fun _ => ⟨⟨0, 0, 0⟩, ⟨0, 0, 0⟩, false⟩
  numRegions : Nat := 0

namespace Table

variable (t : Table)

/-- The part of the array that is in use. -/
def inUse : List Region := (List.range t.numRegions).map t.regions

/-- `uck_find_region`: the slot that the loop stops at. -/
def uckFindRegion (regionId : UInt64) : Option Nat :=
  (List.range t.numRegions).find? fun i => (t.regions i).active && (t.regions i).info.regionId == regionId

/-- A region is put into the next slot. -/
def push (r : Region) : Table := ⟨Function.update t.regions t.numRegions r, t.numRegions + 1⟩

/-- `uck_create_region`. -/
def uckCreateRegion (p : Cred) (info : RegionInfo) : Option IoctlError × Table :=
  if uckMaxRegions ≤ t.numRegions then (some .enomem, t)
  else if (t.uckFindRegion info.regionId).isSome then (some .eexist, t)
  else (none, t.push { info, acl := ⟨p.uid, p.gid, 0o600⟩ })

/-- `uck_cleanup_regions`, for the table. -/
def uckCleanupRegions : Table :=
  ⟨fun i => if i < t.numRegions then { t.regions i with active := false } else t.regions i, 0⟩

end Table

/-- A request of a process: whether the rate limit lets it through, whether its descriptor can be copied. -/
structure Request where
  admitted : Bool := true
  copied : Bool := true
  cred : Cred
  info : RegionInfo
  deriving DecidableEq

/-- The region that a request asks for. -/
def Request.region (r : Request) : Region := { info := r.info, acl := ⟨r.cred.uid, r.cred.gid, 0o600⟩ }

inductive Ev
  | createRegion (r : Request)
  | joinRegion (r : Request)
  | cleanup
  deriving DecidableEq

/-- `uck_ioctl` for the two commands, and the cleanup: the error that is returned, if any, and the table. -/
def call (t : Table) : Ev → Option IoctlError × Table
  | .createRegion r =>
    if r.admitted = false then (some .ebusy, t)
    else if r.copied = false then (some .efault, t)
    else if r.info.size = 0 ∨ r.info.size &&& 0xfff ≠ 0 then (some .einval, t)
    else t.uckCreateRegion r.cred r.info
  | .joinRegion r =>
    if r.admitted = false then (some .ebusy, t)
    else if r.copied = false then (some .efault, t)
    else t.uckCreateRegion r.cred r.info
  | .cleanup => (none, t.uckCleanupRegions)

/-! ## Statement -/

/-- The table, with the region that was last created under each identifier since the last cleanup. -/
structure Sys where
  table : Table := {}
  last : UInt64 → Option Region := fun _ => none

/-- A region that a call has created is the last one under its identifier. -/
def record (s : Sys) (e : Ev) : UInt64 → Option Region :=
  match e with
  | .createRegion r | .joinRegion r =>
    if (call s.table e).1 = none then Function.update s.last r.info.regionId (some r.region) else s.last
  | .cleanup => fun _ => none

def step (s : Sys) (e : Ev) : Option Sys := some ⟨(call s.table e).2, record s e⟩

/-- A size that mappings and faults can work with. -/
def Sized (info : RegionInfo) : Prop := info.size ≠ 0 ∧ pageSize ∣ info.size.toNat

instance (info : RegionInfo) : Decidable (Sized info) := inferInstanceAs (Decidable (_ ∧ _))

/-- The table as it should be. -/
structure Ok (s : Sys) : Prop where
  count : s.table.numRegions ≤ uckMaxRegions
  distinct : ∀ i j, (s.table.regions i).active = true → (s.table.regions j).active = true →
    (s.table.regions i).info.regionId = (s.table.regions j).info.regionId → i = j
  sized : ∀ i, (s.table.regions i).active = true → Sized (s.table.regions i).info
  find : ∀ id, (s.table.uckFindRegion id).map s.table.regions = s.last id

/-- A request that is refused leaves the table as it was. -/
def RefusedKeeps (s : Sys) (e : Ev) : Prop := (call s.table e).1 ≠ none → (call s.table e).2 = s.table

/-- A region that is joined has a size that could have been created: one that the rate limit lets through, whose
descriptor can be copied, for which there is room and whose identifier is not in use. -/
def JoinsSized (s : Sys) : Ev → Prop
  | .joinRegion r => r.admitted = true → r.copied = true → s.table.numRegions < uckMaxRegions →
      s.table.uckFindRegion r.info.regionId = none → Sized r.info
  | _ => True

/-! ## Calls -/

variable {t : Table} {s s' : Sys} {e : Ev}

/-- The check of `UCK_IOC_CREATE_REGION` is for a size that is not zero and a multiple of the page size. -/
theorem sized_iff (info : RegionInfo) : Sized info ↔ ¬ (info.size = 0 ∨ info.size &&& 0xfff ≠ 0) := by
  have hmask : info.size &&& 0xfff = 0 ↔ pageSize ∣ info.size.toNat := by
    rw [← UInt64.toNat_inj, UInt64.toNat_and, Nat.dvd_iff_mod_eq_zero]
    exact Iff.of_eq (congrArg (· = 0) (Nat.and_two_pow_sub_one_eq_mod info.size.toNat 12))
  rw [not_or, not_not, hmask]
  rfl

/-- What a call can do: nothing, put the region of an accepted request into the next slot, or empty the table. -/
inductive Calls (t : Table) : Ev → Option IoctlError × Table → Prop
  | refused {e : Ev} (err : IoctlError) : Calls t e (some err, t)
  | created {r : Request} (hroom : t.numRegions < uckMaxRegions) (hnew : t.uckFindRegion r.info.regionId = none)
      (hsized : Sized r.info) : Calls t (.createRegion r) (none, t.push r.region)
  | joined {r : Request} (hroom : t.numRegions < uckMaxRegions) (hnew : t.uckFindRegion r.info.regionId = none) :
      Calls t (.joinRegion r) (none, t.push r.region)
  | cleanup : Calls t .cleanup (none, t.uckCleanupRegions)

/-- The two ends of `uck_create_region`. -/
theorem uckCreateRegion_cases (t : Table) (r : Request) :
    (∃ err, t.uckCreateRegion r.cred r.info = (some err, t)) ∨
    t.numRegions < uckMaxRegions ∧ t.uckFindRegion r.info.regionId = none ∧
      t.uckCreateRegion r.cred r.info = (none, t.push r.region) := by
  unfold Table.uckCreateRegion
  split
  · exact .inl ⟨_, rfl⟩
  · rename_i hroom
    split
    · exact .inl ⟨_, rfl⟩
    · rename_i hnew
      exact .inr ⟨Nat.lt_of_not_le hroom, Option.not_isSome_iff_eq_none.1 hnew, rfl⟩

theorem calls (t : Table) (e : Ev) : Calls t e (call t e) := by
  cases e with
  | createRegion r =>
    unfold call
    dsimp only
    split
    · exact .refused _
    · split
      · exact .refused _
      · split
        · exact .refused _
        · rename_i hsize
          obtain ⟨err, h⟩ | ⟨hroom, hnew, h⟩ := uckCreateRegion_cases t r
          · rw [h]
            exact .refused err
          · rw [h]
            exact .created hroom hnew ((sized_iff _).2 hsize)
  | joinRegion r =>
    unfold call
    dsimp only
    split
    · exact .refused _
    · split
      · exact .refused _
      · obtain ⟨err, h⟩ | ⟨hroom, hnew, h⟩ := uckCreateRegion_cases t r
        · rw [h]
          exact .refused err
        · rw [h]
          exact .joined hroom hnew
  | cleanup => exact .cleanup

/-- When a region is joined. -/
theorem call_joinRegion_iff (t : Table) (r : Request) : (call t (.joinRegion r)).1 = none ↔
    r.admitted = true ∧ r.copied = true ∧ t.numRegions < uckMaxRegions ∧
      t.uckFindRegion r.info.regionId = none := by
  simp only [call, Table.uckCreateRegion]
  split
  next hadmitted => simp [hadmitted]
  next hadmitted =>
    split
    next hcopied => simp [hcopied]
    next hcopied =>
      split
      next hfull => simp [Nat.not_lt.2 hfull]
      next hroom =>
        split
        next hfound => simp [Option.isSome_iff_ne_none.1 hfound]
        next hnew => simp_all

theorem joinsSized_iff (s : Sys) (r : Request) :
    JoinsSized s (.joinRegion r) ↔ ((call s.table (.joinRegion r)).1 = none → Sized r.info) := by
  rw [call_joinRegion_iff]
  exact ⟨fun h ⟨hadmitted, hcopied, hroom, hnew⟩ => h hadmitted hcopied hroom hnew,
    fun h hadmitted hcopied hroom hnew => h ⟨hadmitted, hcopied, hroom, hnew⟩⟩

/-- **A refused request** leaves the table as it was. -/
theorem refusedKeeps (s : Sys) (e : Ev) : RefusedKeeps s e := by
  unfold RefusedKeeps
  have h := calls s.table e
  generalize call s.table e = c at h
  cases h with
  | refused err => exact fun _ => rfl
  | created => exact fun h => absurd rfl h
  | joined => exact fun h => absurd rfl h
  | cleanup => exact fun h => absurd rfl h

/-! ## The array -/

theorem push_regions_of_lt (r : Region) {i : Nat} (h : i < t.numRegions) : (t.push r).regions i = t.regions i :=
  Function.update_of_ne (Nat.ne_of_lt h) ..

theorem push_regions_self (t : Table) (r : Region) : (t.push r).regions t.numRegions = r := Function.update_self ..

theorem lt_of_uckFindRegion {id : UInt64} {i : Nat} (h : t.uckFindRegion id = some i) : i < t.numRegions :=
  List.mem_range.1 (List.mem_of_find?_eq_some h)

/-- The slot after the others is looked at last. -/
theorem uckFindRegion_push (t : Table) (r : Region) (id : UInt64) :
    (t.push r).uckFindRegion id = (t.uckFindRegion id).or
      (if (r.active && r.info.regionId == id) = true then some t.numRegions else none) := by
  have hold : (List.range t.numRegions).find? (fun i => ((t.push r).regions i).active &&
      ((t.push r).regions i).info.regionId == id) = t.uckFindRegion id := by
    rw [Table.uckFindRegion, ← List.head?_filter, ← List.head?_filter]
    congr 1
    apply List.filter_congr
    intro i hi
    rw [push_regions_of_lt r (List.mem_range.1 hi)]
  show (List.range (t.numRegions + 1)).find? _ = _
  rw [List.range_succ, List.find?_append, hold, List.find?_singleton, push_regions_self]

/-- The part of the array in use is the table of `Memory.Region`. -/
theorem inUse_push (t : Table) (r : Region) : (t.push r).inUse = t.inUse ++ [r] := by
  show (List.range (t.numRegions + 1)).map (t.push r).regions = _
  rw [List.range_succ, List.map_append, List.map_singleton, push_regions_self]
  congr 1
  apply List.map_congr_left
  intro i hi
  exact push_regions_of_lt r (List.mem_range.1 hi)

theorem isSome_uckFindRegion_inUse (t : Table) (id : UInt64) :
    (Memory.uckFindRegion t.inUse id).isSome = (t.uckFindRegion id).isSome := by
  unfold Memory.uckFindRegion Table.inUse Table.uckFindRegion
  rw [List.findIdx?_isSome, List.any_map, Bool.eq_iff_iff, List.any_eq_true, List.find?_isSome]
  rfl

/-- `uck_create_region` on the array is `uckCreateRegion` on its part in use. -/
theorem inUse_uckCreateRegion (t : Table) (r : Request) :
    Memory.uckCreateRegion t.inUse r.cred r.info = match t.uckCreateRegion r.cred r.info with
      | (none, t') => .ok t'.inUse
      | (some .enomem, _) => .error .enomem
      | (some _, _) => .error .eexist := by
  have hlength : t.inUse.length = t.numRegions := by
    rw [Table.inUse, List.length_map, List.length_range]
  unfold Memory.uckCreateRegion Table.uckCreateRegion
  rw [hlength, isSome_uckFindRegion_inUse]
  split
  · rfl
  · split
    · rfl
    · dsimp only
      rw [inUse_push]

/-! ## What every call keeps -/

/-- The table as it should be, sizes apart. -/
structure Kept (s : Sys) : Prop where
  count : s.table.numRegions ≤ uckMaxRegions
  active_iff : ∀ i, (s.table.regions i).active = true ↔ i < s.table.numRegions
  distinct : ∀ i j, i < s.table.numRegions → j < s.table.numRegions →
    (s.table.regions i).info.regionId = (s.table.regions j).info.regionId → i = j
  find : ∀ id, (s.table.uckFindRegion id).map s.table.regions = s.last id

/-- No slot has the identifier of a region that was not found. -/
theorem Kept.ne_of_uckFindRegion (h : Kept s) {id : UInt64} (hnew : s.table.uckFindRegion id = none) {i : Nat}
    (hi : i < s.table.numRegions) : (s.table.regions i).info.regionId ≠ id := by
  intro hid
  have hno := List.find?_eq_none.1 hnew i (List.mem_range.2 hi)
  rw [(h.active_iff i).2 hi, hid, Bool.true_and, beq_self_eq_true] at hno
  exact hno rfl

theorem Kept.push (h : Kept s) {r : Request} (hroom : s.table.numRegions < uckMaxRegions)
    (hnew : s.table.uckFindRegion r.info.regionId = none) :
    Kept ⟨s.table.push r.region, Function.update s.last r.info.regionId (some r.region)⟩ := by
  refine ⟨hroom, ?_, ?_, ?_⟩
  · intro i
    show ((s.table.push r.region).regions i).active = true ↔ i < s.table.numRegions + 1
    rcases Nat.lt_trichotomy i s.table.numRegions with hi | rfl | hi
    · rw [push_regions_of_lt _ hi, h.active_iff]
      omega
    · rw [push_regions_self]
      exact iff_of_true rfl (Nat.lt_succ_self _)
    · have hother : (s.table.push r.region).regions i = s.table.regions i := Function.update_of_ne (Nat.ne_of_gt hi) ..
      rw [hother, h.active_iff]
      omega
  · -- the new identifier is on no other slot
    intro i j hi hj hid
    replace hi : i < s.table.numRegions + 1 := hi
    replace hj : j < s.table.numRegions + 1 := hj
    dsimp only at hid
    rcases Nat.lt_succ_iff_lt_or_eq.1 hi with hi | rfl
    · rw [push_regions_of_lt _ hi] at hid
      rcases Nat.lt_succ_iff_lt_or_eq.1 hj with hj | rfl
      · rw [push_regions_of_lt _ hj] at hid
        exact h.distinct i j hi hj hid
      · rw [push_regions_self] at hid
        exact absurd hid (h.ne_of_uckFindRegion hnew hi)
    · rw [push_regions_self] at hid
      rcases Nat.lt_succ_iff_lt_or_eq.1 hj with hj | rfl
      · rw [push_regions_of_lt _ hj] at hid
        exact absurd hid.symm (h.ne_of_uckFindRegion hnew hj)
      · rfl
  · intro id
    dsimp only
    rw [uckFindRegion_push]
    by_cases hid : id = r.info.regionId
    · subst hid
      have hfound : (r.region.active && r.region.info.regionId == r.info.regionId) = true := by simp [Request.region]
      rw [hnew, if_pos hfound, Function.update_self]
      exact congrArg some (push_regions_self _ _)
    · have hnot : ¬ (r.region.active && r.region.info.regionId == id) = true := by
        simp [Request.region, Ne.symm hid]
      rw [if_neg hnot, Option.or_none, Function.update_of_ne hid, ← h.find id]
      cases hfind : s.table.uckFindRegion id with
      | none => rfl
      | some i => exact congrArg some (push_regions_of_lt _ (lt_of_uckFindRegion hfind))

theorem Kept.cleanup (h : Kept s) : Kept ⟨s.table.uckCleanupRegions, fun _ => none⟩ := by
  refine ⟨Nat.zero_le _, ?_, fun i j hi => absurd hi (Nat.not_lt_zero i), fun _ => rfl⟩
  intro i
  refine iff_of_false ?_ (Nat.not_lt_zero i)
  show ¬ (if i < s.table.numRegions then { s.table.regions i with active := false }
    else s.table.regions i).active = true
  split
  · exact Bool.false_ne_true
  · rename_i hi
    exact mt (h.active_iff i).1 hi

/-- Every active region has a size that could have been created. -/
def AllSized (s : Sys) : Prop := ∀ i, (s.table.regions i).active = true → Sized (s.table.regions i).info

theorem Kept.ok (h : Kept s) (hsized : AllSized s) : Ok s := by
  refine ⟨h.count, ?_, hsized, h.find⟩
  intro i j hi hj hid
  exact h.distinct i j ((h.active_iff i).1 hi) ((h.active_iff j).1 hj) hid

/-- A region that is put into the table keeps the sizes right exactly if its own is. -/
theorem allSized_push (hsized : AllSized s) (r : Request) (last : UInt64 → Option Region) :
    AllSized ⟨s.table.push r.region, last⟩ ↔ Sized r.info := by
  constructor
  · intro hall
    have hnew := hall s.table.numRegions
    dsimp only at hnew
    rw [push_regions_self] at hnew
    exact hnew rfl
  · intro hr i hi
    dsimp only at hi ⊢
    by_cases hnum : i = s.table.numRegions
    · subst hnum
      rw [push_regions_self]
      exact hr
    · have hother : (s.table.push r.region).regions i = s.table.regions i := Function.update_of_ne hnum ..
      rw [hother] at hi ⊢
      exact hsized i hi

/-- What a step does to the table, and to its sizes. -/
theorem kept_step (h : Kept s) (hsized : AllSized s) (hstep : step s e = some s') :
    Kept s' ∧ (AllSized s' ↔ JoinsSized s e) := by
  cases hstep
  have hcall := calls s.table e
  generalize hc : call s.table e = c at hcall
  cases hcall with
  | refused err =>
    have hlast : record s e = s.last := by
      cases e with
      | cleanup => cases hc
      | createRegion r => rw [record, hc, if_neg nofun]
      | joinRegion r => rw [record, hc, if_neg nofun]
    have hjoins : JoinsSized s e := by
      cases e with
      | joinRegion r =>
        exact (joinsSized_iff s r).2 fun haccepted => nomatch (congrArg Prod.fst hc).symm.trans haccepted
      | _ => trivial
    rw [hlast]
    exact ⟨h, iff_of_true hsized hjoins⟩
  | @created r hroom hnew hr =>
    rw [record, hc, if_pos rfl]
    exact ⟨h.push hroom hnew, iff_of_true ((allSized_push hsized r _).2 hr) trivial⟩
  | @joined r hroom hnew =>
    rw [record, hc, if_pos rfl]
    refine ⟨h.push hroom hnew, (allSized_push hsized r _).trans ?_⟩
    rw [joinsSized_iff]
    exact ⟨fun hr _ => hr, fun hr => hr (congrArg Prod.fst hc)⟩
  | cleanup =>
    refine ⟨h.cleanup, iff_of_true ?_ trivial⟩
    intro i hi
    exact absurd ((h.cleanup.active_iff i).1 hi) (Nat.not_lt_zero i)

theorem kept_init : Kept {} := by
  refine ⟨by decide, ?_, fun i j hi => absurd hi (Nat.not_lt_zero i), fun _ => rfl⟩
  intro i
  exact iff_of_false Bool.false_ne_true (Nat.not_lt_zero i)

/-- **The region table is as it should be along a run**, and refused requests leave it as it was, exactly if every
region that is joined has a size that is not zero and a multiple of the page size. -/
theorem region_table_iff (es : List Ev) :
    Always step Ok {} es ∧ EachStep step RefusedKeeps {} es ↔ EachStep step JoinsSized {} es := by
  have hrefused : EachStep step RefusedKeeps {} es := EachStep.of_forall fun s e _ => refusedKeeps s e
  rw [and_iff_left hrefused]
  apply always_iff_of_inv (fun s => Kept s ∧ AllSized s)
  · intro s hs
    exact hs.1.ok hs.2
  · intro s e s' hs _ hstep
    obtain ⟨hkept, hiff⟩ := kept_step hs.1 hs.2 hstep
    exact ⟨fun hjoin => ⟨hkept, hiff.2 hjoin⟩, fun hok => hiff.1 hok.sized⟩
  · intro s e hnone
    cases hnone
  · exact ⟨kept_init, fun i hi => absurd ((kept_init.active_iff i).1 hi) (Nat.not_lt_zero i)⟩
  · exact EachStep.of_forall fun _ _ _ => trivial

/-- A region of 100 bytes is joined. -/
theorem join_of_100_bytes :
    ∃ s, step {} (.joinRegion { cred := ⟨0, 0⟩, info := ⟨7, 100, 2⟩ }) = some s ∧
      (s.table.regions 0).active = true ∧ (s.table.regions 0).info.size = 100 ∧ ¬ Ok s := by
  refine ⟨_, rfl, rfl, rfl, ?_⟩
  intro hok
  exact absurd (hok.sized 0 rfl).2 (by decide)

end UckSmp.Memory.RegionTable
