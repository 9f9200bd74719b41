import UckSmp.Defs
import UckSmp.Exec.Jobs

/-!
# The region table

`uck_region.c` without the page trees, and `uck_mmap`. The table is the part of the array that is in use; a region is
known by its slot, as `vm_private_data` points to it.

* `prefix_of_uckCreateRegion`: a slot keeps its region.
* `uckRegionCheckAccess_created_iff`: who has access to a region that nobody gave another access list.
-/

namespace UckSmp.Memory

open UckSmp.Exec (Cred)

/-- `UCK_MAX_REGIONS`. -/
def uckMaxRegions : Nat := 64

/-- `struct uck_region_info`. -/
structure RegionInfo where
  regionId : UInt64
  size : UInt64
  ownerNode : UInt32
  deriving DecidableEq, Repr

/-- `struct uck_region_acl`, without the identifier of the region, which is that of its descriptor. -/
structure RegionAcl where
  ownerUid : UInt32
  ownerGid : UInt32
  mode : UInt32
  deriving DecidableEq, Repr

/-- `struct uck_region`, without its page tree and its lock. -/
structure Region where
  info : RegionInfo
  acl : RegionAcl
  active : Bool := true
  deriving DecidableEq, Repr

/-- The error codes of the region calls. -/
inductive RegionError
  | enomem
  | eexist
  | einval
  deriving DecidableEq, Repr

/-- `uck_find_region`. -/
def uckFindRegion (regions : List Region) (regionId : UInt64) : Option Nat :=
  regions.findIdx? fun r => r.active && r.info.regionId == regionId

/-- `uck_create_region`, called by a process with the given credentials. -/
def uckCreateRegion (regions : List Region) (p : Cred) (info : RegionInfo) : Except RegionError (List Region) :=
  if uckMaxRegions ≤ regions.length then .error .enomem
  else if (uckFindRegion regions info.regionId).isSome then .error .eexist
  else .ok (regions ++ [{ info, acl := ⟨p.uid, p.gid, 0o600⟩ }])

/-- `uck_join_region`. -/
def uckJoinRegion (regions : List Region) (p : Cred) (info : RegionInfo) : Except RegionError (List Region) :=
  uckCreateRegion regions p info

/-- `UCK_IOC_CREATE_REGION`, which looks at the size first. -/
def iocCreateRegion (regions : List Region) (p : Cred) (info : RegionInfo) : Except RegionError (List Region) :=
  if info.size = 0 ∨ info.size &&& 0xfff ≠ 0 then .error .einval else uckCreateRegion regions p info

/-- `uck_region_check_access`, with the credentials of the current process. -/
def uckRegionCheckAccess (region : Region) (p : Cred) (write : Bool) : Bool :=
  let mode := region.acl.mode
  if p.uid = 0 then true
  else if p.uid = region.acl.ownerUid then if write then mode &&& 0o200 ≠ 0 else mode &&& 0o400 ≠ 0
  else if p.gid = region.acl.ownerGid then if write then mode &&& 0o020 ≠ 0 else mode &&& 0o040 ≠ 0
  else if write then mode &&& 0o002 ≠ 0 else mode &&& 0o004 ≠ 0

/-- `uck_mmap` of `size` bytes: the slot of the region that is mapped, or `none` for `-EINVAL`. -/
def uckMmap (regions : List Region) (pgoff size : UInt64) : Option Nat :=
  (uckFindRegion regions pgoff).filter fun i => regions[i]?.any fun r => size ≤ r.info.size

/-- The slot that is found holds a region. -/
theorem exists_of_uckFindRegion {regions : List Region} {regionId : UInt64} {slot : Nat}
    (h : uckFindRegion regions regionId = some slot) : ∃ r, regions[slot]? = some r := by
  obtain ⟨hlt, -⟩ := List.findIdx?_eq_some_iff_getElem.1 h
  exact ⟨_, List.getElem?_eq_getElem hlt⟩

/-- A region is created behind the others. -/
theorem prefix_of_uckCreateRegion {regions regions' : List Region} {p : Cred} {info : RegionInfo}
    (h : uckCreateRegion regions p info = .ok regions') : regions <+: regions' := by
  unfold uckCreateRegion at h
  split at h
  · cases h
  · split at h
    · cases h
    · cases h
      exact List.prefix_append _ _

theorem prefix_of_iocCreateRegion {regions regions' : List Region} {p : Cred} {info : RegionInfo}
    (h : iocCreateRegion regions p info = .ok regions') : regions <+: regions' := by
  unfold iocCreateRegion at h
  split at h
  · cases h
  · exact prefix_of_uckCreateRegion h

/-- Only root and its owner have access to a region as it was created. -/
theorem uckRegionCheckAccess_created_iff (info : RegionInfo) (p q : Cred) (write : Bool) :
    uckRegionCheckAccess { info, acl := ⟨p.uid, p.gid, 0o600⟩ } q write = true ↔ q.uid = 0 ∨ q.uid = p.uid := by
  simp only [uckRegionCheckAccess]
  by_cases h0 : q.uid = 0
  · rw [if_pos h0]
    exact iff_of_true rfl (.inl h0)
  · rw [if_neg h0]
    by_cases howner : q.uid = p.uid
    · rw [if_pos howner]
      refine iff_of_true ?_ (.inr howner)
      cases write <;> simp only [Bool.false_eq_true, if_false, if_true, decide_eq_true_eq] <;> decide
    · rw [if_neg howner]
      refine iff_of_false ?_ (not_or.2 ⟨h0, howner⟩)
      split <;> cases write <;> simp only [Bool.false_eq_true, if_false, if_true, decide_eq_true_eq] <;> decide

end UckSmp.Memory
