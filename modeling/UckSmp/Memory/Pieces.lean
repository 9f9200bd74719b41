import UckSmp.Lib.Transition
import UckSmp.Memory.Cache
import UckSmp.Memory.Region

/-!
# Pieces of a mapping

The kernel splits and trims the mapping of a region when a part of it is unmapped or gets other permissions. A piece
that begins later has `vm_start` and `vm_pgoff` advanced by as many pages and the same `vm_private_data`. The handlers
take the index of a page from `vm_start` alone.

* `IsPiece`: what holds of every piece, after any sequence of such calls (`run_isPiece`).
* `index_add`: the index of a page in the original mapping, from `vm_pgoff` and the piece.
* `pages_kept_iff`: when the addresses keep their pages; `unmapped_head_shifts` is a mapping whose addresses do not.
-/

namespace UckSmp.Memory.Pieces

open Lib.Transition

/-! ## Model -/

/-- What a fault reads of a `struct vm_area_struct`: it begins and ends at a page of a 64-bit address space. The region
in `vm_private_data` is known by its slot. -/
structure VmArea where
  firstPage : Nat
  endPage : Nat
  vmPgoff : UInt64
  region : Nat
  nonempty : firstPage < endPage
  bounded : endPage < 2 ^ 52
  deriving DecidableEq

namespace VmArea

variable (v : VmArea)

def vmStart : Nat := v.firstPage * pageSize

def vmEnd : Nat := v.endPage * pageSize

def Maps (address : Nat) : Prop := v.vmStart ≤ address ∧ address < v.vmEnd

/-- `page_index`, as `uck_fault` and `uck_page_mkwrite` compute it. -/
def pageIndex (address : Nat) : Nat := (address - v.vmStart) / pageSize

/-- The page that `uck_fault` looks up, or `none` for `VM_FAULT_SIGBUS`. -/
def uckFault (regions : List Region) (address : Nat) : Option Key :=
  regions[v.region]?.bind fun r =>
    if r.info.size.toNat ≤ address - v.vmStart then none else some (v.region, v.pageIndex address)

/-- The page that `uck_page_mkwrite` looks up. -/
def uckPageMkwrite (address : Nat) : Key := (v.region, v.pageIndex address)

/-- What is left of an area before page `p`. -/
def before (p : Nat) : Option VmArea :=
  if h : v.firstPage < min v.endPage p then
    some { v with
      endPage := min v.endPage p
      nonempty := h
      bounded := Nat.lt_of_le_of_lt (Nat.min_le_left _ _) v.bounded }
  else none

/-- What is left of an area from page `p` on. -/
def onwards (p : Nat) : Option VmArea :=
  if h : max v.firstPage p < v.endPage then
    some { v with
      firstPage := max v.firstPage p
      vmPgoff := v.vmPgoff + UInt64.ofNat (max v.firstPage p - v.firstPage)
      nonempty := h }
  else none

end VmArea

/-- A call for the pages from `p` up to `q`. -/
inductive Ev
  | munmap (p q : Nat)
  | mprotect (p q : Nat)
  deriving DecidableEq, Repr

/-- What a call leaves of an area: the parts before and after the range, and with `mprotect` the range itself. -/
def cut (v : VmArea) : Ev → List VmArea
  | .munmap p q => (v.before p).toList ++ (v.onwards q).toList
  | .mprotect p q => (v.before p).toList ++ ((v.onwards p).bind (·.before q)).toList ++ (v.onwards q).toList

def Ev.Proper : Ev → Prop
  | .munmap p q => p < q
  | .mprotect p q => p < q

instance (e : Ev) : Decidable e.Proper :=
  match e with
  | .munmap p q => inferInstanceAs (Decidable (p < q))
  | .mprotect p q => inferInstanceAs (Decidable (p < q))

/-- One call; an empty range is refused. -/
def step (vs : List VmArea) (e : Ev) : Option (List VmArea) := if e.Proper then some (vs.flatMap (cut · e)) else none

/-! ## Pieces -/

/-- A piece of a mapping. -/
structure IsPiece (v₀ v : VmArea) : Prop where
  firstPage : v₀.firstPage ≤ v.firstPage
  endPage : v.endPage ≤ v₀.endPage
  region : v.region = v₀.region
  vmPgoff : v.vmPgoff = v₀.vmPgoff + UInt64.ofNat (v.firstPage - v₀.firstPage)

variable {v₀ v w : VmArea}

theorem IsPiece.refl (v : VmArea) : IsPiece v v :=
  ⟨Nat.le_refl _, Nat.le_refl _, rfl, by rw [Nat.sub_self]; exact (UInt64.add_zero _).symm⟩

theorem IsPiece.trans (h : IsPiece v₀ v) (hw : IsPiece v w) : IsPiece v₀ w := by
  refine ⟨Nat.le_trans h.firstPage hw.firstPage, Nat.le_trans hw.endPage h.endPage, hw.region.trans h.region, ?_⟩
  have hsum : w.firstPage - v₀.firstPage = (v.firstPage - v₀.firstPage) + (w.firstPage - v.firstPage) := by
    have := h.firstPage
    have := hw.firstPage
    omega
  rw [hw.vmPgoff, h.vmPgoff, hsum, UInt64.ofNat_add, UInt64.add_assoc]

theorem isPiece_before {p : Nat} (h : v.before p = some w) : IsPiece v w := by
  unfold VmArea.before at h
  split at h
  · cases h
    refine ⟨Nat.le_refl _, Nat.min_le_left _ _, rfl, ?_⟩
    rw [Nat.sub_self]
    exact (UInt64.add_zero _).symm
  · cases h

theorem isPiece_onwards {p : Nat} (h : v.onwards p = some w) : IsPiece v w := by
  unfold VmArea.onwards at h
  split at h
  · cases h
    exact ⟨Nat.le_max_left _ _, Nat.le_refl _, rfl, rfl⟩
  · cases h

/-- A call leaves pieces. -/
theorem isPiece_cut {e : Ev} (h : w ∈ cut v e) : IsPiece v w := by
  cases e with
  | munmap p q =>
    rcases List.mem_append.1 h with h | h
    · exact isPiece_before (Option.mem_toList.1 h)
    · exact isPiece_onwards (Option.mem_toList.1 h)
  | mprotect p q =>
    rcases List.mem_append.1 h with h | h
    · rcases List.mem_append.1 h with h | h
      · exact isPiece_before (Option.mem_toList.1 h)
      · obtain ⟨u, hu, hw⟩ := Option.bind_eq_some_iff.1 (Option.mem_toList.1 h)
        exact (isPiece_onwards hu).trans (isPiece_before hw)
    · exact isPiece_onwards (Option.mem_toList.1 h)

/-- **All that is left of a mapping** after any sequence of calls are pieces of it. -/
theorem run_isPiece {es : List Ev} {vs : List VmArea} (h : run step [v₀] es = some vs) : ∀ v ∈ vs, IsPiece v₀ v := by
  apply run_inv (fun vs => ∀ v ∈ vs, IsPiece v₀ v) ?_ ?_ h
  · intro vs e vs' hvs hstep w hw
    unfold step at hstep
    split at hstep
    · cases hstep
      obtain ⟨v, hv, hw⟩ := List.mem_flatMap.1 hw
      exact (hvs v hv).trans (isPiece_cut hw)
    · cases hstep
  · intro v hv
    rw [List.mem_singleton.1 hv]
    exact IsPiece.refl v₀

/-! ## Indices -/

/-- The pages that a piece has lost at its beginning are missing in the index. -/
theorem IsPiece.index_eq (h : IsPiece v₀ v) {address : Nat} (ha : v.Maps address) :
    v₀.pageIndex address = v.pageIndex address + (v.firstPage - v₀.firstPage) := by
  have hfirst := h.firstPage
  have hstart : v.firstPage * pageSize = v₀.firstPage * pageSize + (v.firstPage - v₀.firstPage) * pageSize := by
    rw [← Nat.add_mul, Nat.add_sub_cancel' hfirst]
  have hle : v.firstPage * pageSize ≤ address := ha.1
  unfold VmArea.pageIndex VmArea.vmStart
  have hsub : address - v₀.firstPage * pageSize =
      (address - v.firstPage * pageSize) + (v.firstPage - v₀.firstPage) * pageSize := by
    omega
  rw [hsub, Nat.add_mul_div_right _ _ (by decide)]

/-- `vm_pgoff` says how many pages those are. -/
theorem IsPiece.index_add (h : IsPiece v₀ v) {address : Nat} (ha : v.Maps address) :
    v₀.pageIndex address = v.pageIndex address + (v.vmPgoff - v₀.vmPgoff).toNat := by
  have hlt : v.firstPage - v₀.firstPage < 2 ^ 64 := by
    have := v.nonempty
    have := v.bounded
    omega
  rw [h.index_eq ha, h.vmPgoff, UInt64.add_comm, UInt64.add_sub_cancel, UInt64.toNat_ofNat', Nat.mod_eq_of_lt hlt]

theorem IsPiece.pageIndex_eq_iff (h : IsPiece v₀ v) {address : Nat} (ha : v.Maps address) :
    v.pageIndex address = v₀.pageIndex address ↔ v.vmStart = v₀.vmStart := by
  have hfirst := h.firstPage
  have hinj : v.vmStart = v₀.vmStart ↔ v.firstPage = v₀.firstPage := Nat.mul_left_inj (by decide)
  rw [h.index_eq ha, hinj]
  omega

/-- `uck_mmap` accepts a mapping that is not larger than its region. -/
theorem le_of_uckMmap {regions : List Region} {pgoff size : UInt64} {slot : Nat}
    (h : uckMmap regions pgoff size = some slot) : ∃ r, regions[slot]? = some r ∧ size ≤ r.info.size := by
  obtain ⟨-, hsize⟩ := Option.filter_eq_some_iff.1 h
  cases hr : regions[slot]? with
  | none =>
    rw [hr] at hsize
    cases hsize
  | some r =>
    rw [hr] at hsize
    exact ⟨r, rfl, of_decide_eq_true hsize⟩

/-- A fault on a piece of a mapping is within the region. -/
theorem uckFault_eq {regions : List Region} (h : IsPiece v₀ v)
    (hmap : uckMmap regions v₀.vmPgoff (UInt64.ofNat (v₀.vmEnd - v₀.vmStart)) = some v₀.region) {address : Nat}
    (ha : v.Maps address) : v.uckFault regions address = some (v.region, v.pageIndex address) := by
  obtain ⟨r, hr, hsize⟩ := le_of_uckMmap hmap
  have hbounded : v₀.vmEnd < 2 ^ 64 := Nat.mul_lt_mul_of_pos_right v₀.bounded (by decide)
  have hstart : v₀.vmStart ≤ v.vmStart := Nat.mul_le_mul_right _ h.firstPage
  have hend : v.vmEnd ≤ v₀.vmEnd := Nat.mul_le_mul_right _ h.endPage
  rw [UInt64.le_iff_toNat_le, UInt64.toNat_ofNat', Nat.mod_eq_of_lt (by omega)] at hsize
  have hlt : ¬ r.info.size.toNat ≤ address - v.vmStart := by
    have := ha.1
    have := ha.2
    omega
  rw [VmArea.uckFault, h.region, hr, Option.bind_some, if_neg hlt]

/-- **The addresses of a mapping keep their pages** exactly while all that is left of it begins where it began. -/
theorem pages_kept_iff {regions : List Region} {v₀ : VmArea}
    (hmap : uckMmap regions v₀.vmPgoff (UInt64.ofNat (v₀.vmEnd - v₀.vmStart)) = some v₀.region) {es : List Ev}
    {vs : List VmArea} (hrun : run step [v₀] es = some vs) :
    (∀ v ∈ vs, ∀ address, v.Maps address → v.uckFault regions address = v₀.uckFault regions address ∧
      v.uckPageMkwrite address = v₀.uckPageMkwrite address) ↔
    ∀ v ∈ vs, v.vmStart = v₀.vmStart := by
  have hpiece := run_isPiece hrun
  constructor
  · intro h v hv
    -- every piece has an address: the one that it begins at
    have hmaps : v.Maps v.vmStart := ⟨Nat.le_refl _, Nat.mul_lt_mul_of_pos_right v.nonempty (by decide)⟩
    have hindex := congrArg Prod.snd (h v hv v.vmStart hmaps).2
    exact ((hpiece v hv).pageIndex_eq_iff hmaps).1 hindex
  · intro h v hv address ha
    have hv₀ : v₀.Maps address := by
      have hend : v.vmEnd ≤ v₀.vmEnd := Nat.mul_le_mul_right _ (hpiece v hv).endPage
      have hstart := h v hv
      have := ha.1
      have := ha.2
      exact ⟨by omega, by omega⟩
    have hindex := ((hpiece v hv).pageIndex_eq_iff ha).2 (h v hv)
    rw [uckFault_eq (hpiece v hv) hmap ha, uckFault_eq (IsPiece.refl v₀) hmap hv₀, VmArea.uckPageMkwrite,
      VmArea.uckPageMkwrite, hindex, (hpiece v hv).region]
    exact ⟨rfl, rfl⟩

/-- A region of four pages. -/
def fourPages : List Region := [{ info := ⟨7, 0x4000, 1⟩, acl := ⟨0, 0, 0o600⟩ }]

def mappedAt16 : VmArea := ⟨16, 20, 7, 0, by decide, by decide⟩

/-- Without its last page, the rest of the mapping is as it was. -/
theorem unmapped_tail_keeps :
    ∃ vs, run step [mappedAt16] [.munmap 19 20] = some vs ∧ ∀ v ∈ vs, ∀ address, v.Maps address →
      v.uckPageMkwrite address = mappedAt16.uckPageMkwrite address := by
  have hrun : run step [mappedAt16] [.munmap 19 20] = some [⟨16, 19, 7, 0, by decide, by decide⟩] := by decide +kernel
  have hkept := (@pages_kept_iff fourPages mappedAt16 (by decide +kernel) _ _ hrun).2 (by decide)
  exact ⟨_, hrun, fun v hv address ha => (hkept v hv address ha).2⟩

/-- Without its first page, the address of page 1 leads to page 0. -/
theorem unmapped_head_shifts :
    ∃ v, run step [mappedAt16] [.munmap 16 17] = some [v] ∧ v.Maps (17 * pageSize) ∧
      mappedAt16.uckFault fourPages (17 * pageSize) = some (0, 1) ∧
      v.uckFault fourPages (17 * pageSize) = some (0, 0) := by
  refine ⟨⟨17, 20, 8, 0, by decide, by decide⟩, ?_, ⟨?_, ?_⟩, ?_, ?_⟩ <;> decide +kernel

end UckSmp.Memory.Pieces
