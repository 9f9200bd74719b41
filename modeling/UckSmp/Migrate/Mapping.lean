import UckSmp.Migrate.Capture

/-!
# The memory that restored pages are copied to

The source sends the pages of every mapping without a file. The restore stub maps what it finds marked as anonymous,
with the protection that the process had, and then copies the pages; an `mmap` that fails is reported and forgotten.
The space of the stub is kept as the list of mappings that it made, the last one first, for it hides the others where
they overlap. Which calls of `mmap` succeed is given by `ok`.

* `lands_iff`: the pages that the stub can copy.
* `landed_iff`: when it can copy all pages of a process.
* `page_outside_mapping`: processes with pages that it cannot.
-/

namespace UckSmp.Migrate

open Lib

/-! ## The source -/

/-- The addresses that `uck_send_process` visits in a mapping. -/
def VmArea.pageAddrs (vma : VmArea) : List UInt64 :=
  (List.range ((vma.end.toNat - vma.start.toNat + (pageSize - 1)) / pageSize)).map fun k =>
    vma.start + UInt64.ofNat (k * pageSize)

/-- The pages that `uck_send_process` sends; `fetch` is the page at an address, if the source can get and copy it. -/
def sentPages (areas : List VmArea) (fetch : UInt64 → Option Page) : List (UInt64 × Page) :=
  areas.flatMap fun vma =>
    if vma.file.isSome then [] else vma.pageAddrs.filterMap fun addr => (fetch addr).map fun page => (addr, page)

/-- A process that does not change while it is captured and sent. Its mappings lie one after the other, on page
boundaries. -/
structure Process where
  srcNode : UInt32
  pid : UInt32
  regs : Regs
  areas : List VmArea
  fds : List FdDesc
  threads : List ThreadState
  threads_ne : threads ≠ []
  fetch : UInt64 → Option Page
  aligned : ∀ vma ∈ areas, pageSize ∣ vma.start.toNat ∧ pageSize ∣ vma.end.toNat
  nonempty : ∀ vma ∈ areas, vma.start < vma.end
  disjoint : areas.Pairwise fun vma vma' => vma.end ≤ vma'.start

def Process.snapshot (p : Process) : Snapshot :=
  ⟨p.srcNode, p.pid, p.regs, p.areas.map VmArea.desc, p.fds, p.threads, p.threads_ne, sentPages p.areas p.fetch⟩

/-! ## The stub -/

/-- An address of the mapping. -/
def Mmap.Covers (m : Mmap) (a : Nat) : Prop := m.start.toNat ≤ a ∧ a < m.start.toNat + m.len.toNat

instance (m : Mmap) (a : Nat) : Decidable (m.Covers a) := inferInstanceAs (Decidable (_ ∧ _))

/-- The mappings that the stub has made, the last one first. -/
abbrev Space := List Mmap

/-- The loop over the descriptors, from number `i` on. -/
def mapLoop (ok : Nat → Bool) : Nat → List VmaDesc → Space → Space
  | _, [], space => space
  | i, v :: vs, space =>
    match v.mmapArgs with
    | none => mapLoop ok (i + 1) vs space
    | some m => mapLoop ok (i + 1) vs (if ok i then m :: space else space)

/-- The mapping that an address belongs to. -/
def Space.at (space : Space) (a : Nat) : Option Mmap := space.find? fun m => m.Covers a

/-! ## Statement -/

/-- The whole page at the address lies in a mapping that can be written. -/
def Space.Lands (space : Space) (addr : UInt64) : Prop :=
  ∃ m : Mmap, m.protWrite = true ∧ ∀ a, addr.toNat ≤ a → a < addr.toNat + pageSize → space.at a = some m

/-- Every page that the stub copies does. -/
def Restored.Landed (ok : Nat → Bool) (r : Restored) : Prop :=
  ∀ x ∈ r.pages, (mapLoop ok 0 r.vmas []).Lands x.1

/-- A mapping that the stub makes anew and can write: it has no file, lies below the cut-off and is writable, and the
`mmap` succeeds. -/
structure VmArea.Remade (vma : VmArea) (ok : Nat → Bool) (i : Nat) : Prop where
  anon : vma.file = none
  low : vma.start < 0x7ffffffffffff000
  write : vma.flags &&& 2 ≠ 0
  mapped : ok i = true

/-- The page at the address lies in such a mapping. -/
def Process.Holds (p : Process) (ok : Nat → Bool) (addr : UInt64) : Prop :=
  ∃ (i : Nat) (vma : VmArea), p.areas[i]? = some vma ∧ vma.Remade ok i ∧
    vma.start.toNat ≤ addr.toNat ∧ addr.toNat + pageSize ≤ vma.end.toNat

/-- The address to which the stub copies what it takes for page `i`, when the file has the first `k` pages: eight bytes
from the thread states, the page count and the pages, which it reads as page records from the fifth byte on. -/
def Process.copyAddr (p : Process) (k i : Nat) : UInt64 :=
  Codec.u64.dec ((ThreadState.codec.encAll p.threads ++ leBytes k 4 ++
    pageRecord.encAll ((sentPages p.areas p.fetch).take k)).drop (4 + i * pageRecord.size))

/-- How many pages it copies: the first thread's number, or as many as the file has room for. -/
def Process.copies (p : Process) (k : Nat) : Nat :=
  min (loopBound (p.threads.head p.threads_ne).tid) (168 * p.threads.length / 4104 + k)

/-! ## The mappings of the stub -/

theorem mem_mapLoop {ok : Nat → Bool} {i : Nat} {vs : List VmaDesc} {space : Space} {m : Mmap} :
    m ∈ mapLoop ok i vs space ↔
      m ∈ space ∨ ∃ j v, vs[j]? = some v ∧ v.mmapArgs = some m ∧ ok (i + j) = true := by
  induction vs generalizing i space with
  | nil => simp [mapLoop]
  | cons v vs ih =>
    have hshift : (∃ j w, (v :: vs)[j]? = some w ∧ w.mmapArgs = some m ∧ ok (i + j) = true) ↔
        (v.mmapArgs = some m ∧ ok i = true) ∨
          ∃ j w, vs[j]? = some w ∧ w.mmapArgs = some m ∧ ok (i + 1 + j) = true := by
      constructor
      · rintro ⟨j, w, hw, hm, hok⟩
        cases j with
        | zero => exact .inl ⟨Option.some.inj hw ▸ hm, hok⟩
        | succ j => exact .inr ⟨j, w, hw, hm, by rwa [Nat.add_right_comm]⟩
      · rintro (⟨hm, hok⟩ | ⟨j, w, hw, hm, hok⟩)
        · exact ⟨0, v, rfl, hm, hok⟩
        · exact ⟨j + 1, w, hw, hm, by rwa [Nat.add_right_comm] at hok⟩
    rw [mapLoop, hshift]
    cases hv : v.mmapArgs with
    | none => simp [ih]
    | some n =>
      simp only [ih, Option.some.injEq]
      cases ok i with
      | false => simp
      | true =>
        rw [if_pos rfl, List.mem_cons, eq_comm, or_assoc, or_left_comm, and_iff_left rfl]

theorem Space.covers_of_at {space : Space} {a : Nat} {m : Mmap} (h : space.at a = some m) :
    m ∈ space ∧ m.Covers a :=
  ⟨List.mem_of_find?_eq_some h, of_decide_eq_true (List.find?_some (p := fun n : Mmap => n.Covers a) h)⟩

/-- If only one of the mappings covers an address, it belongs to that one. -/
theorem Space.at_eq {space : Space} {a : Nat} {m : Mmap} (hm : m ∈ space) (hc : m.Covers a)
    (huniq : ∀ n ∈ space, n.Covers a → n = m) : space.at a = some m := by
  cases hf : space.at a with
  | none => exact absurd hc (by simpa using List.find?_eq_none.1 hf m hm)
  | some n =>
    obtain ⟨hn, hcn⟩ := Space.covers_of_at hf
    rw [huniq n hn hcn]

/-- The mapping that the stub makes of one without a file. -/
def VmArea.remake (vma : VmArea) : Mmap :=
  ⟨vma.start, vma.end - vma.start, vma.flags &&& 1 ≠ 0, vma.flags &&& 2 ≠ 0, vma.flags &&& 4 ≠ 0⟩

theorem toNat_len {vma : VmArea} (hne : vma.start < vma.end) :
    (vma.end - vma.start).toNat = vma.end.toNat - vma.start.toNat :=
  UInt64.toNat_sub_of_le _ _ (UInt64.le_of_lt hne)

theorem mmapArgs_desc {vma : VmArea} (hne : vma.start < vma.end) (m : Mmap) : vma.desc.mmapArgs = some m ↔
    vma.file = none ∧ vma.start < 0x7ffffffffffff000 ∧ vma.remake = m := by
  have hlen : vma.end - vma.start ≠ 0 := fun h => by
    have hnat := toNat_len hne
    have hlt := UInt64.lt_iff_toNat_lt.1 hne
    rw [h, UInt64.toNat_zero] at hnat
    omega
  have hdesc : vma.desc.mmapArgs = if vma.desc.isAnon = 0 then none else if vma.end - vma.start = 0 then none
      else if 0x7ffffffffffff000 ≤ vma.start then none else some vma.remake := rfl
  have hanon : vma.desc.isAnon = if vma.file.isSome then 0 else 1 := rfl
  rw [hdesc, hanon, if_neg hlen]
  cases hf : vma.file with
  | some f => simp
  | none => simp

theorem covers_remake {vma : VmArea} (hne : vma.start < vma.end) (a : Nat) :
    vma.remake.Covers a ↔ vma.start.toNat ≤ a ∧ a < vma.end.toNat := by
  have hlt := UInt64.lt_iff_toNat_lt.1 hne
  show vma.start.toNat ≤ a ∧ a < vma.start.toNat + (vma.end - vma.start).toNat ↔ _
  rw [toNat_len hne]
  omega

namespace Process

variable {p : Process} {ok : Nat → Bool}

theorem nonempty_of_getElem? {i : Nat} {vma : VmArea} (h : p.areas[i]? = some vma) : vma.start < vma.end :=
  p.nonempty vma (List.mem_of_getElem? h)

/-- No address lies in two mappings of a process. -/
theorem eq_of_mem {i j : Nat} {v w : VmArea} {a : Nat} (hi : p.areas[i]? = some v) (hj : p.areas[j]? = some w)
    (hv : v.start.toNat ≤ a ∧ a < v.end.toNat) (hw : w.start.toNat ≤ a ∧ a < w.end.toNat) : i = j := by
  obtain ⟨hil, rfl⟩ := List.getElem?_eq_some_iff.1 hi
  obtain ⟨hjl, rfl⟩ := List.getElem?_eq_some_iff.1 hj
  have hpair := List.pairwise_iff_getElem.1 p.disjoint
  obtain h | h | h := Nat.lt_trichotomy i j
  · have hle := UInt64.le_iff_toNat_le.1 (hpair i j hil hjl h)
    omega
  · exact h
  · have hle := UInt64.le_iff_toNat_le.1 (hpair j i hjl hil h)
    omega

/-- The mappings that the stub makes of the descriptors of a process. -/
theorem mem_space {m : Mmap} : m ∈ mapLoop ok 0 (p.areas.map VmArea.desc) [] ↔
    ∃ (i : Nat) (vma : VmArea), p.areas[i]? = some vma ∧ vma.file = none ∧ vma.start < 0x7ffffffffffff000 ∧
      ok i = true ∧ vma.remake = m := by
  simp only [mem_mapLoop, List.not_mem_nil, false_or, List.getElem?_map, Option.map_eq_some_iff, Nat.zero_add]
  constructor
  · rintro ⟨i, _, ⟨vma, hvma, rfl⟩, hargs, hok⟩
    obtain ⟨hanon, hlow, hm⟩ := (mmapArgs_desc (nonempty_of_getElem? hvma) m).1 hargs
    exact ⟨i, vma, hvma, hanon, hlow, hok, hm⟩
  · rintro ⟨i, vma, hvma, hanon, hlow, hok, hm⟩
    exact ⟨i, _, ⟨vma, hvma, rfl⟩, (mmapArgs_desc (nonempty_of_getElem? hvma) m).2 ⟨hanon, hlow, hm⟩, hok⟩

/-- **The pages that the stub can copy** are those that lie in a mapping which it could remake, writable. -/
theorem lands_iff (addr : UInt64) : (mapLoop ok 0 (p.areas.map VmArea.desc) []).Lands addr ↔ p.Holds ok addr := by
  have hpage : pageSize = 4096 := rfl
  constructor
  · rintro ⟨m, hwrite, hat⟩
    obtain ⟨hm, hfirst⟩ := Space.covers_of_at (hat addr.toNat (Nat.le_refl _) (by omega))
    obtain ⟨-, hlast⟩ := Space.covers_of_at (hat (addr.toNat + (pageSize - 1)) (by omega) (by omega))
    obtain ⟨i, vma, hvma, hanon, hlow, hok, rfl⟩ := mem_space.1 hm
    rw [covers_remake (nonempty_of_getElem? hvma)] at hfirst hlast
    exact ⟨i, vma, hvma, ⟨hanon, hlow, of_decide_eq_true hwrite, hok⟩, hfirst.1, by omega⟩
  · rintro ⟨i, vma, hvma, ⟨hanon, hlow, hwrite, hok⟩, hstart, hend⟩
    refine ⟨vma.remake, decide_eq_true hwrite, fun a hlo hhi => ?_⟩
    have hin : vma.start.toNat ≤ a ∧ a < vma.end.toNat := ⟨by omega, by omega⟩
    refine Space.at_eq (mem_space.2 ⟨i, vma, hvma, hanon, hlow, hok, rfl⟩)
      ((covers_remake (nonempty_of_getElem? hvma) a).2 hin) fun n hn hc => ?_
    obtain ⟨j, w, hw, -, -, -, rfl⟩ := mem_space.1 hn
    obtain rfl := eq_of_mem hvma hw hin ((covers_remake (nonempty_of_getElem? hw) a).1 hc)
    rw [Option.some.inj (hvma.symm.trans hw)]

/-- The addresses of a mapping, as numbers. -/
theorem toNat_pageAddr {vma : VmArea} (hvma : vma ∈ p.areas) {k : Nat}
    (hk : k < (vma.end.toNat - vma.start.toNat + (pageSize - 1)) / pageSize) :
    (vma.start + UInt64.ofNat (k * pageSize)).toNat = vma.start.toNat + k * pageSize ∧
      vma.start.toNat + k * pageSize + pageSize ≤ vma.end.toNat := by
  have hpage : pageSize = 4096 := rfl
  obtain ⟨⟨s, hs⟩, e, he⟩ := p.aligned vma hvma
  have hlt := UInt64.lt_iff_toNat_lt.1 (p.nonempty vma hvma)
  have hend := vma.end.toNat_lt
  have hoff : vma.start.toNat + k * pageSize + pageSize ≤ vma.end.toNat := by
    rw [hs, he, hpage] at hk ⊢
    omega
  refine ⟨?_, hoff⟩
  rw [UInt64.toNat_add, UInt64.toNat_ofNat']
  omega

/-- The pages of a mapping lie in it. -/
theorem mem_pageAddrs {vma : VmArea} (hvma : vma ∈ p.areas) {addr : UInt64} (h : addr ∈ vma.pageAddrs) :
    vma.start.toNat ≤ addr.toNat ∧ addr.toNat + pageSize ≤ vma.end.toNat := by
  obtain ⟨k, hk, rfl⟩ := List.mem_map.1 h
  obtain ⟨haddr, hend⟩ := toNat_pageAddr hvma (List.mem_range.1 hk)
  omega

/-- A page is sent for a mapping. -/
def Sends (p : Process) (vma : VmArea) : Prop := vma.file = none ∧ ∃ addr ∈ vma.pageAddrs, (p.fetch addr).isSome

theorem mem_sentPages {x : UInt64 × Page} : x ∈ p.snapshot.pages ↔
    ∃ vma ∈ p.areas, vma.file = none ∧ x.1 ∈ vma.pageAddrs ∧ p.fetch x.1 = some x.2 := by
  simp only [snapshot, sentPages, List.mem_flatMap]
  refine exists_congr fun vma => and_congr_right fun _ => ?_
  cases hf : vma.file with
  | some f => simp
  | none =>
    simp only [Option.isSome_none, Bool.false_eq_true, if_false, List.mem_filterMap, Option.map_eq_some_iff, true_and]
    constructor
    · rintro ⟨addr, ha, page, hp, rfl⟩
      exact ⟨ha, hp⟩
    · rintro ⟨ha, hp⟩
      exact ⟨x.1, ha, x.2, hp, rfl⟩

/-- All pages that are sent can be copied exactly if the stub can remake every mapping that has one, writable. -/
theorem holds_sent_iff : (∀ x ∈ p.snapshot.pages, p.Holds ok x.1) ↔
    ∀ (i : Nat) (vma : VmArea), p.areas[i]? = some vma → p.Sends vma → vma.Remade ok i := by
  have hpage : pageSize = 4096 := rfl
  constructor
  · rintro h i vma hvma ⟨hanon, addr, haddr, hfetch⟩
    obtain ⟨page, hpg⟩ := Option.isSome_iff_exists.1 hfetch
    have hmem := List.mem_of_getElem? hvma
    obtain ⟨j, w, hw, hremade, hlo, hhi⟩ := h (addr, page) (mem_sentPages.2 ⟨vma, hmem, hanon, haddr, hpg⟩)
    have hin := mem_pageAddrs hmem haddr
    dsimp only at hlo hhi
    -- the first byte of the page tells which mapping it is
    obtain rfl := eq_of_mem hvma hw ⟨hin.1, by omega⟩ ⟨hlo, by omega⟩
    obtain rfl := Option.some.inj (hvma.symm.trans hw)
    exact hremade
  · intro h x hx
    obtain ⟨vma, hmem, hanon, haddr, hfetch⟩ := mem_sentPages.1 hx
    obtain ⟨i, hvma⟩ := List.mem_iff_getElem?.1 hmem
    have hin := mem_pageAddrs hmem haddr
    exact ⟨i, vma, hvma, h i vma hvma ⟨hanon, x.1, haddr, by rw [hfetch]; rfl⟩, hin.1, hin.2⟩

end Process

/-- The threads are never so few that the first number would be cut. -/
theorem drop_threads (p : Process) (k i : Nat) : (p.snapshot.fileTail k).drop (i * pageRecord.size) =
    (ThreadState.codec.encAll p.threads ++ leBytes k 4 ++
      pageRecord.encAll ((sentPages p.areas p.fetch).take k)).drop (4 + i * pageRecord.size) := by
  have hpos := List.length_pos_of_ne_nil p.threads_ne
  have hlen : 4 ≤ (ThreadState.codec.encAll p.threads).length := by
    rw [Codec.length_encAll, ThreadState.codec_size]
    omega
  rw [← List.drop_drop, List.append_assoc, List.drop_append_of_le_length hlen]
  rfl

/-- The addresses of the pages that the stub reads. -/
theorem forall_read_iff (p : Process) (kv : Nat → Bool) (P : UInt64 → Prop) :
    (∀ x ∈ pageRecord.decUpTo (loopBound p.snapshot.tid) (p.snapshot.fileTail (p.snapshot.kept kv)), P x.1) ↔
      ∀ i < p.copies (p.snapshot.kept kv), P (p.copyAddr (p.snapshot.kept kv) i) := by
  have hcount : p.copies (p.snapshot.kept kv) = min (loopBound p.snapshot.tid)
      ((p.snapshot.fileTail (p.snapshot.kept kv)).length / pageRecord.size) := by
    rw [length_fileTail (kept_le kv _), pageRecord_size, Nat.add_mul_div_left _ _ (by decide)]
    rfl
  have haddr : ∀ i, (pageRecord.dec ((p.snapshot.fileTail (p.snapshot.kept kv)).drop (i * pageRecord.size))).1 =
      p.copyAddr (p.snapshot.kept kv) i := fun i => congrArg Codec.u64.dec (drop_threads p _ i)
  rw [hcount]
  constructor
  · intro h i hi
    rw [← haddr]
    exact h _ ((pageRecord.mem_decUpTo_iff (by decide)).2 ⟨i, hi, rfl⟩)
  · intro h x hx
    obtain ⟨i, hi, rfl⟩ := (pageRecord.mem_decUpTo_iff (by decide)).1 hx
    rw [haddr]
    exact h i hi

/-- What the stub reads of a process can be copied exactly if the process has remade memory at those addresses. -/
theorem landed_read_iff (p : Process) (kv : Nat → Bool) (ok : Nat → Bool) :
    Restored.Landed ok ⟨p.snapshot.hdr, p.snapshot.vmas, p.snapshot.fds,
        pageRecord.decUpTo (loopBound p.snapshot.tid) (p.snapshot.fileTail (p.snapshot.kept kv))⟩ ↔
      ∀ i < p.copies (p.snapshot.kept kv), p.Holds ok (p.copyAddr (p.snapshot.kept kv) i) := by
  rw [← forall_read_iff]
  exact forall₂_congr fun x _ => Process.lands_iff x.1

/-- **Restored pages land in writable memory** exactly if the bytes of the threads and the pages that the stub takes for
addresses are those of pages in mappings of the process that it could remake, writable. If the pages are where it reads
them, that is: exactly if every mapping that pages were sent for has write permission, lies below the cut-off, and was
mapped. -/
theorem landed_iff (p : Process) (kv : Nat → Bool) (hkv : ∀ n, kv n = true → n < 2 ^ 31) (ok : Nat → Bool)
    (h : Allocated kv p.snapshot) : ∃ r, migrate kv p.snapshot = some r ∧
      (r.Landed ok ↔ ∀ i < p.copies (p.snapshot.kept kv), p.Holds ok (p.copyAddr (p.snapshot.kept kv) i)) ∧
      (PagesInPlace kv p.snapshot → (r.Landed ok ↔
        ∀ (i : Nat) (vma : VmArea), p.areas[i]? = some vma → p.Sends vma → vma.Remade ok i)) := by
  refine ⟨_, migrate_eq hkv h, landed_read_iff p kv ok, fun hplace => ?_⟩
  rw [(pagesInPlace_iff kv _).1 hplace, ← Process.holds_sent_iff]
  exact forall₂_congr fun x _ => Process.lands_iff x.1

/-! ## Processes with one mapping -/

/-- A process with one thread and one page of memory without a file. -/
def oneArea (thread : ThreadState) (start flags : UInt64) (fetch : UInt64 → Option Page)
    (haligned : pageSize ∣ start.toNat ∧ pageSize ∣ (start + 0x1000).toNat) (hlt : start < start + 0x1000) :
    Process where
  srcNode := 1
  pid := 7
  regs := zeroRegs
  areas := [⟨start, start + 0x1000, flags, 0, none⟩]
  fds := []
  threads := [thread]
  threads_ne := List.cons_ne_nil _ _
  fetch
  aligned := fun vma h => by
    obtain rfl := List.mem_singleton.1 h
    exact haligned
  nonempty := fun vma h => by
    obtain rfl := List.mem_singleton.1 h
    exact hlt
  disjoint := List.pairwise_singleton _ _

theorem oneArea_allocated (thread : ThreadState) (start flags : UInt64) (fetch : UInt64 → Option Page)
    (haligned : pageSize ∣ start.toNat ∧ pageSize ∣ (start + 0x1000).toNat) (hlt : start < start + 0x1000) :
    Allocated kvmalloc (oneArea thread start flags fetch haligned hlt).snapshot := by
  unfold Allocated
  rw [length_buf, length_descs]
  exact ⟨rfl, rfl, rfl⟩

/-- Thread 1 was interrupted at address 1. Padding and that number are the address of the one page that is copied, and
the process has memory there. -/
def luckyHeap : Process :=
  oneArea ⟨1, { zeroRegs with ip := 1 }⟩ 0x100000000 3 (fun _ => some 0) ⟨⟨0x100000, rfl⟩, ⟨0x100001, rfl⟩⟩ (by decide)

theorem luckyHeap_landed : luckyHeap.snapshot.pages = [(0x100000000, 0)] ∧
    luckyHeap.copies (luckyHeap.snapshot.kept kvmalloc) = 1 ∧
    ∃ r, migrate kvmalloc luckyHeap.snapshot = some r ∧ r.Landed fun _ => true := by
  obtain ⟨r, hr, hlanded, -⟩ := landed_iff luckyHeap kvmalloc kvmalloc_lt (fun _ => true) (oneArea_allocated ..)
  refine ⟨rfl, rfl, r, hr, hlanded.2 fun i hi => ?_⟩
  obtain rfl : i = 0 := Nat.lt_one_iff.1 hi
  have haddr : luckyHeap.copyAddr (luckyHeap.snapshot.kept kvmalloc) 0 = 0x100000000 := rfl
  rw [haddr]
  exact ⟨0, _, rfl, ⟨rfl, by decide, by decide, rfl⟩, by decide, by decide⟩

/-- The ends of the page at `0x1000`. -/
theorem page_ends : (pageSize ∣ (0x1000 : UInt64).toNat ∧ pageSize ∣ ((0x1000 : UInt64) + 0x1000).toNat) ∧
    (0x1000 : UInt64) < 0x1000 + 0x1000 :=
  ⟨⟨⟨1, rfl⟩, ⟨2, rfl⟩⟩, by decide⟩

/-- A mapping that can be read and written, with its page in memory. -/
def heapOnly : Process := oneArea ⟨7, zeroRegs⟩ 0x1000 3 (fun _ => some 0) page_ends.1 page_ends.2

/-- A mapping like the vdso, which can be read and executed, with its page in memory. -/
def vdsoOnly : Process := oneArea ⟨7, zeroRegs⟩ 0x1000 5 (fun _ => some 0) page_ends.1 page_ends.2

/-- The page of the writable mapping is copied to an address that has no mapping: where the stub looks for the address
of a page there are padding and a part of the thread's instruction pointer. And even a stub that reads the page of the
other one where it should be cannot copy it. -/
theorem page_outside_mapping :
    (∃ r, migrate kvmalloc heapOnly.snapshot = some r ∧ ¬ r.Landed fun _ => true) ∧
    vdsoOnly.snapshot.pages = [(0x1000, 0)] ∧
    ¬ Restored.Landed (fun _ => true)
      ⟨vdsoOnly.snapshot.hdr, vdsoOnly.snapshot.vmas, vdsoOnly.snapshot.fds, vdsoOnly.snapshot.pages⟩ := by
  refine ⟨⟨_, migrate_eq kvmalloc_lt (oneArea_allocated ..), fun h => ?_⟩, rfl, fun h => ?_⟩
  · have hcopies : heapOnly.copies (heapOnly.snapshot.kept kvmalloc) = 1 := rfl
    obtain ⟨i, vma, hvma, -, hstart, -⟩ := (landed_read_iff heapOnly kvmalloc _).1 h 0 (hcopies ▸ Nat.one_pos)
    obtain rfl := List.mem_singleton.1 (List.mem_of_getElem? hvma)
    have haddr : heapOnly.copyAddr (heapOnly.snapshot.kept kvmalloc) 0 = 0 := rfl
    rw [haddr] at hstart
    exact absurd hstart (by decide)
  · obtain ⟨i, vma, hvma, hremade, -⟩ := (Process.lands_iff _).1 (h (0x1000, 0) List.mem_cons_self)
    obtain rfl := List.mem_singleton.1 (List.mem_of_getElem? hvma)
    exact hremade.write (by decide)

end UckSmp.Migrate
