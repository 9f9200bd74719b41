import Mathlib.Data.Nat.ModEq
import UckSmp.Lib.Codec
import UckSmp.Memory.Access
import UckSmp.Memory.LastWrite

/-!
# The word that a futex wait compares

Between the enqueueing of the waiter and the sleep, `uck_futex_wait_local` looks for the region and for the page in its
tree, and loads the word through the kernel's mapping of that page. Where a region, an entry or a page is not there, it
compares nothing and sleeps. The load does not look at the end of the page or of the region: its last bytes may be those
of the frame behind the page. What the region holds at an address is the last write to it, wherever that was made.

* `compare_step`: the comparison is the step `compare` of the wait.
* `compares_right_iff`: when the word that is compared is the word of the region.
* `compares_right_of_current`: in which runs of the memory it is; `invalidated_sleeps` is one in which it is not.
-/

namespace UckSmp

theorem pageSize_pos : 0 < pageSize := by decide

theorem Page.mod_lt_length (p : Page) (o : Nat) : o % pageSize < p.bytes.length := by
  rw [p.length_bytes]
  exact Nat.mod_lt o pageSize_pos

/-- The byte at `o` of pages that follow each other. -/
def byteAt (pages : Nat → Page) (o : Nat) : Lib.Byte :=
  (pages (o / pageSize)).bytes.get ⟨o % pageSize, Page.mod_lt_length _ o⟩

theorem byteAt_mul_add (pages : Nat → Page) (q : Nat) {r : Nat} (hr : r < pageSize) :
    byteAt pages (q * pageSize + r) = (pages q).bytes.get ⟨r, (pages q).length_bytes ▸ hr⟩ := by
  have hdiv : (q * pageSize + r) / pageSize = q := by
    rw [Nat.add_comm, Nat.add_mul_div_right _ _ pageSize_pos, Nat.div_eq_of_lt hr, Nat.zero_add]
  have hmod : (q * pageSize + r) % pageSize = r := by rw [Nat.mul_add_mod_self_right, Nat.mod_eq_of_lt hr]
  simp only [byteAt, List.get_eq_getElem, hdiv, hmod]

theorem byteAt_add (pages : Nat → Page) {o i : Nat} (hlt : o % pageSize + i < pageSize) :
    byteAt pages (o + i) = (pages (o / pageSize)).bytes.get ⟨o % pageSize + i, (Page.length_bytes _).symm ▸ hlt⟩ := by
  have ho : o + i = o / pageSize * pageSize + (o % pageSize + i) := by rw [← Nat.add_assoc, Nat.div_add_mod']
  rw [ho, byteAt_mul_add _ _ hlt]

end UckSmp

namespace UckSmp.Futex

open Lib Lib.Transition
open Memory (Region PageEntry uckFindRegion Dsm)

/-! ## The comparison -/

/-- A load of a `u32`. -/
def load32 (mem : Nat → Byte) (a : Nat) : UInt32 := Codec.u32.dec ((List.range 4).map fun i => mem (a + i))

/-- What a node has of the regions. -/
structure Host where
  regions : List Region
  /-- `uck_page_lookup`, by the slot of the region and the index of the page. -/
  entry : Nat → Nat → Option (PageEntry Nat)
  /-- The page frames, in the order in which the kernel has them mapped. -/
  frames : Nat → Page

namespace Host

variable (h : Host)

/-- The frame that an entry points to. -/
def cached (slot idx : Nat) : Option Nat := (h.entry slot idx).bind (·.page)

/-- The frame that the comparison finds. -/
def frame (a : FutexAddr) : Option Nat :=
  (uckFindRegion h.regions a.regionId).bind fun slot => h.cached slot (a.offset >>> 12).toNat

/-- Where it loads the word: `kmap` and the offset in the page. -/
def source (a : FutexAddr) (g : Nat) : Nat := g * pageSize + (a.offset &&& 0xfff).toUInt32.toNat

def loaded (a : FutexAddr) (g : Nat) : UInt32 := load32 (byteAt h.frames) (source a g)

/-- Where the wait of `w` goes from the comparison. -/
def compare (w : Waiter) : Phase := w.compared ((h.frame w.addr).map (h.loaded w.addr))

/-! ## What it should be -/

/-- The word at `a` is inside a region that the node knows. -/
def Inside (a : FutexAddr) : Prop :=
  ∃ slot r, uckFindRegion h.regions a.regionId = some slot ∧ h.regions[slot]? = some r ∧
    a.offset.toNat + 4 ≤ r.info.size.toNat

/-- Where the node keeps byte `o` of a region. -/
def place (slot o : Nat) : Option Nat := (h.cached slot (o / pageSize)).map fun g => g * pageSize + o % pageSize

/-- The word of a region that holds `shared`. -/
def word (shared : Nat → Page) (a : FutexAddr) : UInt32 := load32 (byteAt shared) a.offset.toNat

/-- The word that is compared is the right one. -/
structure ComparesRight (shared : Nat → Page) (w : Waiter) : Prop where
  sleeps : h.compare w = .asleep → h.Inside w.addr ∧ word shared w.addr = w.expected
  eagain : h.Inside w.addr → word shared w.addr ≠ w.expected → h.compare w = .mismatched
  /-- Every byte that is loaded is a byte of the region, and the one at its place. -/
  own : ∀ g, h.frame w.addr = some g → h.Inside w.addr ∧ ∀ slot, uckFindRegion h.regions w.addr.regionId = some slot →
    ∀ i < 4, h.place slot (w.addr.offset.toNat + i) = some (source w.addr g + i)

/-! ## The cache and the region -/

/-- The word at `o` does not leave the page in frame `g`, or the next page of the region is in the next frame. -/
def Contiguous (slot o g : Nat) : Prop :=
  o % pageSize + 4 ≤ pageSize ∨ h.cached slot (o / pageSize + 1) = some (g + 1)

/-- Byte `o` of a region, as the node has it in its cache. -/
def cachedByte (slot o : Nat) : Option Byte :=
  (h.cached slot (o / pageSize)).map fun g => (h.frames g).bytes.get ⟨o % pageSize, Page.mod_lt_length _ o⟩

/-- The four bytes at `o` are cached, and are those of the value. -/
def Caches (slot o : Nat) (v : UInt32) : Prop :=
  (List.range 4).map (fun i => h.cachedByte slot (o + i)) = (Codec.u32.enc v).map some

/-- The four bytes of the region at `o` are those of the value. -/
def Holds (shared : Nat → Page) (o : Nat) (v : UInt32) : Prop :=
  (List.range 4).map (fun i => byteAt shared (o + i)) = Codec.u32.enc v

/-- The region holds what the wait expects if its page is not cached, and also if the cache has what the wait expects; a
cached word is in one piece. -/
def Current (slot : Nat) (shared : Nat → Page) (w : Waiter) : Prop :=
  (h.cached slot (w.addr.offset.toNat / pageSize) = none → Holds shared w.addr.offset.toNat w.expected) ∧
    ∀ g, h.cached slot (w.addr.offset.toNat / pageSize) = some g →
      h.Contiguous slot w.addr.offset.toNat g ∧
        (h.Caches slot w.addr.offset.toNat w.expected → Holds shared w.addr.offset.toNat w.expected)

/-! ## Addresses -/

variable {h} {a : FutexAddr} {g slot : Nat} {w : Waiter}

theorem index_eq (a : FutexAddr) : (a.offset >>> 12).toNat = a.offset.toNat / pageSize := by
  rw [UInt64.toNat_shiftRight, Nat.shiftRight_eq_div_pow]
  rfl

theorem source_eq (a : FutexAddr) (g : Nat) : source a g = g * pageSize + a.offset.toNat % pageSize := by
  have hmod : (a.offset &&& 0xfff).toNat = a.offset.toNat % 4096 := by
    rw [UInt64.toNat_and]
    exact Nat.and_two_pow_sub_one_eq_mod _ 12
  rw [source, UInt64.toNat_toUInt32, hmod, Nat.mod_eq_of_lt]
  · rfl
  · exact Nat.lt_trans (Nat.mod_lt _ (by decide)) (by decide)

theorem frame_eq_cached (hs : uckFindRegion h.regions a.regionId = some slot) :
    h.frame a = h.cached slot (a.offset.toNat / pageSize) := by
  rw [frame, hs, Option.bind_some, index_eq]

/-- A byte of the same page. -/
theorem place_add {o i : Nat} (hg : h.cached slot (o / pageSize) = some g) (hi : o % pageSize + i < pageSize) :
    h.place slot (o + i) = some (g * pageSize + o % pageSize + i) := by
  have hlt : i < pageSize := Nat.lt_of_le_of_lt (Nat.le_add_left _ _) hi
  have hmod : i % pageSize = i := Nat.mod_eq_of_lt hlt
  have hi' : o % pageSize + i % pageSize < pageSize := by rwa [hmod]
  rw [place, Nat.add_div_eq_of_add_mod_lt hi', Nat.add_mod_of_add_mod_lt hi', Nat.div_eq_of_lt hlt, hmod, Nat.add_zero,
    hg, Option.map_some, Nat.add_assoc]

/-- A byte of the next page is where the load takes it from only if the frames follow each other. -/
theorem place_add_next {o i : Nat} (hi : pageSize ≤ o % pageSize + i) (hlt : i < pageSize) :
    h.place slot (o + i) = some (g * pageSize + o % pageSize + i) ↔
      h.cached slot (o / pageSize + 1) = some (g + 1) := by
  have hmod : i % pageSize = i := Nat.mod_eq_of_lt hlt
  have hi' : pageSize ≤ o % pageSize + i % pageSize := by rwa [hmod]
  have hrest := Nat.add_mod_add_of_le_add_mod hi'
  rw [hmod] at hrest
  rw [place, Nat.add_div_eq_of_le_mod_add_mod hi' pageSize_pos, Nat.div_eq_of_lt hlt, Nat.add_zero, Nat.add_assoc,
    ← hrest, Option.map_eq_some_iff]
  constructor
  · rintro ⟨g', hg', heq⟩
    have hmul : g' * pageSize = (g + 1) * pageSize := by
      rw [Nat.succ_mul]
      omega
    rw [hg', Nat.eq_of_mul_eq_mul_right pageSize_pos hmul]
  · intro hg'
    refine ⟨g + 1, hg', ?_⟩
    rw [Nat.succ_mul]
    omega

/-- The bytes of the load are where the node keeps those of the region exactly if they are contiguous. -/
theorem place_iff (hg : h.cached slot (a.offset.toNat / pageSize) = some g) :
    (∀ i < 4, h.place slot (a.offset.toNat + i) = some (source a g + i)) ↔ h.Contiguous slot a.offset.toNat g := by
  rw [source_eq, Contiguous]
  constructor
  · intro hplace
    refine or_iff_not_imp_left.2 fun hleaves => ?_
    have hlast := hplace 3 (by decide)
    exact (place_add_next (by omega) (by decide)).1 hlast
  · intro hc i hi
    by_cases hin : a.offset.toNat % pageSize + i < pageSize
    · exact place_add hg hin
    · have hnext : h.cached slot (a.offset.toNat / pageSize + 1) = some (g + 1) :=
        hc.resolve_left fun h4 => hin (by omega)
      exact (place_add_next (Nat.le_of_not_lt hin) (Nat.lt_trans hi (by decide))).2 hnext

/-! ## Words -/

theorem load32_eq_iff (mem : Nat → Byte) (o : Nat) (v : UInt32) :
    load32 mem o = v ↔ (List.range 4).map (fun i => mem (o + i)) = Codec.u32.enc v := by
  constructor
  · rintro rfl
    have hexact := Codec.u32_exact ((List.range 4).map fun i => mem (o + i)) (by simp [Codec.u32, Codec.int])
    rw [load32, hexact]
    rfl
  · intro hbytes
    rw [load32, hbytes, Codec.dec_enc_self]

theorem word_eq_iff (shared : Nat → Page) (a : FutexAddr) (v : UInt32) :
    word shared a = v ↔ Holds shared a.offset.toNat v := load32_eq_iff _ _ _

/-- What is cached of a byte is what stands at its place. -/
theorem cachedByte_of_place {o x : Nat} (hx : h.place slot o = some x) :
    h.cachedByte slot o = some (byteAt h.frames x) := by
  obtain ⟨g, hg, rfl⟩ := Option.map_eq_some_iff.1 hx
  rw [cachedByte, hg, Option.map_some, byteAt_mul_add _ _ (Nat.mod_lt o pageSize_pos)]

/-- The load reads the cached bytes of the region, if they are in one piece. -/
theorem loaded_eq_iff (hg : h.cached slot (a.offset.toNat / pageSize) = some g)
    (hc : h.Contiguous slot a.offset.toNat g) (v : UInt32) :
    h.loaded a g = v ↔ h.Caches slot a.offset.toNat v := by
  have hplace := (place_iff hg).2 hc
  have hbytes : (List.range 4).map (fun i => h.cachedByte slot (a.offset.toNat + i)) =
      ((List.range 4).map fun i => byteAt h.frames (source a g + i)).map some := by
    rw [List.map_map]
    exact List.map_congr_left fun i hi => cachedByte_of_place (hplace i (List.mem_range.1 hi))
  rw [loaded, load32_eq_iff, Caches, hbytes]
  exact ((Option.some_injective _).list_map.eq_iff).symm

/-! ## Sleeping -/

/-- Where nothing is found there is nothing to compare. -/
theorem compare_of_not_found (hf : h.frame w.addr = none) : h.compare w = .asleep := by
  rw [compare, hf]
  rfl

/-- A wait on a region that the node does not know is not refused. -/
theorem compare_of_unknown (hs : uckFindRegion h.regions w.addr.regionId = none) : h.compare w = .asleep := by
  refine compare_of_not_found ?_
  rw [frame, hs, Option.bind_none]

theorem compare_of_found (hf : h.frame w.addr = some g) :
    h.compare w = if h.loaded w.addr g ≠ w.expected then .mismatched else .asleep := by
  rw [compare, hf]
  rfl

theorem compare_eq_asleep_iff (hf : h.frame w.addr = some g) :
    h.compare w = .asleep ↔ h.loaded w.addr g = w.expected := by
  rw [compare_of_found hf]
  split
  next hne => exact iff_of_false Phase.noConfusion hne
  next heq => exact iff_of_true rfl (not_not.1 heq)

theorem compare_eq_mismatched (hn : h.compare w ≠ .asleep) : h.compare w = .mismatched := by
  cases hf : h.frame w.addr with
  | none => exact absurd (compare_of_not_found hf) hn
  | some g =>
    rw [compare_of_found hf]
    exact if_pos fun heq => hn ((compare_eq_asleep_iff hf).2 heq)

/-- The wait sleeps only on the right word, where cache and region are current. -/
theorem Current.sleeps {shared : Nat → Page} (hs : uckFindRegion h.regions w.addr.regionId = some slot)
    (hcur : h.Current slot shared w) (hc : h.compare w = .asleep) : word shared w.addr = w.expected := by
  rw [word_eq_iff]
  cases hg : h.cached slot (w.addr.offset.toNat / pageSize) with
  | none => exact hcur.1 hg
  | some g =>
    obtain ⟨hcont, hcaches⟩ := hcur.2 g hg
    have hloaded := (compare_eq_asleep_iff ((frame_eq_cached hs).trans hg)).1 hc
    exact hcaches ((loaded_eq_iff hg hcont _).1 hloaded)

theorem ComparesRight.of_current {shared : Nat → Page} (hs : uckFindRegion h.regions w.addr.regionId = some slot)
    (hin : h.Inside w.addr) (hcur : h.Current slot shared w) : h.ComparesRight shared w := by
  refine ⟨fun hc => ⟨hin, hcur.sleeps hs hc⟩, fun _ hne => compare_eq_mismatched fun hc => hne (hcur.sleeps hs hc),
    fun g hf => ⟨hin, fun slot' hs' => ?_⟩⟩
  obtain rfl := Option.some.inj (hs.symm.trans hs')
  have hg := (frame_eq_cached hs).symm.trans hf
  exact (place_iff hg).2 (hcur.2 g hg).1

theorem ComparesRight.inside {shared : Nat → Page} (hr : h.ComparesRight shared w) : h.Inside w.addr := by
  cases hf : h.frame w.addr with
  | none => exact (hr.sleeps (compare_of_not_found hf)).1
  | some g => exact (hr.own g hf).1

theorem ComparesRight.current {shared : Nat → Page} (hr : h.ComparesRight shared w)
    (hs : uckFindRegion h.regions w.addr.regionId = some slot) : h.Current slot shared w := by
  have hframe := frame_eq_cached hs
  refine ⟨fun hg => ?_, fun g hg => ?_⟩
  · exact (word_eq_iff _ _ _).1 (hr.sleeps (compare_of_not_found (hframe.trans hg))).2
  · have hf := hframe.trans hg
    have hcont := (place_iff hg).1 ((hr.own g hf).2 slot hs)
    refine ⟨hcont, fun hcaches => (word_eq_iff _ _ _).1 ?_⟩
    exact (hr.sleeps ((compare_eq_asleep_iff hf).2 ((loaded_eq_iff hg hcont _).2 hcaches))).2

/-- **A wait compares the right word** exactly if the four bytes at its offset are inside a region of the node, the
region has the expected value there if the page is not cached, and if it is, the cached word is in one piece and shows
the expected value only where the region has it. -/
theorem compares_right_iff (h : Host) (shared : Nat → Page) (w : Waiter) :
    h.ComparesRight shared w ↔ ∃ slot r, uckFindRegion h.regions w.addr.regionId = some slot ∧
      h.regions[slot]? = some r ∧ w.addr.offset.toNat + 4 ≤ r.info.size.toNat ∧ h.Current slot shared w := by
  constructor
  · intro hr
    obtain ⟨slot, r, hs, hr', hsize⟩ := hr.inside
    exact ⟨slot, r, hs, hr', hsize, hr.current hs⟩
  · rintro ⟨slot, r, hs, hr, hsize, hcur⟩
    exact .of_current hs ⟨slot, r, hs, hr, hsize⟩ hcur

/-! ## In the wait and on the node -/

theorem waiter_setPhase {s : Node} {i : Nat} (hw : s.waiter i = some w) (p : Phase) :
    (s.setPhase i p).waiter i = some { w with phase := p } := by
  have hid : w.id = i := (mem_of_waiter hw).2
  -- the waits keep their numbers
  have hkeeps : (fun v : Waiter => decide (v.id = i)) ∘ (fun v => if v.id = i then { v with phase := p } else v) =
      fun v => decide (v.id = i) := by
    funext v
    dsimp only [Function.comp_apply]
    split <;> rfl
  rw [Node.waiter] at hw
  rw [Node.waiter, Node.setPhase, List.find?_map, hkeeps, hw, Option.map_some, if_pos hid]

/-- The comparison is the step `compare` of the wait. -/
theorem compare_step (h : Host) {s : Node} {i : Nat} (hw : s.waiter i = some w) (hp : w.phase = .enqueued) :
    ∃ t, step s (.compare i ((h.frame w.addr).map (h.loaded w.addr))) = some t ∧
      t.waiter i = some { w with phase := h.compare w } := by
  exact ⟨s.setPhase i (h.compare w), guarded_eq_some.2 ⟨w, hw, hp, rfl⟩, waiter_setPhase hw _⟩

/-- It finds the page whose readers `Memory.Access` looks at. -/
theorem frame_eq_futexPage (s : Memory.Acl.Sys) (frames : Nat → Page) (a : FutexAddr) :
    Host.frame ⟨s.regions, fun slot idx => s.mem.node.cache.entry (slot, idx), frames⟩ a =
      (s.futexPage a).map Prod.snd := by
  rw [Memory.Acl.Sys.futexPage, frame]
  cases uckFindRegion s.regions a.regionId with
  | none => rfl
  | some slot =>
    dsimp only [Option.bind_some]
    rw [Option.map_map]
    exact (Option.map_id' ..).symm

/-! ## Regions that several nodes write -/

variable {c : Memory.Cluster} {m : Dsm Page} {n p : Nat}

/-- The trees of the node are those of node `n` in `m`. -/
def Shows (h : Host) (slot : Nat) (m : Dsm Page) (n : Nat) : Prop :=
  ∀ idx, (h.cached slot idx).map h.frames = (m.slot n idx).cached.map (m.slot n idx).heap

/-- The page in the cache of node `n` has the last write: nobody wrote it, or the owner did, has it in its cache still,
and the node is the owner or has fetched the page since and has not mapped an older one. -/
def CachedCurrent (c : Memory.Cluster) (m : Dsm Page) (n p : Nat) : Prop :=
  (m.slot n p).cached ≠ none ∧ (m.lastWriter p = none ∨
    m.lastWriter p = some c.owner ∧ Memory.OwnerHolds (m.slot c.owner p) ∧
      (n = c.owner ∨ (m.slot n p).map = none ∧ (m.slot n p).since = m.writes p))

theorem cached_last (hi : m.Inv c) (hc : CachedCurrent c m n p) :
    ∃ g, (m.slot n p).cached = some g ∧ (m.slot n p).heap g = m.last p := by
  obtain ⟨hcached, hc⟩ := hc
  obtain ⟨g, hg⟩ := Option.ne_none_iff_exists'.1 hcached
  refine ⟨g, hg, ?_⟩
  have hslot := (hi p).slot n
  rcases hc with hnone | ⟨howner, hholds, rfl | ⟨hmap, hsince⟩⟩
  · rw [hslot.cached_zero hnone g hg, (hi p).last_zero hnone]
  · obtain ⟨g₁, b₁, hm₁, hg₁⟩ := hholds
    obtain ⟨g₂, b₂, hm₂, hlast⟩ := hslot.writer howner
    rw [hm₁] at hm₂
    rw [hg] at hg₁
    cases hm₂
    cases hg₁
    exact hlast
  · have hne : n ≠ c.owner := by
      rintro rfl
      obtain ⟨g₁, b₁, hm₁, -⟩ := hholds
      rw [hmap] at hm₁
      cases hm₁
    refine hslot.fresh howner hholds hne hsince _ ?_
    rw [Memory.Slot.view, hmap, hg]
    rfl

/-- Where the cached page is that of the region, so is a word that does not leave it. -/
theorem current_of_page {shared : Nat → Page} (hin : w.addr.offset.toNat % pageSize + 4 ≤ pageSize)
    (hg : h.cached slot (w.addr.offset.toNat / pageSize) = some g)
    (hpage : h.frames g = shared (w.addr.offset.toNat / pageSize)) : h.Current slot shared w := by
  refine ⟨fun hnone => absurd (hg.symm.trans hnone) (by simp), fun g' hg' => ⟨.inl hin, fun hcaches => ?_⟩⟩
  have hbytes : (List.range 4).map (fun i => h.cachedByte slot (w.addr.offset.toNat + i)) =
      ((List.range 4).map fun i => byteAt shared (w.addr.offset.toNat + i)).map some := by
    rw [List.map_map]
    refine List.map_congr_left fun i hi => ?_
    have hlt : w.addr.offset.toNat % pageSize + i < pageSize := by
      have hi4 := List.mem_range.1 hi
      omega
    rw [cachedByte_of_place (place_add hg hlt), Nat.add_assoc, byteAt_mul_add _ _ hlt, Function.comp_apply,
      byteAt_add _ hlt]
    simp only [List.get_eq_getElem, hpage]
  rw [Caches, hbytes] at hcaches
  exact (Option.some_injective _).list_map hcaches

/-- **Waits on aligned words of current pages** compare the right word, in every run of the memory. -/
theorem compares_right_of_current {pages : Nat} {as : List (Memory.Access Page)}
    (hrun : run (Memory.access c pages) Dsm.init as = some m) (hs : uckFindRegion h.regions w.addr.regionId = some slot)
    (hin : h.Inside w.addr) (halign : w.addr.offset.toNat % 4 = 0) (hshows : h.Shows slot m n)
    (hc : CachedCurrent c m n (w.addr.offset.toNat / pageSize)) :
    h.ComparesRight (fun idx => Memory.lastWrite idx as) w := by
  obtain ⟨⟨hi, -⟩, hlast⟩ := Memory.run_access hrun (w.addr.offset.toNat / pageSize)
  obtain ⟨g, hg, hheap⟩ := cached_last hi hc
  have hpage := hshows (w.addr.offset.toNat / pageSize)
  rw [hg, Option.map_some, hheap, hlast] at hpage
  obtain ⟨f, hf, hframes⟩ := Option.map_eq_some_iff.1 hpage
  have hinpage : w.addr.offset.toNat % pageSize + 4 ≤ pageSize := by
    have hlt : w.addr.offset.toNat % pageSize < 4096 := Nat.mod_lt _ pageSize_pos
    have halign' : w.addr.offset.toNat % pageSize % 4 = 0 := by
      rwa [Nat.mod_mod_of_dvd _ (by decide : 4 ∣ pageSize)]
    change _ ≤ 4096
    omega
  exact .of_current hs hin (current_of_page hinpage hf hframes)

/-! ## A page that another node has written -/

/-- Node 1 has read a page that its owner writes then: an `INVALIDATE` has taken the page from node 1. -/
def readThenWritten : List (Memory.Access Page) := [.read 1 0, .read 0 0, .write 0 0 (Page.filled 7)]

/-- Node 1, with a region of one page. -/
def nodeOne (m : Dsm Page) : Host :=
  ⟨[{ info := ⟨1, 4096, 0⟩, acl := ⟨0, 0, 0o600⟩ }], fun _ idx => (m.slot 1 idx).entry, fun _ => 0⟩

/-- Its wait for 0 sleeps, while every byte of the region is 7. -/
theorem invalidated_sleeps :
    let w : Waiter := { id := 0, addr := ⟨1, 0⟩, expected := 0 }
    ∃ m, run (Memory.access Memory.threeNodes 1) Dsm.init readThenWritten = some m ∧ (nodeOne m).Shows 0 m 1 ∧
      (nodeOne m).Inside w.addr ∧ (nodeOne m).compare w = .asleep ∧
      ¬ (nodeOne m).ComparesRight (fun idx => Memory.lastWrite idx readThenWritten) w := by
  intro w
  have hword : word (fun idx => Memory.lastWrite idx readThenWritten) w.addr ≠ w.expected := by decide +kernel
  have hfind (m : Dsm Page) : uckFindRegion (nodeOne m).regions w.addr.regionId = some 0 := rfl
  have hasleep (m : Dsm Page) (hm : (m.slot 1 0).cached = none) : (nodeOne m).compare w = .asleep := by
    refine compare_of_not_found ?_
    have hidx : (w.addr.offset >>> 12).toNat = 0 := by decide
    rw [frame, hfind, Option.bind_some, hidx]
    exact hm
  refine ⟨_, rfl, ?_, ⟨0, _, hfind _, rfl, by decide⟩, hasleep _ rfl, fun hr => hword (hr.sleeps (hasleep _ rfl)).2⟩
  intro idx
  cases idx with
  | zero => rfl
  | succ idx => rfl

end Host

end UckSmp.Futex
