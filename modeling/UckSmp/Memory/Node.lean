import UckSmp.Memory.Cache
import UckSmp.Memory.Memctl
import UckSmp.Memory.Prefetch

/-!
# The critical sections of a node

The caches of a node with the reference counts of the pages that were allocated for them and the memory counters, and
what the critical sections under `region->lock` do to all of these: those of `uck_fault` and of the batch fetch,
`uck_page_mkwrite`, a received `INVALIDATE` or `NODE_LEAVE`, and the cleanup of the regions.
-/

namespace UckSmp.Memory

/-! ## Model -/

/-- What does not change: the node's own number, the owners of the regions and their sizes in bytes, whether
`uck_rdma_available`, the memory of the machine in pages and the share of it that may be used. -/
structure Config where
  self : Nat
  owner : Nat → Nat
  size : Nat → Nat
  rdma : Bool := false
  totalram : Nat
  pct : Nat := 80

/-- The caches of a node, the reference counts of pages, the number of pages allocated so far, and the pages that faults
returned and that are still mapped. -/
structure Node where
  cache : Cache := .empty
  refs : Nat → Int := fun _ => 0
  next : Nat := 0
  mapped : List Nat := []
  mem : Memctl := {}
  statics : PrefetchStatics := {}

/-- What the allocators answer during a fault. -/
structure Allocs where
  entry : Bool
  page : Bool
  deriving DecidableEq, Repr

/-- How the first section of a fault ends. -/
inductive Entered
  /-- A page of the cache is returned; `none` is the `NULL` of an entry without a page. -/
  | hit (page : Option Nat)
  | wait
  | oom
  /-- The fault is outside the region. -/
  | sigbus
  /-- The fault goes on with a page of its own. -/
  | fetch (page : Nat)
  deriving DecidableEq, Repr

namespace Node

variable (c : Config) (s : Node)

def addRef (g : Nat) (d : Int) : Node := { s with refs := Function.update s.refs g (s.refs g + d) }

/-- `alloc_page`. -/
def allocPage : Node := { s with next := s.next + 1, refs := Function.update s.refs s.next 1 }

/-- `get_page`. -/
def getPage (g : Nat) : Node := s.addRef g 1

/-- `__free_page` drops a reference. -/
def freePage (g : Nat) : Node := s.addRef g (-1)

def put (k : Key) (e : PageEntry Nat) : Node := { s with cache := s.cache.put k e }

/-- A fault takes a reference to a page for its mapping, and returns it. -/
def returnPage (g : Nat) : Node := { s.getPage g with mapped := g :: s.mapped }

/-- What the first section of `uck_fault` decides. -/
def faultEnter (k : Key) (isWrite : Bool) (a : Allocs) : FaultEnter Nat :=
  uckFaultEnter (c.owner k.1) isWrite ⟨a.entry, (s.mem.uckMemctlCanAlloc c.totalram c.pct 1).1, a.page⟩
    (s.cache.entry k)

/-- The first section of `uck_fault`. -/
def enter (k : Key) (isWrite : Bool) (a : Allocs) : Entered × Node :=
  let mem := (s.mem.uckMemctlCanAlloc c.totalram c.pct 1).2
  if c.size k.1 ≤ k.2 * pageSize then (.sigbus, s)
  else match s.faultEnter c k isWrite a with
    | .hit e _ => match e.page with
      | some g => (.hit (some g), (s.put k e).returnPage g)
      | none => (.hit none, s.put k e)
    | .wait e => (.wait, s.put k e)
    | .oom none => (.oom, s)
    | .oom (some e) => (.oom, { s.put k e with mem })
    | .fetch e => (.fetch s.next, { s.put k e with mem }.allocPage)

/-- A fault that waited for the fetch of another one: the page it returns, or `none` for `VM_FAULT_SIGBUS`. -/
def wake (k : Key) : Option (Nat × Node) :=
  (s.cache.entry k).bind fun e =>
    if e.state ≠ .invalid then e.page.map fun g => (g, s.returnPage g) else none

/-- The list of pages to fetch, built under the lock. -/
def prefetchList (k : Key) : List Nat × PrefetchStatics :=
  uckBuildPrefetchList (fun i => stateOf (s.cache.entry (k.1, i)) ≠ .invalid) (c.size k.1 / pageSize) k.2
    uckPrefetchWindow s.statics

/-- One page of a batch has been allocated and received: it is put into its entry, with a second reference, in the place
of the page that was there. Without an entry it is freed. -/
def batchPage (k : Key) (entryAlloc : Bool) : Bool × Node :=
  let g := s.next
  if (s.cache.entry k).isNone = true ∧ entryAlloc = false then (false, s.allocPage.freePage g)
  else
    let e := batchInstall (c.owner k.1) g (s.cache.entry k)
    match s.cache.page k with
    | some old => (true, ((s.allocPage.freePage old).put k e).getPage g)
    | none => (true, (s.allocPage.put k e).getPage g)

/-- The section of `uck_fault` after a batch that brought pages: the page returned and the node, or `none` when the
faulting page is not there. -/
def afterBatch (k : Key) (isWrite : Bool) (own : Nat) : Option (Nat × Node) :=
  match uckFaultAfterBatch isWrite (s.cache.entry k) with
  | some (e, _) => e.page.map fun g => (g, ((s.freePage own).put k e).returnPage g)
  | none => none

/-- The last section of `uck_fault`: the page of the fault is installed and accounted for. -/
def install (k : Key) (isWrite : Bool) (own : Nat) : Node :=
  match s.cache.entry k with
  | some e =>
    { (s.put k (uckFaultInstall isWrite own e)).returnPage own with mem := s.mem.uckMemctlAccountAlloc 1 }
  | none => s

/-- `uck_fault` gives up after a failed fetch. -/
def abort (k : Key) (own : Nat) : Node :=
  match s.cache.entry k with
  | some e => (s.put k (uckFaultAbort e)).freePage own
  | none => s.freePage own

/-- `uck_page_mkwrite`. -/
def mkwrite (k : Key) : Node :=
  match (uckPageMkwrite (s.cache.entry k)).1 with
  | some e => s.put k e
  | none => s

/-- `uck_handle_invalidate`. -/
def invalidate (k : Key) : Node :=
  match s.cache.entry k with
  | some e => match e.page with
    | some g => (s.freePage g).put k (UckSmp.Memory.uckHandleInvalidate e)
    | none => s.put k (UckSmp.Memory.uckHandleInvalidate e)
  | none => s

/-- The entry of a page when a node leaves. -/
def leaveEntry (node : Nat) (k : Key) (e : PageEntry Nat) : PageEntry Nat :=
  if c.owner k.1 = node ∧ e.ownerNode = node then { e with state := .invalid } else e

/-- What `uck_handle_node_leave` does to the caches. -/
def leave (node : Nat) : Node := { s with cache := s.cache.map (leaveEntry c node) }

/-- `uck_page_free_all` frees the page of one entry. -/
def freeEntry (s : Node) (k : Key) : Node :=
  match s.cache.page k with
  | some g => { s.freePage g with mem := s.mem.uckMemctlAccountFree 1 }
  | none => s

/-- `uck_cleanup_regions`. -/
def cleanup : Node := { s.cache.tree.foldl freeEntry s with cache := .empty }

/-- A page that a fault returned is unmapped. -/
def unmap (g : Nat) : Node := { s.freePage g with mapped := s.mapped.erase g }

variable {c s} {k j : Key} {w : Bool} {a : Allocs} {own : Nat}

/-! ## What the sections leave in the cache -/

@[simp] theorem allocPage_cache : s.allocPage.cache = s.cache := rfl

@[simp] theorem freePage_cache (g : Nat) : (s.freePage g).cache = s.cache := rfl

@[simp] theorem returnPage_cache (g : Nat) : (s.returnPage g).cache = s.cache := rfl

@[simp] theorem put_cache (e : PageEntry Nat) : (s.put k e).cache = s.cache.put k e := rfl

theorem faultEnter_cases (c : Config) (s : Node) (k : Key) (w : Bool) (a : Allocs) :
    (∃ e, s.cache.entry k = some e ∧ e.state ≠ .invalid ∧ s.faultEnter c k w a =
      if w = true ∧ e.state = .shared then .hit e.grantWrite true else .hit e false) ∨
    (stateOf (s.cache.entry k) = .invalid ∧
      (s.cache.entry k = none ∧ s.faultEnter c k w a = .oom none ∨
        s.faultEnter c k w a = .oom (some ((s.cache.entry k).getD (uckPageAllocEntry (c.owner k.1)))) ∨
        (s.mem.uckMemctlCanAlloc c.totalram c.pct 1).1 = true ∧ s.faultEnter c k w a =
          .fetch { (s.cache.entry k).getD (uckPageAllocEntry (c.owner k.1)) with state := .inTransit })) :=
  uckFaultEnter_cases ..

theorem enter_cache (hk : k.2 * pageSize < c.size k.1) :
    (s.enter c k w a).2.cache = s.cache.set k (s.faultEnter c k w a).entry := by
  simp only [enter, if_neg (Nat.not_le.2 hk)]
  cases s.faultEnter c k w a with
  | hit e _ => cases hp : e.page <;> simp [hp, FaultEnter.entry, Cache.set]
  | wait e => rfl
  | oom e => cases e <;> rfl
  | fetch e => rfl

theorem enter_outside (hk : ¬ k.2 * pageSize < c.size k.1) : s.enter c k w a = (.sigbus, s) := by
  simp only [enter, if_pos (Nat.not_lt.1 hk)]

/-- A fault on a valid page returns it. -/
theorem enter_valid {e : PageEntry Nat} {g : Nat} (hk : k.2 * pageSize < c.size k.1) (he : s.cache.entry k = some e)
    (hs : e.state ≠ .invalid) (hg : e.page = some g) : s.enter c k w a =
      (.hit (some g), (s.put k (if w = true ∧ e.state = .shared then e.grantWrite else e)).returnPage g) := by
  have hf : s.faultEnter c k w a =
      if w = true ∧ e.state = .shared then .hit e.grantWrite true else .hit e false := by
    simp only [faultEnter, uckFaultEnter, he, ne_eq, hs, not_false_eq_true, if_true]
  simp only [enter, if_neg (Nat.not_le.2 hk), hf]
  by_cases hw : w = true ∧ e.state = .shared
  · rw [if_pos hw, if_pos hw]
    simp only [grantWrite_page, hg]
  · rw [if_neg hw, if_neg hw]
    simp only [hg]

/-- A fault on a page that is not valid runs out of memory and leaves it so, or goes on to fetch it. -/
theorem enter_invalid (hk : k.2 * pageSize < c.size k.1) (hs : stateOf (s.cache.entry k) = .invalid) :
    (∃ t, s.enter c k w a = (.oom, t) ∧ stateOf (t.cache.entry k) = .invalid) ∨
      (∃ t, s.enter c k w a = (.fetch s.next, t) ∧ stateOf (t.cache.entry k) = .inTransit) := by
  simp only [enter, if_neg (Nat.not_le.2 hk)]
  obtain ⟨x, hx, hne, -⟩ | ⟨hi, ⟨-, ho⟩ | ho | ⟨-, hf⟩⟩ := s.faultEnter_cases c k w a
  · rw [hx] at hs
    exact absurd hs hne
  · rw [ho]
    exact .inl ⟨s, rfl, hs⟩
  · rw [ho]
    refine .inl ⟨_, rfl, ?_⟩
    rw [put_cache, Cache.put_entry_self]
    exact getD_alloc_state _ hi
  · rw [hf]
    refine .inr ⟨_, rfl, ?_⟩
    rw [allocPage_cache, put_cache, Cache.put_entry_self]
    rfl

/-- A fault that goes on to fetch has found nothing valid. -/
theorem stateOf_of_enter_fetch {t : Node} (h : s.enter c k w a = (.fetch own, t)) :
    stateOf (s.cache.entry k) = .invalid := by
  obtain ⟨x, -, -, hx⟩ | ⟨hi, -⟩ := s.faultEnter_cases c k w a
  · simp only [enter, hx] at h
    split at h
    · cases h
    · by_cases hw : w = true ∧ x.state = .shared
      · rw [if_pos hw] at h
        cases hp : x.page <;> simp [hp] at h
      · rw [if_neg hw] at h
        cases hp : x.page <;> simp [hp] at h
  · exact hi

/-- The other pages of the list had nothing valid. -/
theorem of_mem_prefetchList {j : Nat} (h : j ∈ (s.prefetchList c k).1) :
    j = k.2 ∨ stateOf (s.cache.entry (k.1, j)) = .invalid := by
  rcases List.mem_cons.1 h with rfl | h
  · exact .inl rfl
  · obtain ⟨-, hc⟩ := of_mem_prefetchScan h
    simp only [ne_eq, decide_not, Bool.not_eq_false', decide_eq_true_eq] at hc
    exact .inr hc

/-- The faulting page is on the list once, at its head. -/
theorem prefetchList_eq_cons (c : Config) (s : Node) (k : Key) :
    ∃ rest, (s.prefetchList c k).1 = k.2 :: rest ∧ k.2 ∉ rest :=
  ⟨_, rfl, fun h => (of_mem_prefetchScan h).1 rfl⟩

theorem wake_eq_some {g : Nat} {t : Node} (h : s.wake k = some (g, t)) :
    s.cache.page k = some g ∧ stateOf (s.cache.entry k) ≠ .invalid ∧ t = s.returnPage g := by
  unfold wake at h
  obtain ⟨e, he, h⟩ := Option.bind_eq_some_iff.1 h
  rw [Option.ite_none_right_eq_some, Option.map_eq_some_iff] at h
  obtain ⟨hst, g', hg, h⟩ := h
  cases h
  rw [Cache.page, he]
  exact ⟨hg, hst, rfl⟩

/-- A page of a batch is freed, or installed with or without a page in its place. -/
theorem batchPage_cases (c : Config) (s : Node) (k : Key) (ea : Bool) :
    (s.cache.entry k).isSome = false ∧ s.batchPage c k ea = (false, s.allocPage.freePage s.next) ∨
    (∃ old, s.cache.page k = some old ∧ s.batchPage c k ea = (true,
      ((s.allocPage.freePage old).put k (batchInstall (c.owner k.1) s.next (s.cache.entry k))).getPage s.next)) ∨
    s.cache.page k = none ∧ s.batchPage c k ea = (true,
      (s.allocPage.put k (batchInstall (c.owner k.1) s.next (s.cache.entry k))).getPage s.next) := by
  unfold batchPage
  by_cases hno : (s.cache.entry k).isNone = true ∧ ea = false
  · rw [if_pos hno]
    exact .inl ⟨Option.isSome_eq_false_iff.2 hno.1, rfl⟩
  · rw [if_neg hno]
    cases s.cache.page k with
    | some old => exact .inr (.inl ⟨old, rfl, rfl⟩)
    | none => exact .inr (.inr ⟨rfl, rfl⟩)

theorem batchPage_cache (ea : Bool) : (s.batchPage c k ea).2.cache =
    if (s.batchPage c k ea).1 then s.cache.put k (batchInstall (c.owner k.1) s.next (s.cache.entry k))
    else s.cache := by
  obtain ⟨-, h⟩ | ⟨old, -, h⟩ | ⟨-, h⟩ := batchPage_cases c s k ea <;> rw [h] <;> rfl

theorem batchPage_fst {ea : Bool} (h : (s.cache.entry k).isSome = true) : (s.batchPage c k ea).1 = true := by
  obtain ⟨hnone, -⟩ | ⟨old, -, heq⟩ | ⟨-, heq⟩ := batchPage_cases c s k ea
  · exact absurd h (Bool.eq_false_iff.1 hnone)
  · rw [heq]
  · rw [heq]

theorem afterBatch_eq_some {g : Nat} {t : Node} (h : s.afterBatch k w own = some (g, t)) :
    ∃ e, s.cache.entry k = some e ∧ e.page = some g ∧
      t = ((s.freePage own).put k (if w then e.grantWrite else e)).returnPage g := by
  simp only [afterBatch, uckFaultAfterBatch] at h
  cases he : s.cache.entry k with
  | none => simp [he] at h
  | some e =>
    cases hp : e.page with
    | none => simp [he, hp] at h
    | some g' =>
      refine ⟨e, rfl, ?_⟩
      cases w <;> simp [he, hp] at h <;> obtain ⟨rfl, rfl⟩ := h <;> simp [hp]

theorem afterBatch_eq_none (h : s.afterBatch k w own = none) : s.cache.page k = none := by
  simp only [afterBatch, uckFaultAfterBatch] at h
  cases he : s.cache.entry k with
  | none => simp [Cache.page, he]
  | some e =>
    cases hp : e.page with
    | none => simp [Cache.page, he, hp]
    | some g => cases w <;> simp [he, hp] at h

theorem install_cache :
    (s.install k w own).cache = s.cache.set k ((s.cache.entry k).map (uckFaultInstall w own)) := by
  unfold install
  cases s.cache.entry k <;> rfl

theorem abort_eq (k : Key) (own : Nat) :
    s.abort k own = { s.freePage own with cache := s.cache.set k ((s.cache.entry k).map uckFaultAbort) } := by
  unfold abort
  cases s.cache.entry k <;> rfl

theorem invalidate_eq (k : Key) : s.invalidate k =
    { (match s.cache.page k with
        | some g => s.freePage g
        | none => s) with
      cache := s.cache.set k ((s.cache.entry k).map UckSmp.Memory.uckHandleInvalidate) } := by
  unfold invalidate Cache.page
  cases he : s.cache.entry k with
  | none => rfl
  | some e => cases hp : e.page <;> simp [hp, Cache.set] <;> rfl

theorem mkwrite_eq (k : Key) :
    s.mkwrite k = { s with cache := s.cache.set k (uckPageMkwrite (s.cache.entry k)).1 } := by
  unfold mkwrite
  cases (uckPageMkwrite (s.cache.entry k)).1 <;> rfl

/-! ## What the sections do to the node -/

/-- What the first section of a fault can do to the node, by how it ends. -/
inductive Enters (c : Config) (s : Node) (k : Key) : Entered → Node → Prop
  | sigbus : Enters c s k .sigbus s
  | hit {e : PageEntry Nat} {g : Nat} (he : e.page = s.cache.page k) (hg : e.page = some g) :
      Enters c s k (.hit (some g)) ((s.put k e).returnPage g)
  | null {e : PageEntry Nat} (he : e.page = s.cache.page k) : Enters c s k (.hit none) (s.put k e)
  | oom : Enters c s k .oom s
  | denied {e : PageEntry Nat} (he : e.page = s.cache.page k) :
      Enters c s k .oom { s.put k e with mem := (s.mem.uckMemctlCanAlloc c.totalram c.pct 1).2 }
  | fetch {e : PageEntry Nat} (he : e.page = s.cache.page k)
      (hok : (s.mem.uckMemctlCanAlloc c.totalram c.pct 1).1 = true) :
      Enters c s k (.fetch s.next)
        { s.put k e with mem := (s.mem.uckMemctlCanAlloc c.totalram c.pct 1).2 }.allocPage

theorem enters (c : Config) (s : Node) (k : Key) (w : Bool) (a : Allocs) :
    Enters c s k (s.enter c k w a).1 (s.enter c k w a).2 := by
  have hmiss : ((s.cache.entry k).getD (uckPageAllocEntry (c.owner k.1))).page = s.cache.page k := by
    rw [Cache.page]
    cases s.cache.entry k <;> rfl
  simp only [enter]
  split
  · exact .sigbus
  · obtain ⟨x, hx, -, hx'⟩ | ⟨-, ⟨-, ho⟩ | ho | ⟨hok, hf⟩⟩ := s.faultEnter_cases c k w a
    · have hhit : ∃ e inv, e.page = s.cache.page k ∧ s.faultEnter c k w a = .hit e inv := by
        rw [hx', Cache.page, hx]
        split
        · exact ⟨x.grantWrite, true, rfl, rfl⟩
        · exact ⟨x, false, rfl, rfl⟩
      obtain ⟨e, inv, he, heq⟩ := hhit
      rw [heq]
      cases hg : e.page with
      | none =>
        simp only [hg]
        exact .null he
      | some g =>
        simp only [hg]
        exact .hit he hg
    · rw [ho]
      exact .oom
    · rw [ho]
      exact .denied hmiss
    · rw [hf]
      exact .fetch hmiss hok

/-- A page of the batch that finds no entry is freed again. -/
theorem batchPage_of_fst_eq_false {ea : Bool} (h : (s.batchPage c k ea).1 = false) :
    (s.batchPage c k ea).2 = s.allocPage.freePage s.next := by
  obtain ⟨-, heq⟩ | ⟨old, -, heq⟩ | ⟨-, heq⟩ := batchPage_cases c s k ea
  · rw [heq]
  · rw [heq] at h
    cases h
  · rw [heq] at h
    cases h

theorem batchPage_next (ea : Bool) : (s.batchPage c k ea).2.next = s.next + 1 := by
  obtain ⟨-, h⟩ | ⟨old, -, h⟩ | ⟨-, h⟩ := batchPage_cases c s k ea <;> rw [h] <;> rfl

theorem install_next (w : Bool) (own : Nat) : (s.install k w own).next = s.next := by
  unfold install
  cases s.cache.entry k <;> rfl

theorem batchPage_mem (ea : Bool) : (s.batchPage c k ea).2.mem = s.mem := by
  obtain ⟨-, h⟩ | ⟨old, -, h⟩ | ⟨-, h⟩ := batchPage_cases c s k ea <;> rw [h] <;> rfl

/-- Freeing pages leaves the entries alone. -/
theorem foldl_freeEntry_cache (l : List Key) (s : Node) : (l.foldl freeEntry s).cache = s.cache := by
  induction l generalizing s with
  | nil => rfl
  | cons k l ih =>
    rw [List.foldl_cons, ih]
    unfold freeEntry
    cases s.cache.page k <;> rfl

/-- And the mappings. -/
theorem foldl_freeEntry_frame (l : List Key) (s : Node) :
    (l.foldl freeEntry s).mapped = s.mapped ∧ (l.foldl freeEntry s).next = s.next := by
  induction l generalizing s with
  | nil => exact ⟨rfl, rfl⟩
  | cons k l ih =>
    rw [List.foldl_cons, (ih _).1, (ih _).2, freeEntry]
    cases s.cache.page k <;> exact ⟨rfl, rfl⟩

/-- The counters after the pages of the entries were freed. -/
theorem foldl_freeEntry_mem (l : List Key) (s : Node) :
    (l.foldl freeEntry s).mem.currentPagesTotal =
        s.mem.currentPagesTotal - l.countP (fun k => (s.cache.page k).isSome) ∧
      (l.foldl freeEntry s).mem.maxPagesTotal = s.mem.maxPagesTotal := by
  induction l generalizing s with
  | nil => exact ⟨rfl, rfl⟩
  | cons k l ih =>
    have hcache : (freeEntry s k).cache = s.cache := foldl_freeEntry_cache [k] s
    rw [List.foldl_cons, (ih _).1, (ih _).2, hcache, List.countP_cons]
    unfold freeEntry
    cases s.cache.page k with
    | none => exact ⟨by simp, rfl⟩
    | some g =>
      simp only [Memctl.uckMemctlAccountFree, Memctl.unalert_currentPagesTotal, Memctl.unalert_maxPagesTotal,
        Option.isSome_some, if_true, and_true]
      omega

/-- The reference counts after the pages of the entries were freed. -/
theorem foldl_freeEntry_refs (l : List Key) (s : Node) (g : Nat) :
    (l.foldl freeEntry s).refs g = s.refs g - l.countP (fun k => s.cache.page k == some g) := by
  induction l generalizing s with
  | nil => simp
  | cons k l ih =>
    have hcache : (freeEntry s k).cache = s.cache := foldl_freeEntry_cache [k] s
    rw [List.foldl_cons, ih, hcache, List.countP_cons]
    unfold freeEntry
    cases s.cache.page k with
    | none => simp
    | some g' =>
      by_cases hg : g' = g
      · subst hg
        simp only [freePage, addRef, Function.update_self, BEq.rfl, if_true]
        omega
      · simp [freePage, addRef, Function.update_of_ne (Ne.symm hg), hg]

/-! ## What the sections do to tallies -/

theorem Enters.tally {r : Entered} {t : Node} (h : Enters c s k r t) (q : Option Nat → Bool) (hq : q none = false) :
    t.cache.tally q = s.cache.tally q := by
  cases h with
  | sigbus => rfl
  | hit he hg => exact Cache.tally_put_of_page he q hq
  | null he => exact Cache.tally_put_of_page he q hq
  | oom => rfl
  | denied he => exact Cache.tally_put_of_page he q hq
  | fetch he hok => exact Cache.tally_put_of_page he q hq

section Tally

variable (q : Option Nat → Bool) (hq : q none = false)

include hq

theorem batchPage_tally {ea : Bool} (h : (s.batchPage c k ea).1 = true) :
    (s.batchPage c k ea).2.cache.tally q + (q (s.cache.page k)).toNat = s.cache.tally q + (q (some s.next)).toNat := by
  rw [batchPage_cache, if_pos h]
  exact Cache.tally_put q hq

theorem afterBatch_tally {g : Nat} {t : Node} (h : s.afterBatch k w own = some (g, t)) :
    t.cache.tally q = s.cache.tally q := by
  obtain ⟨e, he, hg, hc⟩ := afterBatch_eq_some h
  subst hc
  refine Cache.tally_put_of_page ?_ q hq
  rw [freePage_cache, Cache.page, he]
  cases w <;> rfl

theorem install_tally (w : Bool) (own : Nat) {e : PageEntry Nat} (he : s.cache.entry k = some e) :
    (s.install k w own).cache.tally q + (q (s.cache.page k)).toNat = s.cache.tally q + (q (some own)).toNat := by
  rw [install_cache, he]
  exact Cache.tally_put q hq

theorem abort_tally : (s.abort k own).cache.tally q = s.cache.tally q := by
  rw [abort_eq]
  refine Cache.tally_set_of_page ?_ q hq
  intro e he
  obtain ⟨x, hx, rfl⟩ := Option.map_eq_some_iff.1 he
  rw [Cache.page, hx]
  simp only [uckFaultAbort, PageEntry.trySetState]
  split <;> rfl

theorem mkwrite_tally : (s.mkwrite k).cache.tally q = s.cache.tally q := by
  rw [mkwrite_eq]
  refine Cache.tally_set_of_page ?_ q hq
  intro e he
  rw [Cache.page]
  cases hx : s.cache.entry k with
  | none =>
    rw [hx] at he
    cases he
  | some x =>
    rw [hx] at he
    simp only [uckPageMkwrite] at he
    split at he <;> cases he <;> rfl

theorem invalidate_tally :
    (s.invalidate k).cache.tally q + (q (s.cache.page k)).toNat = s.cache.tally q := by
  rw [invalidate_eq]
  cases he : s.cache.entry k with
  | none => simp only [Option.map_none, Cache.set, Cache.page, he, Option.bind_none, hq, Bool.toNat_false, Nat.add_zero]
  | some e =>
    have hput := Cache.tally_put (c := s.cache) (k := k) (e := uckHandleInvalidate e) q hq
    rwa [uckHandleInvalidate, hq, Bool.toNat_false, Nat.add_zero] at hput

omit hq in
theorem leave_tally (n : Nat) : (s.leave c n).cache.tally q = s.cache.tally q := by
  refine Cache.tally_map (fun k e => ?_) q
  unfold leaveEntry
  split <;> rfl

end Tally

end Node

end UckSmp.Memory
