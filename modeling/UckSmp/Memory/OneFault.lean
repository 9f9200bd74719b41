import UckSmp.Memory.Faults

/-!
# One fault, alone

`uck_fault` from its first section to its return, when nothing else runs on the node: what the allocators, the batch
fetch and the single fetch do is its outcome.

* `receiveBatch_entry`: what a batch changes; `receiveBatch_head`: with one page it has brought the faulting one.
* `fault_leaves_consistent`: the cache after the fault, on every path.
* `reaches_uckFault`: the fault is a run of the node of `Memory.Faults`.
-/

namespace UckSmp.Memory

/-! ## The code -/

/-- What `uck_fault` returns: 0 with a page, an error, or nothing because it waits for a fetch that no one makes. -/
inductive FaultRet
  | page (g : Option Nat)
  | oom
  | sigbus
  | hang
  deriving DecidableEq, Repr

/-- What happens to a fault: its allocations, the pages of the batch that come, in the order of the list, each with the
result of `uck_page_alloc_entry` if it is called, and whether the fetch of the page alone succeeds. -/
structure FaultOutcome where
  allocs : Allocs
  delivered : List Bool
  fetched : Bool
  deriving DecidableEq, Repr

namespace Node

variable (c : Config)

/-- The pages of a batch are put into the cache: how many, and the node. -/
def receiveBatch (r : Nat) : List Nat → List Bool → Nat × Node → Nat × Node
  | j :: js, entryAlloc :: rest, (n, s) =>
    receiveBatch r js rest
      (if (s.batchPage c (r, j) entryAlloc).1 then n + 1 else n, (s.batchPage c (r, j) entryAlloc).2)
  | _, _, x => x

/-- The page is fetched alone, by `uck_net_fetch_page` or `uck_rdma_fetch_page`. -/
def fetchAlone (s : Node) (k : Key) (isWrite : Bool) (own : Nat) (ok : Bool) : FaultRet × Node :=
  if ok = true ∨ c.owner k.1 = c.self then (.page (some own), s.install k isWrite own)
  else (.sigbus, s.abort k own)

/-- `uck_fault` behind its first section. -/
def fetchPage (s : Node) (k : Key) (isWrite : Bool) (own : Nat) (o : FaultOutcome) : FaultRet × Node :=
  if c.rdma then s.fetchAlone c k isWrite own o.fetched
  else
    let (list, statics) := s.prefetchList c k
    let s := { s with statics }
    if 1 < list.length then
      let (n, s) := receiveBatch c k.1 list o.delivered (0, s)
      if 0 < n then
        match s.afterBatch k isWrite own with
        | some (g, s) => (.page (some g), s)
        | none => s.fetchAlone c k isWrite own o.fetched
      else s.fetchAlone c k isWrite own o.fetched
    else s.fetchAlone c k isWrite own o.fetched

/-- `uck_fault` at an offset of region `r`. -/
def uckFault (s : Node) (r offset : Nat) (isWrite : Bool) (o : FaultOutcome) : FaultRet × Node :=
  if c.size r ≤ offset then (.sigbus, s)
  else
    match s.enter c (r, offset / pageSize) isWrite o.allocs with
    | (.hit g, s) => (.page g, s)
    | (.wait, s) => (.hang, s)
    | (.oom, s) => (.oom, s)
    | (.sigbus, s) => (.sigbus, s)
    | (.fetch own, s) => s.fetchPage c (r, offset / pageSize) isWrite own o

/-! ## Statement -/

/-- The entries of a region between two faults. -/
def Settled (s : Node) (r : Nat) : Prop :=
  ∀ i e, s.cache.entry (r, i) = some e → e.state = .invalid ∨ e.state.Held ∧ e.page.isSome

/-- What a fault on a page leaves in the cache. -/
structure FaultLeaves (s : Node) (k : Key) (isWrite : Bool) (ret : FaultRet) (t : Node) : Prop where
  returns : ret ≠ .hang
  settled : ∀ i, stateOf (t.cache.entry (k.1, i)) ≠ .inTransit
  served : ∀ g, ret = .page g → ∃ e, t.cache.entry k = some e ∧ e.page = g ∧ g.isSome ∧ e.state.Held ∧
    (isWrite = true → e.state = .exclusive)
  failed : (∀ g, ret ≠ .page g) → stateOf (t.cache.entry k) = .invalid
  others : ∀ j ≠ k, t.cache.entry j = s.cache.entry j ∨
    stateOf (s.cache.entry j) = .invalid ∧ stateOf (t.cache.entry j) = .shared

variable {c} {s t : Node} {k : Key} {w : Bool} {own : Nat}

/-! ## The batch -/

/-- A page of a batch becomes `SHARED`, or finds no entry and leaves the cache alone. -/
theorem batchPage_entry (j k : Key) (ea : Bool) : (s.batchPage c j ea).2.cache.entry k = s.cache.entry k ∨
    k = j ∧ ∃ e g, (s.batchPage c j ea).2.cache.entry k = some e ∧ e.state = .shared ∧ e.page = some g := by
  rw [batchPage_cache]
  split
  · by_cases hk : k = j
    · subst hk
      exact .inr ⟨rfl, _, _, Cache.put_entry_self, rfl, rfl⟩
    · exact .inl (Cache.put_entry_of_ne hk)
  · exact .inl rfl

/-- **A batch** changes entries of its pages only, and makes them `SHARED`. -/
theorem receiveBatch_entry (r : Nat) (js : List Nat) (eas : List Bool) (x : Nat × Node) (k : Key) :
    (receiveBatch c r js eas x).2.cache.entry k = x.2.cache.entry k ∨ (∃ j ∈ js, k = (r, j)) ∧
      ∃ e g, (receiveBatch c r js eas x).2.cache.entry k = some e ∧ e.state = .shared ∧ e.page = some g := by
  induction js, eas, x using receiveBatch.induct c r with
  | case1 j js ea eas n s ih =>
    rw [receiveBatch]
    obtain hsame | ⟨⟨i, hi, hk⟩, hshared⟩ := ih
    · rw [hsame]
      obtain hpage | ⟨hk, hshared⟩ := batchPage_entry (r, j) k ea
      · exact .inl hpage
      · exact .inr ⟨⟨j, List.mem_cons_self, hk⟩, hshared⟩
    · exact .inr ⟨⟨i, List.mem_cons_of_mem _ hi, hk⟩, hshared⟩
  | case2 js eas x hne =>
    rw [receiveBatch]
    · exact .inl rfl
    · exact hne

theorem le_receiveBatch (r : Nat) (js : List Nat) (eas : List Bool) (x : Nat × Node) :
    x.1 ≤ (receiveBatch c r js eas x).1 := by
  induction js, eas, x using receiveBatch.induct c r with
  | case1 j js ea eas n s ih =>
    rw [receiveBatch]
    refine Nat.le_trans ?_ ih
    dsimp only
    split <;> omega
  | case2 js eas x hne =>
    rw [receiveBatch]
    exact hne

/-- A batch that begins with a page that has an entry: it brings nothing at all, or the page. -/
theorem receiveBatch_head {js : List Nat} (hk : k.2 ∉ js) (hpresent : (s.cache.entry k).isSome = true)
    (eas : List Bool) : receiveBatch c k.1 (k.2 :: js) eas (0, s) = (0, s) ∨
      0 < (receiveBatch c k.1 (k.2 :: js) eas (0, s)).1 ∧
        ∃ e g, (receiveBatch c k.1 (k.2 :: js) eas (0, s)).2.cache.entry k = some e ∧ e.state = .shared ∧
          e.page = some g := by
  cases eas with
  | nil => exact .inl rfl
  | cons ea eas =>
    have hfst : (s.batchPage c k ea).1 = true := batchPage_fst hpresent
    rw [receiveBatch, if_pos hfst]
    refine .inr ⟨Nat.lt_of_lt_of_le Nat.zero_lt_one (le_receiveBatch k.1 js eas (0 + 1, (s.batchPage c k ea).2)), ?_⟩
    obtain hsame | ⟨⟨j, hj, hkj⟩, -⟩ := receiveBatch_entry k.1 js eas (0 + 1, (s.batchPage c k ea).2) k
    · refine ⟨batchInstall (c.owner k.1) s.next (s.cache.entry k), s.next, hsame.trans ?_, rfl, rfl⟩
      dsimp only
      rw [batchPage_cache, if_pos hfst]
      exact Cache.put_entry_self
    · exact absurd (congrArg Prod.snd hkj ▸ hj) hk

/-! ## The paths -/

/-- How a fault ends, at its own page. -/
inductive Ends (k : Key) (w : Bool) (t : Node) : FaultRet → Prop
  | page {e : PageEntry Nat} {g : Nat} (he : t.cache.entry k = some e) (hg : e.page = some g) (hs : e.state.Held)
      (hw : w = true → e.state = .exclusive) : Ends k w t (.page (some g))
  | oom (hs : stateOf (t.cache.entry k) = .invalid) : Ends k w t .oom
  | sigbus (hs : stateOf (t.cache.entry k) = .invalid) : Ends k w t .sigbus

/-- The other entries: a page that was not valid may have become `SHARED`. -/
def Spared (k : Key) (s t : Node) : Prop := ∀ j ≠ k, t.cache.entry j = s.cache.entry j ∨
  stateOf (s.cache.entry j) = .invalid ∧ stateOf (t.cache.entry j) = .shared

theorem Spared.of_entry (h : ∀ j ≠ k, t.cache.entry j = s.cache.entry j) : Spared k s t := fun j hj => .inl (h j hj)

theorem FaultLeaves.of_ends {ret : FaultRet} (hs : s.Settled k.1) (h : Ends k w t ret) (hj : Spared k s t) :
    FaultLeaves s k w ret t := by
  have hnot : stateOf (t.cache.entry k) ≠ .inTransit := by
    cases h with
    | page he hg hs hw =>
      rw [he, stateOf_some]
      rintro htransit
      rw [htransit] at hs
      exact absurd hs (by decide)
    | oom hs =>
      rw [hs]
      decide
    | sigbus hs =>
      rw [hs]
      decide
  refine ⟨?_, fun i => ?_, ?_, ?_, hj⟩
  · rintro rfl
    cases h
  · by_cases hi : (k.1, i) = k
    · rwa [hi]
    · obtain hsame | ⟨-, hshared⟩ := hj _ hi
      · rw [hsame]
        cases he : s.cache.entry (k.1, i) with
        | none => decide
        | some e =>
          rw [stateOf_some]
          rintro htransit
          have hentry := hs i e he
          rw [htransit] at hentry
          exact absurd hentry (by simp [PageState.Held])
      · rw [hshared]
        decide
  · rintro g rfl
    cases h with
    | page he hg hs hw => exact ⟨_, he, hg, rfl, hs, hw⟩
  · intro hret
    cases h with
    | page => exact absurd rfl (hret _)
    | oom hs => exact hs
    | sigbus hs => exact hs

/-- The page fetched alone. -/
theorem fetchAlone_ends (c : Config) (w : Bool) (own : Nat) (hs : stateOf (s.cache.entry k) = .inTransit)
    (ok : Bool) :
    Ends k w (s.fetchAlone c k w own ok).2 (s.fetchAlone c k w own ok).1 ∧
      ∀ j ≠ k, (s.fetchAlone c k w own ok).2.cache.entry j = s.cache.entry j := by
  obtain ⟨e, he, hstate⟩ := exists_of_stateOf hs (by decide)
  unfold fetchAlone
  split
  · refine ⟨.page (e := uckFaultInstall w own e) ?_ rfl ?_ ?_, fun j hj => ?_⟩
    · rw [install_cache, he]
      exact Cache.put_entry_self
    · rw [uckFaultInstall_state]
      cases w <;> decide
    · rintro rfl
      rfl
    · rw [install_cache, Cache.set_entry_of_ne hj]
  · refine ⟨.sigbus ?_, fun j hj => ?_⟩
    · rw [abort_eq, he]
      show stateOf ((s.cache.put k (uckFaultAbort e)).entry k) = _
      rw [Cache.put_entry_self, stateOf_some, uckFaultAbort, PageEntry.trySetState, if_pos hstate]
    · rw [abort_eq]
      exact Cache.set_entry_of_ne hj

/-- The faulting page has come with the batch. -/
theorem afterBatch_ends (w : Bool) (own : Nat) {e : PageEntry Nat} {g : Nat} (he : s.cache.entry k = some e)
    (hs : e.state = .shared) (hg : e.page = some g) : ∃ t, s.afterBatch k w own = some (g, t) ∧
      Ends k w t (.page (some g)) ∧ ∀ j ≠ k, t.cache.entry j = s.cache.entry j := by
  refine ⟨((s.freePage own).put k (if w then e.grantWrite else e)).returnPage g, ?_, ?_, fun j hj => ?_⟩
  · cases w <;> simp [afterBatch, uckFaultAfterBatch, he, hg]
  · refine .page (e := if w then e.grantWrite else e) Cache.put_entry_self ?_ ?_ ?_
    · cases w <;> exact hg
    · cases w with
      | false => exact .inl hs
      | true => exact .inr rfl
    · rintro rfl
      rfl
  · exact Cache.put_entry_of_ne hj

/-- **Behind the first section**: the page has been marked `IN_TRANSIT`. -/
theorem fetchPage_ends (hs : stateOf (s.cache.entry k) = .inTransit) (o : FaultOutcome) :
    Ends k w (s.fetchPage c k w own o).2 (s.fetchPage c k w own o).1 ∧ Spared k s (s.fetchPage c k w own o).2 := by
  have halone : ∀ {u : Node}, u.cache = s.cache →
      Ends k w (u.fetchAlone c k w own o.fetched).2 (u.fetchAlone c k w own o.fetched).1 ∧
        Spared k s (u.fetchAlone c k w own o.fetched).2 := by
    intro u hu
    obtain ⟨hends, hsame⟩ := fetchAlone_ends c w own (hu ▸ hs : stateOf (u.cache.entry k) = _) o.fetched
    rw [hu] at hsame
    exact ⟨hends, .of_entry hsame⟩
  obtain ⟨rest, hlist, hrest⟩ := prefetchList_eq_cons c s k
  have hmem : ∀ j ∈ rest, stateOf (s.cache.entry (k.1, j)) = .invalid := by
    intro j hj
    obtain rfl | hinvalid := of_mem_prefetchList (c := c) (hlist ▸ List.mem_cons_of_mem _ hj)
    · exact absurd hj hrest
    · exact hinvalid
  unfold fetchPage
  split
  next => exact halone rfl
  next =>
    dsimp only
    rw [hlist]
    split
    next =>
      have hpresent : (s.cache.entry k).isSome = true := by
        obtain ⟨e, he, -⟩ := exists_of_stateOf hs (by decide)
        rw [he]
        rfl
      obtain hnone | ⟨hpos, e, g, he, hshared, hg⟩ := @receiveBatch_head c
        { s with statics := (s.prefetchList c k).2 } k rest hrest hpresent o.delivered
      · rw [hnone, if_neg (Nat.lt_irrefl 0)]
        exact halone rfl
      · rw [if_pos hpos]
        obtain ⟨t, ht, hends, hsame⟩ := afterBatch_ends w own he hshared hg
        rw [ht]
        refine ⟨hends, fun j hj => ?_⟩
        rw [hsame j hj]
        obtain hleft | ⟨⟨i, hi, rfl⟩, e, g, he, hshared, -⟩ := receiveBatch_entry (c := c) k.1 (k.2 :: rest) o.delivered
          (0, { s with statics := (s.prefetchList c k).2 }) j
        · exact .inl hleft
        · obtain rfl | hi := List.mem_cons.1 hi
          · exact absurd rfl hj
          · refine .inr ⟨hmem i hi, ?_⟩
            rw [he]
            exact hshared
    next => exact halone rfl

/-- **A fault leaves the cache consistent** on every path: nothing stays `IN_TRANSIT`, the faulted entry holds the page
that was returned or is not valid, and all other entries are spared. -/
theorem fault_leaves_consistent {r offset : Nat} (hin : offset < c.size r) (hs : s.Settled r) (w : Bool)
    (o : FaultOutcome) : FaultLeaves s (r, offset / pageSize) w (s.uckFault c r offset w o).1
      (s.uckFault c r offset w o).2 := by
  have hk : (r, offset / pageSize).2 * pageSize < c.size (r, offset / pageSize).1 :=
    Nat.lt_of_le_of_lt (Nat.div_mul_le_self offset pageSize) hin
  have hs : s.Settled (r, offset / pageSize).1 := hs
  have hcache := enter_cache (s := s) (w := w) (a := o.allocs) hk
  rw [uckFault, if_neg (Nat.not_le.2 hin)]
  generalize (r, offset / pageSize) = k at *
  by_cases hmiss : stateOf (s.cache.entry k) = .invalid
  · -- what the first section leaves of the other entries
    have hsame : ∀ j ≠ k, (s.enter c k w o.allocs).2.cache.entry j = s.cache.entry j := by
      intro j hj
      rw [hcache, Cache.set_entry_of_ne hj]
    obtain ⟨t, ht, hinvalid⟩ | ⟨t, ht, htransit⟩ := enter_invalid (w := w) (a := o.allocs) hk hmiss
    · rw [ht] at hsame ⊢
      exact .of_ends hs (.oom hinvalid) (.of_entry hsame)
    · rw [ht] at hsame ⊢
      obtain ⟨hends, hspared⟩ := fetchPage_ends (c := c) (w := w) htransit o
      refine .of_ends hs hends fun j hj => ?_
      rw [← hsame j hj]
      exact hspared j hj
  · obtain ⟨e, he, -⟩ := exists_of_stateOf rfl hmiss
    rw [he, stateOf_some] at hmiss
    obtain hinvalid | ⟨hheld, hpage⟩ := hs k.2 e he
    · exact absurd hinvalid hmiss
    · obtain ⟨g, hg⟩ := Option.isSome_iff_exists.1 hpage
      rw [enter_valid hk he hmiss hg]
      refine .of_ends hs (.page (e := if w = true ∧ e.state = .shared then e.grantWrite else e)
        Cache.put_entry_self ?_ ?_ ?_) (.of_entry fun j hj => Cache.put_entry_of_ne hj)
      · split <;> exact hg
      · split
        · exact .inr rfl
        · exact hheld
      · rintro rfl
        by_cases hshared : e.state = .shared
        · rw [if_pos ⟨rfl, hshared⟩]
          rfl
        · rw [if_neg fun h => hshared h.2]
          exact hheld.resolve_left hshared

/-- A node with a copy of page 0 and an invalid entry for page 1. -/
def twoEntries : Node where
  cache := (Cache.empty.put (0, 0) ⟨some 0, .shared, 2, false⟩).put (0, 1) ⟨none, .invalid, 2, false⟩
  next := 1
  mem := Memctl.uckMemctlInit {}

theorem twoEntries_settled : twoEntries.Settled 0 := by
  intro i e he
  by_cases h1 : ((0, i) : Key) = (0, 1)
  · rw [h1] at he
    obtain rfl := Option.some.inj he
    exact .inl rfl
  · rw [twoEntries, Cache.put_entry_of_ne h1] at he
    by_cases h0 : ((0, i) : Key) = (0, 0)
    · rw [h0] at he
      obtain rfl := Option.some.inj he
      exact .inr ⟨.inl rfl, rfl⟩
    · rw [Cache.put_entry_of_ne h0] at he
      cases he

/-- A write fault on page 1; the batch brings it and one of its neighbours. -/
theorem write_fault_leaves :
    (twoEntries.uckFault (Faults.client 4) 0 5000 true ⟨⟨true, true⟩, [true, true], false⟩).1 = .page (some 2) ∧
      FaultLeaves twoEntries (0, 1) true
        (twoEntries.uckFault (Faults.client 4) 0 5000 true ⟨⟨true, true⟩, [true, true], false⟩).1
        (twoEntries.uckFault (Faults.client 4) 0 5000 true ⟨⟨true, true⟩, [true, true], false⟩).2 :=
  ⟨by decide +kernel, fault_leaves_consistent (by decide : 5000 < (Faults.client 4).size 0) twoEntries_settled true _⟩

end Node

/-! ## The node of the other modules -/

namespace Faults

open Lib.Transition

variable {c : Config} {x y : Sys} {k : Key} {w : Bool} {own : Nat}

/-- The fault has returned. -/
structure Returned (x : Sys) (k : Key) (ret : FaultRet × Node) (y : Sys) : Prop where
  node : y.node = ret.2
  threads : y.threads = []
  returned : y.returned = match ret.1 with
    | .page g => (k, g) :: x.returned
    | _ => x.returned

/-- The last step of a fetch. -/
theorem step_complete (hx : x.threads = [⟨k, w, .fetching own⟩]) (ok : Bool) :
    ∃ y, step c x (.thread 0 (.complete ok)) = some y ∧ Returned x k (x.node.fetchAlone c k w own ok) y := by
  refine ⟨x.complete 0 ⟨k, w, .fetching own⟩ c own ok, by simp [step, hx, Sys.act], ?_⟩
  unfold Node.fetchAlone
  split
  next hok =>
    rw [Sys.complete_of_ok hok]
    exact ⟨rfl, by simp [Sys.finish, hx], rfl⟩
  next hno =>
    rw [Sys.complete_of_not hno]
    exact ⟨rfl, by simp [Sys.fail, hx], rfl⟩

/-- The pages of a batch come one after the other. -/
theorem reaches_receiveBatch (js : List Nat) (eas : List Bool) (n : Nat) (hx : x.threads = [⟨k, w, .batch own js n⟩]) :
    ∃ y rest, Reaches (step c) x y ∧ y.node = (Node.receiveBatch c k.1 js eas (n, x.node)).2 ∧
      y.threads = [⟨k, w, .batch own rest (Node.receiveBatch c k.1 js eas (n, x.node)).1⟩] ∧
      y.returned = x.returned := by
  induction js generalizing x eas n with
  | nil => exact ⟨x, [], .refl x, rfl, hx, rfl⟩
  | cons j js ih =>
    cases eas with
    | nil => exact ⟨x, j :: js, .refl x, rfl, hx, rfl⟩
    | cons ea eas =>
      have hstep : step c x (.thread 0 (.receive ea)) =
          some (x.receive 0 ⟨k, w, .batch own (j :: js) n⟩ c own j js n ea) := by simp [step, hx, Sys.act]
      have hthreads : (x.receive 0 ⟨k, w, .batch own (j :: js) n⟩ c own j js n ea).threads =
          [⟨k, w, .batch own js (if (x.node.batchPage c (k.1, j) ea).1 then n + 1 else n)⟩] ∧
          (x.receive 0 ⟨k, w, .batch own (j :: js) n⟩ c own j js n ea).returned = x.returned := by
        rw [Sys.receive_eq]
        dsimp only
        split
        · exact ⟨by simp [Sys.setPhase, hx], rfl⟩
        · exact ⟨by simp [Sys.setPhase, hx], rfl⟩
      obtain ⟨y, rest, hrun, hy, hrest, hret⟩ := ih eas _ hthreads.1
      rw [Sys.receive_node] at hy hrest
      exact ⟨y, rest, (Reaches.of_step hstep).trans hrun, hy, hrest, hret.trans hthreads.2⟩

/-- The page is asked for alone. -/
theorem reaches_single (c : Config) (own : Nat) {th : Thread} (hy : y.threads = [th]) (hret : y.returned = x.returned)
    (ok : Bool) : ∃ z, Reaches (step c) (y.single 0 th own) z ∧
      Returned x th.key (y.node.fetchAlone c th.key th.isWrite own ok) z := by
  have hsingle : (y.single 0 th own).threads = [⟨th.key, th.isWrite, .fetching own⟩] := by
    simp [Sys.single, Sys.setPhase, hy]
  obtain ⟨z, hstep, hz⟩ := step_complete (c := c) hsingle ok
  refine ⟨z, .of_step hstep, hz.node, hz.threads, hz.returned.trans ?_⟩
  rw [show (y.single 0 th own).returned = x.returned from hret]
  rfl

/-- The end of a batch. -/
theorem reaches_batchEnd (rest : List Nat) (n : Nat) (hy : y.threads = [⟨k, w, .batch own rest n⟩])
    (hret : y.returned = x.returned) (ok : Bool) : ∃ z, Reaches (step c) y z ∧ Returned x k
      (if 0 < n then
        match y.node.afterBatch k w own with
        | some (g, s) => (.page (some g), s)
        | none => y.node.fetchAlone c k w own ok
      else y.node.fetchAlone c k w own ok) z := by
  have hstep : step c y (.thread 0 .batchEnd) = some (if 0 < n then
      y.setPhase 0 ⟨k, w, .batch own rest n⟩ (.batched own) else y.single 0 ⟨k, w, .batch own rest n⟩ own) := by
    cases rest <;> simp [step, hy, Sys.act]
  split
  next hn =>
    rw [if_pos hn] at hstep
    have hphase : (y.setPhase 0 ⟨k, w, .batch own rest n⟩ (.batched own)).threads = [⟨k, w, .batched own⟩] := by
      simp [Sys.setPhase, hy]
    have hcheck : step c (y.setPhase 0 ⟨k, w, .batch own rest n⟩ (.batched own)) (.thread 0 .recheck) =
        some ((y.setPhase 0 ⟨k, w, .batch own rest n⟩ (.batched own)).recheck 0 ⟨k, w, .batched own⟩ own) := by
      simp [step, hphase, Sys.act]
    have hreach := (Reaches.of_step hstep).trans (.of_step hcheck)
    unfold Sys.recheck at hreach
    cases hafter : y.node.afterBatch k w own with
    | some r =>
      rw [show (y.setPhase 0 ⟨k, w, .batch own rest n⟩ (.batched own)).node = y.node from rfl] at hreach
      rw [hafter] at hreach
      exact ⟨_, hreach, rfl, by simp [Sys.finish, hphase], congrArg _ hret⟩
    | none =>
      rw [show (y.setPhase 0 ⟨k, w, .batch own rest n⟩ (.batched own)).node = y.node from rfl] at hreach
      rw [hafter] at hreach
      obtain ⟨z, hz, hreturned⟩ := reaches_single (x := x) c own hphase hret ok
      exact ⟨z, hreach.trans hz, hreturned⟩
  next hn =>
    rw [if_neg hn] at hstep
    obtain ⟨z, hz, hreturned⟩ := reaches_single (x := x) c own hy hret ok
    exact ⟨z, (Reaches.of_step hstep).trans hz, hreturned⟩

/-- The pages of a list are asked for. -/
theorem step_request_batch (hx : x.threads = [⟨k, w, .entered own⟩]) (hrdma : ¬ c.rdma = true)
    (hlist : 1 < (x.node.prefetchList c k).1.length) : ∃ y, step c x (.thread 0 .request) = some y ∧
      y.node = { x.node with statics := (x.node.prefetchList c k).2 } ∧
      y.threads = [⟨k, w, .batch own (x.node.prefetchList c k).1 0⟩] ∧ y.returned = x.returned := by
  refine ⟨x.request 0 ⟨k, w, .entered own⟩ c own, by simp [step, hx, Sys.act], ?_⟩
  unfold Sys.request
  dsimp only
  rw [if_neg hrdma, if_pos hlist]
  exact ⟨rfl, by simp [Sys.setPhase, hx], rfl⟩

/-- Or the faulting page alone. -/
theorem step_request_single (hx : x.threads = [⟨k, w, .entered own⟩])
    (hsingle : c.rdma = true ∨ ¬ 1 < (x.node.prefetchList c k).1.length) :
    ∃ y : Sys, step c x (.thread 0 .request) = some (y.single 0 ⟨k, w, .entered own⟩ own) ∧
      y.node = (if c.rdma then x.node else { x.node with statics := (x.node.prefetchList c k).2 }) ∧
      y.threads = x.threads ∧ y.returned = x.returned := by
  have hstep : step c x (.thread 0 .request) = some (x.request 0 ⟨k, w, .entered own⟩ c own) := by
    simp [step, hx, Sys.act]
  unfold Sys.request at hstep
  dsimp only at hstep
  split at hstep
  next hrdma =>
    rw [if_pos hrdma]
    exact ⟨x, hstep, rfl, rfl, rfl⟩
  next hrdma =>
    rw [if_neg (hsingle.resolve_left hrdma)] at hstep
    rw [if_neg hrdma]
    exact ⟨_, hstep, rfl, rfl, rfl⟩

/-- The part of a fault behind its first section. -/
theorem reaches_fetchPage (hx : x.threads = [⟨k, w, .entered own⟩]) (o : FaultOutcome) :
    ∃ y, Reaches (step c) x y ∧ Returned x k (x.node.fetchPage c k w own o) y := by
  by_cases hsingle : c.rdma = true ∨ ¬ 1 < (x.node.prefetchList c k).1.length
  · obtain ⟨y, hstep, hnode, hthreads, hret⟩ := step_request_single hx hsingle
    obtain ⟨z, hz, hreturned⟩ := reaches_single (x := x) c own (hthreads.trans hx) hret o.fetched
    have hfetch : x.node.fetchPage c k w own o = y.node.fetchAlone c k w own o.fetched := by
      rw [hnode]
      unfold Node.fetchPage
      split
      next => rfl
      next hrdma =>
        dsimp only
        rw [if_neg (hsingle.resolve_left hrdma)]
    rw [hfetch]
    exact ⟨z, (Reaches.of_step hstep).trans hz, hreturned⟩
  · rw [not_or, not_not] at hsingle
    obtain ⟨hrdma, hlist⟩ := hsingle
    obtain ⟨u, hstep, hnode, hthreads, hret⟩ := step_request_batch hx hrdma hlist
    obtain ⟨y, rest, hreach, hnode', hthreads', hret'⟩ := reaches_receiveBatch (c := c) _ o.delivered 0 hthreads
    obtain ⟨z, hz, hreturned⟩ := reaches_batchEnd (c := c) (x := x) rest _ hthreads' (hret'.trans hret) o.fetched
    rw [hnode', hnode] at hreturned
    unfold Node.fetchPage
    rw [if_neg hrdma]
    dsimp only
    rw [if_pos hlist]
    exact ⟨z, (Reaches.of_step hstep).trans (hreach.trans hz), hreturned⟩

/-- **A fault is a run** of the node, of one thread from its first section to its return. -/
theorem reaches_uckFault (hx : x.threads = []) {r offset : Nat} (hin : offset < c.size r) (w : Bool)
    (o : FaultOutcome) :
    (x.node.uckFault c r offset w o).1 = .hang ∨
      ∃ y, Reaches (step c) x y ∧ Returned x (r, offset / pageSize) (x.node.uckFault c r offset w o) y := by
  have hstep : step c x (.fault (r, offset / pageSize) w o.allocs) =
      some (x.fault c (r, offset / pageSize) w o.allocs) := rfl
  unfold Node.uckFault
  unfold Sys.fault at hstep
  rw [if_neg (Nat.not_le.2 hin)]
  rcases hentered : x.node.enter c (r, offset / pageSize) w o.allocs with ⟨entered, node⟩
  rw [hentered] at hstep
  cases entered with
  | hit g => exact .inr ⟨_, .of_step hstep, rfl, hx, rfl⟩
  | wait => exact .inl rfl
  | oom => exact .inr ⟨_, .of_step hstep, rfl, hx, rfl⟩
  | sigbus => exact .inr ⟨_, .of_step hstep, rfl, hx, rfl⟩
  | fetch own =>
    dsimp only at hstep
    rw [hx, List.nil_append] at hstep
    obtain ⟨y, hy, hreturned⟩ := reaches_fetchPage (c := c) (x := { x with node, threads := [⟨_, w, .entered own⟩] })
      rfl o
    exact .inr ⟨y, (Reaches.of_step hstep).trans hy, hreturned.node, hreturned.threads, hreturned.returned⟩

end Faults

end UckSmp.Memory
