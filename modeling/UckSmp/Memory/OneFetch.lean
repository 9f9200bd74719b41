import UckSmp.Memory.Faults

/-!
# Concurrent faults on one page

Any number of threads fault on a page that is not cached, and its fetch succeeds. The entry is `IN_TRANSIT` from the
first section of the first fault until its page is there. `uck_fault` looks for that state only after it has served
every entry that is not `INVALID`, so a fault that comes in meanwhile is a hit on an entry without a page.

* `one_fetch`: if no fault comes in while the page is in transit, one fetch is issued and all faults return its page.
-/

namespace UckSmp.Memory.Faults

open Lib.Transition

variable {c : Config} {p : Key} {s t : Sys} {e : Ev} {w : Bool} {a : Allocs}

/-! ## Statement -/

/-- The fetch that a batch belongs to has succeeded: some page came. -/
def BatchSucceeded : Phase → Prop
  | .batch _ _ fetched => 0 < fetched
  | _ => True

instance : DecidablePred BatchSucceeded
  | .batch _ _ fetched => inferInstanceAs (Decidable (0 < fetched))
  | .waiting => .isTrue trivial
  | .entered _ => .isTrue trivial
  | .batched _ => .isTrue trivial
  | .fetching _ => .isTrue trivial

/-- The steps of faults on the page `p` whose fetches succeed. -/
def FaultsOn (p : Key) (s : Sys) : Ev → Prop
  | .fault k _ _ => k = p
  | .thread i .batchEnd => ∀ x ∈ s.threads[i]?, BatchSucceeded x.phase
  | .thread _ (.complete ok) => ok = true
  | .thread _ _ => True
  | _ => False

/-- No fault comes in while its page is in transit. -/
def NotInTransit (s : Sys) : Ev → Prop
  | .fault k _ _ => stateOf (s.node.cache.entry k) ≠ .inTransit
  | _ => True

instance : Decidable (FaultsOn p s e) :=
  match e with
  | .fault k _ _ => inferInstanceAs (Decidable (k = p))
  | .thread i .batchEnd => inferInstanceAs (Decidable (∀ x ∈ s.threads[i]?, BatchSucceeded x.phase))
  | .thread _ (.complete ok) => inferInstanceAs (Decidable (ok = true))
  | .thread _ .wake | .thread _ .request | .thread _ (.receive _) | .thread _ .recheck => .isTrue trivial
  | .mkwrite _ | .invalidate _ | .leave _ | .unmap _ | .quorum _ | .teardown => .isFalse id

instance : Decidable (NotInTransit s e) :=
  match e with
  | .fault k _ _ => inferInstanceAs (Decidable (stateOf (s.node.cache.entry k) ≠ .inTransit))
  | .thread .. | .mkwrite _ | .invalidate _ | .leave _ | .unmap _ | .quorum _ | .teardown => .isTrue trivial

/-- Nothing has happened yet, and the page is not cached. -/
structure Uncached (p : Key) (s : Sys) : Prop where
  threads : s.threads = []
  issued : s.issued = []
  installs : s.installs = []
  returned : s.returned = []
  state : stateOf (s.node.cache.entry p) = .invalid

/-- What fetches put into the entry of the page. -/
def installsOf (p : Key) (s : Sys) : List (Key × Nat) := s.installs.filter fun x => x.1 = p

/-- At most one fetch of the page is issued, and exactly one when a fault has returned 0: that fault returned the page
which this fetch installed. -/
def OneFetch (p : Key) (s : Sys) : Prop :=
  s.issued.count p ≤ 1 ∧
    ∀ k r, (k, r) ∈ s.returned → s.issued.count p = 1 ∧ ∃ g, installsOf p s = [(p, g)] ∧ r = some g

/-! ## Invariant -/

/-- A fault that has not got its page, with the number of fetches issued. -/
def Asked (p : Key) (n : Nat) : Phase → Prop
  | .entered _ => n = 0
  | .batch _ list fetched => n = 1 ∧ fetched = 0 ∧ ∃ rest, list = p.2 :: rest ∧ p.2 ∉ rest
  | .fetching _ => n = 1
  | _ => False

/-- A fault that got its page with the batch. -/
def Got (p : Key) : Phase → Prop
  | .batch _ rest fetched => 0 < fetched ∧ p.2 ∉ rest
  | .batched _ => True
  | _ => False

/-- How far the faults are: the page is not cached, one fault is fetching it, or it is there. -/
inductive Progress (p : Key) (s : Sys) : Prop
  | idle (hs : stateOf (s.node.cache.entry p) = .invalid) (ht : s.threads = []) (hi : s.issued.count p = 0)
      (hn : installsOf p s = []) (hr : s.returned = [])
  | fetching (hs : stateOf (s.node.cache.entry p) = .inTransit) (x : Thread) (ht : s.threads = [x]) (hk : x.key = p)
      (hx : Asked p (s.issued.count p) x.phase) (hn : installsOf p s = []) (hr : s.returned = [])
  | cached (y : PageEntry Nat) (g : Nat) (hy : s.node.cache.entry p = some y) (hg : y.page = some g)
      (hs : y.state ≠ .invalid ∧ y.state ≠ .inTransit) (ht : ∀ x ∈ s.threads, x.key = p ∧ Got p x.phase)
      (hi : s.issued.count p = 1) (hn : installsOf p s = [(p, g)]) (hr : ∀ k r, (k, r) ∈ s.returned → r = some g)

theorem Progress.oneFetch (h : Progress p s) : OneFetch p s := by
  cases h with
  | idle hs ht hi hn hr => exact ⟨by omega, by simp [hr]⟩
  | fetching hs x ht hk hx hn hr =>
    refine ⟨?_, by simp [hr]⟩
    obtain ⟨key, w, phase⟩ := x
    cases phase with
    | entered own =>
      have h0 : s.issued.count p = 0 := hx
      omega
    | fetching own => exact Nat.le_of_eq hx
    | batch own list n => exact Nat.le_of_eq hx.1
    | _ => exact hx.elim
  | cached y g hy hg hs ht hi hn hr => exact ⟨by omega, fun k r hkr => ⟨hi, g, hn, hr k r hkr⟩⟩

theorem Uncached.progress (h : Uncached p s) : Progress p s :=
  .idle h.state h.threads (by rw [h.issued]; rfl) (by rw [installsOf, h.installs]; rfl) h.returned

/-! ## Steps -/

/-- A fault comes in. -/
theorem Progress.fault (h : Progress p s) (hg : NotInTransit s (.fault p w a)) : Progress p (s.fault c p w a) := by
  by_cases hin : p.2 * pageSize < c.size p.1
  · cases h with
    | idle hs ht hi hn hr =>
      rcases Node.enter_invalid (w := w) (a := a) hin hs with ⟨t, henter, hs'⟩ | ⟨t, henter, hs'⟩
      · simp only [Sys.fault, henter]
        exact .idle hs' ht hi hn hr
      · simp only [Sys.fault, henter]
        exact .fetching hs' ⟨p, w, .entered s.node.next⟩ (by rw [ht]; rfl) rfl hi hn hr
    | fetching hs x ht hk hx hn hr => exact absurd hs hg
    | cached y g hy hpage hs ht hi hn hr =>
      simp only [Sys.fault, Node.enter_valid (w := w) (a := a) hin hy hs.1 hpage]
      refine .cached _ g Cache.put_entry_self ?_ ?_ ht hi hn ?_
      · split <;> exact hpage
      · split
        · exact ⟨PageState.noConfusion, PageState.noConfusion⟩
        · exact hs
      · intro k r hkr
        rcases List.mem_cons.1 hkr with hkr | hkr
        · cases hkr
          rfl
        · exact hr k r hkr
  · simp only [Sys.fault, Node.enter_outside hin]
    exact h

/-- The request for the page alone. -/
theorem progress_single {x : Thread} (hs : stateOf (s.node.cache.entry x.key) = .inTransit) (ht : s.threads = [x])
    (hi : s.issued.count x.key = 0) (hn : installsOf x.key s = []) (hr : s.returned = []) (own : Nat) :
    Progress x.key (s.single 0 x own) := by
  refine .fetching hs { x with phase := .fetching own } ?_ rfl ?_ hn hr
  · simp only [Sys.single, Sys.setPhase, ht, List.set_cons_zero]
  · simp only [Sys.single, List.count_cons_self, hi, Asked]

/-- The request of the fault that missed. -/
theorem progress_request {x : Thread} (hs : stateOf (s.node.cache.entry x.key) = .inTransit) (ht : s.threads = [x])
    (hi : s.issued.count x.key = 0) (hn : installsOf x.key s = []) (hr : s.returned = []) (own : Nat) :
    Progress x.key (s.request 0 x c own) := by
  simp only [Sys.request]
  split
  · exact progress_single hs ht hi hn hr own
  · split
    · obtain ⟨rest, hlist, hrest⟩ := s.node.prefetchList_eq_cons c x.key
      refine .fetching hs { x with phase := .batch own (x.key.2 :: rest) 0 } ?_ rfl ⟨?_, rfl, rest, rfl, hrest⟩ hn hr
      · simp only [Sys.setPhase, ht, hlist, List.set_cons_zero]
      · have hno : x.key ∉ rest.map (x.key.1, ·) := by
          intro hmem
          obtain ⟨j, hj, hjk⟩ := List.mem_map.1 hmem
          exact hrest (by rwa [← hjk])
        rw [hlist, List.count_append, hi, List.map_cons, List.count_cons_self, List.count_eq_zero.2 hno]
    · apply progress_single <;> assumption

/-- The fault that is fetching the page goes on. -/
theorem progress_of_asked {i : Nat} {x : Thread} {act : Act} (hs : stateOf (s.node.cache.entry x.key) = .inTransit)
    (ht : s.threads = [x]) (hx : Asked x.key (s.issued.count x.key) x.phase) (hn : installsOf x.key s = [])
    (hr : s.returned = []) (hi : s.threads[i]? = some x) (hok : FaultsOn x.key s (.thread i act))
    (h : Acts c s i x x.phase act t) : Progress x.key t := by
  obtain ⟨y, hy, -⟩ := exists_of_stateOf hs (by decide)
  have hi0 : i = 0 := by
    have hlt := (List.getElem?_eq_some_iff.1 hi).1
    rw [ht, List.length_singleton] at hlt
    omega
  subst hi0
  obtain ⟨p, w, phase⟩ := x
  cases h with
  | wake h => exact hx.elim
  | sigbus => exact hx.elim
  | request own => exact progress_request hs ht hx hn hr own
  | receive own j rest n ea =>
    obtain ⟨hcount, rfl, tail, hlist, hrest⟩ := hx
    obtain ⟨hj, rfl⟩ : j = p.2 ∧ rest = tail := List.cons.inj hlist
    subst hj
    have hfst : (s.node.batchPage c p ea).1 = true := Node.batchPage_fst (by rw [hy]; rfl)
    have hput := Node.batchPage_cache (c := c) (s := s.node) (k := p) ea
    rw [hfst, if_pos rfl] at hput
    rw [Sys.receive_eq, if_pos hfst]
    refine .cached (batchInstall (c.owner p.1) s.node.next (s.node.cache.entry p)) s.node.next ?_ rfl
      ⟨PageState.noConfusion, PageState.noConfusion⟩ ?_ hcount ?_ ?_
    · exact hput ▸ Cache.put_entry_self
    · simp only [Sys.setPhase, ht, List.set_cons_zero, List.mem_singleton]
      rintro x rfl
      exact ⟨rfl, Nat.one_pos, hrest⟩
    · simp only [installsOf, List.filter_cons, decide_true, if_true]
      exact congrArg _ hn
    · intro k r hkr
      exact absurd (hr ▸ hkr) List.not_mem_nil
  | batchEnd own rest h0 =>
    obtain ⟨-, rfl, -⟩ := hx
    exact absurd h0 (Nat.lt_irrefl 0)
  | batchFailed own rest => exact absurd (hok _ hi) (Nat.lt_irrefl 0)
  | recheck own => exact hx.elim
  | complete own ok =>
    cases hok
    rw [Sys.complete_of_ok (.inl rfl)]
    refine .cached (uckFaultInstall w own y) own ?_ rfl ?_ ?_ hx ?_ ?_
    · simp only [Sys.finish, Node.install_cache, hy, Option.map_some, Cache.set, Cache.put_entry_self]
    · cases w <;> exact ⟨PageState.noConfusion, PageState.noConfusion⟩
    · intro x hx
      simp only [Sys.finish, ht, List.eraseIdx_cons_zero] at hx
      cases hx
    · simp only [installsOf, List.filter_cons, decide_true, if_true]
      exact congrArg _ hn
    · intro k r hkr
      simp only [Sys.finish, hr, List.mem_singleton] at hkr
      cases hkr
      rfl

/-- A fault that got its page with the batch goes on. -/
theorem progress_of_got {i : Nat} {x : Thread} {act : Act} {y : PageEntry Nat} {g : Nat}
    (hy : s.node.cache.entry x.key = some y) (hg : y.page = some g) (hs : y.state ≠ .invalid ∧ y.state ≠ .inTransit)
    (ht : ∀ z ∈ s.threads, z.key = x.key ∧ Got x.key z.phase) (hcount : s.issued.count x.key = 1)
    (hn : installsOf x.key s = [(x.key, g)]) (hr : ∀ k r, (k, r) ∈ s.returned → r = some g)
    (hi : s.threads[i]? = some x) (h : Acts c s i x x.phase act t) : Progress x.key t := by
  obtain ⟨p, w, phase⟩ := x
  obtain ⟨-, hgot⟩ := ht _ (List.mem_of_getElem? hi)
  have hset : ∀ ph : Phase, Got p ph → ∀ z ∈ s.threads.set i ⟨p, w, ph⟩, z.key = p ∧ Got p z.phase := by
    intro ph hph z hz
    rcases List.mem_or_eq_of_mem_set hz with hz | rfl
    · exact ht z hz
    · exact ⟨rfl, hph⟩
  cases h with
  | wake h => exact hgot.elim
  | sigbus => exact hgot.elim
  | request own => exact hgot.elim
  | receive own j rest n ea =>
    obtain ⟨hpos, hnot⟩ := hgot
    have hj : p ≠ (p.1, j) := fun hpj => hnot (congrArg Prod.snd hpj ▸ List.mem_cons_self)
    have hrest : p.2 ∉ rest := fun hmem => hnot (List.mem_cons_of_mem _ hmem)
    have hentry : (s.node.batchPage c (p.1, j) ea).2.cache.entry p = some y := by
      rw [Node.batchPage_cache]
      split
      · rw [Cache.put_entry_of_ne hj, hy]
      · exact hy
    rw [Sys.receive_eq]
    split
    · refine .cached y g hentry hg hs (hset _ ⟨Nat.succ_pos n, hrest⟩) hcount ?_ hr
      simp only [installsOf, List.filter_cons, decide_eq_true_eq, if_neg (Ne.symm hj)]
      exact hn
    · exact .cached y g hentry hg hs (hset _ ⟨hpos, hrest⟩) hcount hn hr
  | batchEnd own rest h0 => exact .cached y g hy hg hs (hset (.batched own) trivial) hcount hn hr
  | batchFailed own rest => exact absurd hgot.1 (Nat.lt_irrefl 0)
  | recheck own =>
    cases hr' : s.node.afterBatch p w own with
    | none =>
      have hnone := Node.afterBatch_eq_none hr'
      rw [Cache.page, hy, Option.bind_some, hg] at hnone
      cases hnone
    | some r =>
      obtain ⟨y', hy', hg', hc⟩ := Node.afterBatch_eq_some hr'
      cases hy.symm.trans hy'
      have hrg : r.1 = g := Option.some.inj (hg'.symm.trans hg)
      simp only [Sys.recheck, hr', hc]
      refine .cached (if w then y.grantWrite else y) g ?_ ?_ ?_ ?_ hcount hn ?_
      · exact Cache.put_entry_self
      · cases w <;> exact hg
      · cases w
        · exact hs
        · exact ⟨PageState.noConfusion, PageState.noConfusion⟩
      · exact fun z hz => ht z (List.mem_of_mem_eraseIdx hz)
      · intro k r' hkr
        rcases List.mem_cons.1 hkr with hkr | hkr
        · cases hkr
          rw [hrg]
        · exact hr k r' hkr
  | complete own ok => exact hgot.elim

theorem Progress.step (h : Progress p s) (hok : FaultsOn p s e) (hg : NotInTransit s e) (ht : step c s e = some t) :
    Progress p t := by
  cases e with
  | fault k w a =>
    cases hok
    cases ht
    exact h.fault hg
  | thread i act =>
    obtain ⟨x, hx, hacts⟩ := Acts.of_step ht
    cases h with
    | idle hs hts hi hn hr =>
      rw [hts] at hx
      cases hx
    | fetching hs y hts hk hy hn hr =>
      have hxy : x = y := List.mem_singleton.1 (hts ▸ List.mem_of_getElem? hx)
      subst hxy
      subst hk
      exact progress_of_asked hs hts hy hn hr hx hok hacts
    | cached y g hy hpage hs hts hi hn hr =>
      obtain ⟨rfl, -⟩ := hts x (List.mem_of_getElem? hx)
      exact progress_of_got hy hpage hs hts hi hn hr hx hacts
  | _ => exact hok.elim

/-- **Concurrent faults on one page**: when no fault comes in while the page is in transit, one fetch of the page is
issued, and every fault that returns 0 returns the page which it installed. -/
theorem one_fetch (c : Config) (p : Key) (s : Sys) (es : List Ev) (hs : Uncached p s)
    (hok : EachStep (step c) (FaultsOn p) s es) (hg : EachStep (step c) NotInTransit s es) :
    Always (step c) (OneFetch p) s es :=
  Always.of_eachStep (Progress p) (fun _ _ _ h hq ht => h.step hq.1 hq.2 ht) (fun _ h => h.oneFetch) hs.progress
    (hok.and hg)

/-- A write fault and a read fault; the second comes in when the batch has brought the page. -/
theorem two_faults_one_fetch :
    Uncached (0, 1) {} ∧ Always (step (client 4)) (OneFetch (0, 1)) {}
      [.fault (0, 1) true ⟨true, true⟩, .thread 0 .request, .thread 0 (.receive true), .fault (0, 1) false ⟨true, true⟩,
        .thread 0 (.receive true), .thread 0 .batchEnd, .thread 0 .recheck] :=
  have h : Uncached (0, 1) {} := ⟨rfl, rfl, rfl, rfl, rfl⟩
  ⟨h, one_fetch (client 4) (0, 1) {} _ h (by decide) (by decide)⟩

/-- The second fault comes in while the first one is fetching: it is served from the entry, which has no page. -/
theorem second_fault_returns_null :
    Uncached (0, 1) {} ∧ EachStep (step (client 4)) (FaultsOn (0, 1)) {}
      [.fault (0, 1) false ⟨true, true⟩, .fault (0, 1) false ⟨true, true⟩, .thread 0 .request,
        .thread 0 (.receive true), .thread 0 .batchEnd, .thread 0 .recheck] ∧
    ¬ Always (step (client 4)) (OneFetch (0, 1)) {}
      [.fault (0, 1) false ⟨true, true⟩, .fault (0, 1) false ⟨true, true⟩, .thread 0 .request,
        .thread 0 (.receive true), .thread 0 .batchEnd, .thread 0 .recheck] := by
  refine ⟨⟨rfl, rfl, rfl, rfl, rfl⟩, by decide, fun h => ?_⟩
  obtain ⟨-, hret⟩ := h.get (by decide)
  obtain ⟨-, g, -, hg⟩ := hret (0, 1) none (by decide)
  cases hg

end UckSmp.Memory.Faults
