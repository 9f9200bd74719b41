import UckSmp.Memory.Faults

/-!
# Memory accounting

`current_pages_total` is meant to be the number of pages in the cache. A fault asks for room for its own page and
accounts for that page when it installs it; the pages of a batch are put into the cache without either, an
`INVALIDATE` frees a page without accounting for it, and the page that an entry kept when its owner left is replaced
as if the entry had been empty.

* `accounted`: when operations do none of that, the counter is exact and the limit holds.
-/

namespace UckSmp.Memory.Faults

open Lib.Transition

variable {c : Config} {s t : Sys} {e : Ev} {i : Nat} {x : Thread}

/-! ## Statement -/

/-- Operations are completed one after the other: only the fault under way goes on. -/
def OneByOne (s : Sys) : Ev → Prop
  | .thread .. => True
  | _ => s.threads = []

/-- After `uck_memctl_init`, with nothing in the cache. -/
def afterInit (m : Memctl) : Sys := { node := { mem := m.uckMemctlInit } }

/-- Between operations, the counter is the number of entries that hold a page, and within the limit. -/
def Accounted (s : Sys) : Prop :=
  s.threads = [] →
    s.node.mem.currentPagesTotal = s.node.cache.held ∧ s.node.cache.held ≤ s.node.mem.maxPagesTotal

/-- The step changes the number of pages in the cache only by a page that is accounted for. A page of a batch finds no
entry, or one that holds a page; a page fetched alone finds an entry that holds none; an `INVALIDATE` too. -/
def AccountsFor (c : Config) (s : Sys) : Ev → Prop
  | .thread i (.receive entryAlloc) => ∀ x ∈ s.threads[i]?, ∀ j ∈ x.phase.nextIndex,
      (s.node.batchPage c (x.key.1, j) entryAlloc).1 = false ∨ (s.node.cache.page (x.key.1, j)).isSome = true
  | .thread i (.complete ok) => ∀ x ∈ s.threads[i]?,
      ok = true ∨ c.owner x.key.1 = c.self → s.node.cache.page x.key = none
  | .invalidate k => s.node.cache.page k = none
  | _ => True

instance : Decidable (OneByOne s e) :=
  match e with
  | .thread .. => .isTrue trivial
  | .fault .. | .mkwrite _ | .invalidate _ | .leave _ | .unmap _ | .quorum _ | .teardown =>
    inferInstanceAs (Decidable (s.threads = []))

instance : Decidable (AccountsFor c s e) :=
  match e with
  | .thread i (.receive _) => inferInstanceAs (Decidable (∀ x ∈ s.threads[i]?, ∀ j ∈ x.phase.nextIndex, _ ∨ _))
  | .thread i (.complete _) => inferInstanceAs (Decidable (∀ x ∈ s.threads[i]?, _ → _))
  | .invalidate k => inferInstanceAs (Decidable (s.node.cache.page k = none))
  | .thread _ .wake | .thread _ .request | .thread _ .batchEnd | .thread _ .recheck => .isTrue trivial
  | .fault .. | .mkwrite _ | .leave _ | .unmap _ | .quorum _ | .teardown => .isTrue trivial

/-! ## Proof -/

/-- The counter is exact, and there is room for the pages of the faults under way. -/
structure Exact (s : Sys) : Prop where
  current : s.node.mem.currentPagesTotal = s.node.cache.held
  room : s.node.cache.held + s.threads.length ≤ s.node.mem.maxPagesTotal
  bound : s.node.mem.maxPagesTotal ≤ 2 ^ 64 / 100

theorem Exact.init (m : Memctl) : Exact (afterInit m) :=
  ⟨rfl, Nat.le_refl 0, Nat.zero_le _⟩

/-- A step that changes neither the counters nor the number of pages. -/
theorem Exact.of_same (h : Exact s) (hm : t.node.mem = s.node.mem) (hc : t.node.cache.held = s.node.cache.held)
    (ht : t.threads.length ≤ s.threads.length) : Exact t := by
  have hroom := h.room
  refine ⟨?_, ?_, ?_⟩
  · rw [hm, hc, h.current]
  · rw [hm, hc]
    omega
  · rw [hm]
    exact h.bound

/-- The page that a fault fetched is put into an entry that holds none. -/
theorem Exact.install (h : Exact s) {k : Key} {w : Bool} {own : Nat} (hk : s.node.cache.page k = none)
    (hn : t.node = s.node.install k w own) (ht : t.threads.length + 1 = s.threads.length) : Exact t := by
  have hroom := h.room
  cases he : s.node.cache.entry k with
  | none =>
    have hsame : s.node.install k w own = s.node := by
      simp only [Node.install, he]
    rw [hsame] at hn
    exact h.of_same (congrArg Node.mem hn) (congrArg (·.cache.held) hn) (by omega)
  | some y =>
    have hheld : t.node.cache.held = s.node.cache.held + 1 := by
      have htally := Node.install_tally Option.isSome rfl w own he
      rw [hk] at htally
      rw [hn]
      exact htally
    have hmem : t.node.mem = s.node.mem.uckMemctlAccountAlloc 1 := by
      rw [hn]
      simp only [Node.install, he]
    have hbound := h.bound
    have hwrap : (s.node.mem.currentPagesTotal + 1) % 2 ^ 64 = s.node.cache.held + 1 := by
      rw [h.current]
      exact Nat.mod_eq_of_lt (by omega)
    refine ⟨?_, ?_, ?_⟩
    · rw [hmem, hheld]
      exact hwrap
    · rw [hmem, hheld]
      change _ ≤ s.node.mem.maxPagesTotal
      omega
    · rw [hmem]
      exact hbound

theorem Exact.acts (h : Exact s) (hx : s.threads[i]? = some x) {act : Act}
    (hg : AccountsFor c s (.thread i act)) (ha : Acts c s i x x.phase act t) : Exact t := by
  have herase : (s.threads.eraseIdx i).length + 1 = s.threads.length := by
    have hlt := (List.getElem?_eq_some_iff.1 hx).1
    rw [List.length_eraseIdx_of_lt hlt]
    omega
  obtain ⟨key, w, phase⟩ := x
  cases ha with
  | wake hw =>
    obtain ⟨-, -, rfl⟩ := Node.wake_eq_some hw
    exact h.of_same rfl rfl (by simp only [Sys.finish]; omega)
  | sigbus => exact h.of_same rfl rfl (by simp only [Sys.fail]; omega)
  | request own =>
    obtain ⟨statics, hnode⟩ := Sys.request_node (c := c) (s := s) (i := i) (x := ⟨key, w, .entered own⟩) own
    obtain ⟨p, -, hts⟩ := Sys.request_threads (c := c) (s := s) (i := i) (x := ⟨key, w, .entered own⟩) own
    exact h.of_same (by rw [hnode]) (by rw [hnode]) (by rw [hts, List.length_set])
  | receive own j rest n ea =>
    have hlen : (s.receive i ⟨key, w, .batch own (j :: rest) n⟩ c own j rest n ea).threads.length =
        s.threads.length := by
      rw [Sys.receive_eq]
      split <;> exact List.length_set
    refine h.of_same ?_ ?_ hlen.le
    · rw [Sys.receive_node, Node.batchPage_mem]
    · rw [Sys.receive_node]
      cases hok : (s.node.batchPage c (key.1, j) ea).1 with
      | false =>
        rw [Node.batchPage_of_fst_eq_false hok]
        rfl
      | true =>
        have hsome := (hg _ hx j rfl).resolve_left (by rw [hok]; exact Bool.noConfusion)
        have htally := Node.batchPage_tally Option.isSome rfl hok
        rw [hsome] at htally
        exact Nat.add_right_cancel htally
  | batchEnd own rest hn => exact h.of_same rfl rfl (by simp only [Sys.setPhase, List.length_set]; rfl)
  | batchFailed own rest => exact h.of_same rfl rfl (by simp only [Sys.single, Sys.setPhase, List.length_set]; rfl)
  | recheck own =>
    cases hr : s.node.afterBatch key w own with
    | none =>
      simp only [Sys.recheck, hr]
      exact h.of_same rfl rfl (by simp only [Sys.single, Sys.setPhase, List.length_set]; rfl)
    | some r =>
      have htally := Node.afterBatch_tally Option.isSome rfl hr
      obtain ⟨y, -, -, hnode⟩ := Node.afterBatch_eq_some hr
      have hm : r.2.mem = s.node.mem := by
        rw [hnode]
        rfl
      simp only [Sys.recheck, hr]
      exact h.of_same hm htally (by simp only [Sys.finish]; omega)
  | complete own ok =>
    by_cases hok : ok = true ∨ c.owner key.1 = c.self
    · rw [Sys.complete_of_ok hok]
      exact h.install (hg _ hx hok) rfl herase
    · rw [Sys.complete_of_not hok]
      refine h.of_same ?_ (Node.abort_tally Option.isSome rfl) (by simp only [Sys.fail]; omega)
      rw [Sys.fail, Node.abort_eq]
      rfl

/-- The limit is looked at, and a fault goes on only if it allows one more page. -/
theorem Exact.of_limit (h : Exact s) {totalram pct : Nat} (hs : s.threads = [])
    (hm : t.node.mem = (s.node.mem.uckMemctlCanAlloc totalram pct 1).2)
    (hc : t.node.cache.held = s.node.cache.held)
    (ht : t.threads = [] ∨ t.threads.length = 1 ∧ (s.node.mem.uckMemctlCanAlloc totalram pct 1).1 = true) :
    Exact t := by
  have hroom := h.room
  have hcur := h.current
  have hbound := h.bound
  rw [hs, List.length_nil, Nat.add_zero] at hroom
  refine ⟨?_, ?_, ?_⟩
  · rw [hm, hc, Memctl.uckMemctlCanAlloc_currentPagesTotal, hcur]
  · rw [hm, hc]
    rcases ht with ht | ⟨ht, hok⟩
    · rw [ht]
      exact Nat.le_trans hroom Memctl.le_uckMemctlCanAlloc_maxPagesTotal
    · rw [ht, ← hcur]
      exact Memctl.le_of_uckMemctlCanAlloc hok (by omega)
  · rw [hm]
    exact Memctl.uckMemctlCanAlloc_maxPagesTotal_le hbound

/-- A fault comes in while none is under way. -/
theorem Exact.fault (h : Exact s) (hs : s.threads = []) (k : Key) (w : Bool) (a : Allocs) :
    Exact (s.fault c k w a) := by
  have henters := Node.enters c s.node k w a
  have htally := henters.tally Option.isSome rfl
  unfold Sys.fault
  rcases hr : s.node.enter c k w a with ⟨r, node⟩
  rw [hr] at htally henters
  cases henters with
  | sigbus => exact h
  | hit he hg => exact h.of_same rfl htally (Nat.le_refl _)
  | null he => exact h.of_same rfl htally (Nat.le_refl _)
  | oom => exact h
  | denied he => exact h.of_limit hs rfl htally (.inl hs)
  | fetch he hok => exact h.of_limit hs rfl htally (.inr ⟨by rw [hs]; rfl, hok⟩)

theorem Exact.teardown (h : Exact s) (hs : s.threads = []) : Exact { s with node := s.node.cleanup } := by
  obtain ⟨hcur, hmax⟩ := Node.foldl_freeEntry_mem s.node.cache.tree s.node
  refine ⟨?_, ?_, ?_⟩
  · refine hcur.trans ?_
    rw [h.current]
    exact Nat.sub_self _
  · rw [hs]
    exact Nat.zero_le _
  · exact hmax ▸ h.bound

theorem Exact.step (h : Exact s) (ho : OneByOne s e) (hg : AccountsFor c s e) (ht : step c s e = some t) : Exact t := by
  cases e with
  | fault k w a =>
    cases ht
    exact h.fault ho k w a
  | thread i act =>
    obtain ⟨x, hx, ha⟩ := Acts.of_step ht
    exact h.acts hx hg ha
  | mkwrite k =>
    cases ht
    refine h.of_same ?_ (Node.mkwrite_tally Option.isSome rfl) (Nat.le_refl _)
    rw [Node.mkwrite_eq]
  | invalidate k =>
    cases ht
    have htally := Node.invalidate_tally (s := s.node) (k := k) Option.isSome rfl
    have hk : s.node.cache.page k = none := hg
    rw [hk] at htally
    refine h.of_same ?_ htally (Nat.le_refl _)
    rw [Node.invalidate_eq, hk]
  | leave n =>
    cases ht
    exact h.of_same rfl (Node.leave_tally Option.isSome n) (Nat.le_refl _)
  | unmap g =>
    obtain ⟨-, rfl⟩ := of_step_unmap ht
    exact h.of_same rfl rfl (Nat.le_refl _)
  | quorum nodes =>
    cases ht
    exact h.of_same rfl rfl (Nat.le_refl _)
  | teardown =>
    obtain ⟨hs, rfl⟩ := of_step_teardown ht
    exact h.teardown hs

/-- **Memory accounting**: between the operations of a run in which every page that enters or leaves the cache is
accounted for, the counter is the number of entries that hold a page, and the limit holds. -/
theorem accounted (c : Config) (m : Memctl) (es : List Ev) (ho : EachStep (step c) OneByOne (afterInit m) es)
    (hg : EachStep (step c) (AccountsFor c) (afterInit m) es) : Always (step c) Accounted (afterInit m) es := by
  refine Always.of_eachStep Exact (fun _ _ _ h hq ht => h.step hq.1 hq.2 ht) (fun s h hs => ?_) (Exact.init m)
    (ho.and hg)
  have hroom := h.room
  exact ⟨h.current, by omega⟩

/-- A page is fetched alone, written, and freed with its region. -/
theorem single_fetch_accounted :
    (run (step (client 1)) (afterInit {}) [.fault (0, 0) false ⟨true, true⟩, .thread 0 .request,
      .thread 0 (.complete true), .mkwrite (0, 0), .teardown]).isSome = true ∧
    Always (step (client 1)) Accounted (afterInit {}) [.fault (0, 0) false ⟨true, true⟩, .thread 0 .request,
      .thread 0 (.complete true), .mkwrite (0, 0), .teardown] :=
  ⟨by decide, accounted (client 1) {} _ (by decide) (by decide)⟩

/-- One fault on a region of two pages: the batch brings both, and the counter is still zero. -/
theorem batch_not_accounted :
    EachStep (step (client 2)) OneByOne (afterInit {}) [.fault (0, 0) false ⟨true, true⟩, .thread 0 .request,
      .thread 0 (.receive true), .thread 0 (.receive true), .thread 0 .batchEnd, .thread 0 .recheck] ∧
    ¬ Always (step (client 2)) Accounted (afterInit {}) [.fault (0, 0) false ⟨true, true⟩, .thread 0 .request,
      .thread 0 (.receive true), .thread 0 (.receive true), .thread 0 .batchEnd, .thread 0 .recheck] := by
  refine ⟨by decide, fun h => ?_⟩
  have hlast := h.get (by decide) (by decide)
  exact absurd hlast.1 (by decide)

end UckSmp.Memory.Faults
