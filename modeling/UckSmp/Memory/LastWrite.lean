import UckSmp.Memory.Visibility

/-!
# Reads return the last write

What `uck_fault` does to the memory of a cluster in which accesses come one at a time (`fault_cases`, `Faulted`), that
every access keeps the invariant (`access_inv`), and when a read returns the last write (`reads_return_last`): when the
page was never written, when the reader wrote it last, or when the owner did, still has that page in its cache, and the
reader's copy is not older (`Current`).
-/

namespace UckSmp.Memory

open Lib.Transition

variable {V : Type} [Zero V] {c : Cluster} {pages : Nat} {m m' : Dsm V} {n p g : Nat}

/-- Every entry is `INVALID` or holds a page. -/
def Dsm.Settled (m : Dsm V) : Prop := ∀ k q, (m.slot k q).Settled

/-! ## The first section of a fault between accesses -/

omit [Zero V] in
theorem enter_held (owner : Nat) (w : Bool) (a : FaultAllocs) {e : PageEntry Nat} (h : e.state.Held) :
    uckFaultEnter owner w a (some e) =
      if w = true ∧ e.state = .shared then .hit e.grantWrite true else .hit e false := by
  have hi : e.state ≠ .invalid := by rcases h with h | h <;> simp [h]
  simp [uckFaultEnter, hi]

omit [Zero V] in
/-- A page that is absent or `INVALID` is fetched; the entry has no page meanwhile. -/
theorem enter_invalid (owner : Nat) (w : Bool) {x : Slot V} (hx : x.Settled)
    (h : ∀ e, x.entry = some e → ¬ e.state.Held) :
    x.cached = none ∧ ∃ e, e.page = none ∧ uckFaultEnter owner w ⟨true, true, true⟩ x.entry = .fetch e := by
  cases he : x.entry with
  | none =>
    refine ⟨by simp [Slot.cached, he], { uckPageAllocEntry owner with state := .inTransit }, rfl, ?_⟩
    simp [uckFaultEnter, faultMiss, uckPageAllocEntry, PageEntry.trySetState]
  | some e =>
    rcases hx e he with ⟨hs, hp⟩ | ⟨hh, -⟩
    · refine ⟨by simp [Slot.cached, he, hp], { e with state := .inTransit }, hp, ?_⟩
      simp [uckFaultEnter, faultMiss, hs, PageEntry.trySetState]
    · exact absurd hh (h e he)

/-! ## Batches -/

theorem batchPage_other (m : Dsm V) {k q : Nat} (i : Nat) (h : ¬ (k = n ∧ q = i)) :
    (m.batchPage c n i).slot k q = m.slot k q :=
  modify_other m _ h

theorem fetchPagesBatch_other (l : List Nat) (m : Dsm V) {k : Nat} (q : Nat) (hk : k ≠ n) :
    (m.fetchPagesBatch c n l).slot k q = m.slot k q := by
  induction l generalizing m with
  | nil => rfl
  | cons i l ih => exact (ih (m.batchPage c n i)).trans (batchPage_other m i fun h => hk h.1)

/-- A batch changes the memory and neither the mappings nor the history. -/
theorem fetchPagesBatch_frame (l : List Nat) (m : Dsm V) :
    (m.fetchPagesBatch c n l).writes = m.writes ∧ (m.fetchPagesBatch c n l).lastWriter = m.lastWriter ∧
      (m.fetchPagesBatch c n l).last = m.last ∧
      ∀ k q, ((m.fetchPagesBatch c n l).slot k q).map = (m.slot k q).map := by
  induction l generalizing m with
  | nil => exact ⟨rfl, rfl, rfl, fun _ _ => rfl⟩
  | cons i l ih =>
    obtain ⟨h1, h2, h3, h4⟩ := ih (m.batchPage c n i)
    refine ⟨h1, h2, h3, fun k q => (h4 k q).trans ?_⟩
    by_cases h : k = n ∧ q = i
    · obtain ⟨rfl, rfl⟩ := h
      rw [Dsm.batchPage, modify_self]
      rfl
    · rw [batchPage_other m i h]

theorem fetchPagesBatch_inv (hn : n ≠ c.owner) (l : List Nat) {m : Dsm V} (hi : m.Inv c) :
    (m.fetchPagesBatch c n l).Inv c := by
  induction l generalizing m with
  | nil => exact hi
  | cons i l ih =>
    refine ih (hi.obtain_copy (fun _ _ => rfl) ?_ fun h => absurd h hn)
    rw [if_neg hn]

/-- After the batch a page of the list is in the cache, `SHARED`, and the copy that an unmapped node reads is new. -/
def Fetched (m : Dsm V) (n q : Nat) : Prop :=
  (∃ e, (m.slot n q).entry = some e ∧ e.state = .shared ∧ e.page.isSome) ∧
    ((m.slot n q).map = none → (m.slot n q).since = m.writes q)

theorem batchPage_fetched (m : Dsm V) (q : Nat) : Fetched (m.batchPage c n q) n q := by
  unfold Fetched
  rw [Dsm.batchPage, modify_self]
  refine ⟨⟨_, rfl, rfl, rfl⟩, fun hm => ?_⟩
  have hm' : (m.slot n q).map = none := hm
  simp [Slot.obtain, hm', Dsm.modify]

theorem fetchPagesBatch_fetched {q : Nat} : ∀ (l : List Nat) (m : Dsm V), q ∈ l ∨ Fetched m n q →
    Fetched (m.fetchPagesBatch c n l) n q
  | [], _, h => h.resolve_left (List.not_mem_nil)
  | i :: l, m, h => by
    refine fetchPagesBatch_fetched l (m.batchPage c n i) ?_
    by_cases hq : q = i
    · subst hq; exact Or.inr (batchPage_fetched m q)
    · rcases h with h | h
      · exact Or.inl ((List.mem_cons.1 h).resolve_left hq)
      · refine Or.inr ?_
        unfold Fetched at h ⊢
        rw [batchPage_other m i fun h => hq h.2]
        exact h

theorem fetchPagesBatch_settled : ∀ (l : List Nat) (m : Dsm V),
    (∀ k q, (m.slot k q).Settled ∨ (k = n ∧ q ∈ l)) → (m.fetchPagesBatch c n l).Settled
  | [], _, h => fun k q => (h k q).resolve_right fun h => absurd h.2 List.not_mem_nil
  | i :: l, m, h => by
    refine fetchPagesBatch_settled l (m.batchPage c n i) fun k q => ?_
    by_cases hkq : k = n ∧ q = i
    · obtain ⟨rfl, rfl⟩ := hkq
      left
      intro e he
      rw [Dsm.batchPage, modify_self] at he
      cases he
      exact Or.inr ⟨Or.inl rfl, rfl⟩
    · rw [batchPage_other m i hkq]
      rcases h k q with h | ⟨hk, hq⟩
      · exact Or.inl h
      · exact Or.inr ⟨hk, (List.mem_cons.1 hq).resolve_left fun h => hkq ⟨hk, h⟩⟩

/-! ## Faults -/

/-- What a fault leaves behind: the page it returns is the cached one; mappings and history are as before. -/
structure Faulted (c : Cluster) (m m' : Dsm V) (n p g : Nat) : Prop where
  inv : m'.Inv c
  settled : m'.Settled
  cached : (m'.slot n p).cached = some g
  map : ∀ k q, (m'.slot k q).map = (m.slot k q).map
  writes : m'.writes = m.writes
  lastWriter : m'.lastWriter = m.lastWriter
  last : m'.last = m.last

omit [Zero V] in
theorem invalidateRemote_self (m : Dsm V) (n p q : Nat) : (m.invalidateRemote c n p).slot n q = m.slot n q := by
  simp [Dsm.invalidateRemote]

omit [Zero V] in
theorem invalidateRemote_map (m : Dsm V) (n p k q : Nat) :
    ((m.invalidateRemote c n p).slot k q).map = (m.slot k q).map := by
  unfold Dsm.invalidateRemote
  simp only
  split <;> rfl

omit [Zero V] in
theorem invalidate_settled (x : Slot V) : x.invalidate.Settled := by
  intro e he
  unfold Slot.invalidate Slot.setEntry at he
  cases hx : x.entry with
  | none => simp [hx] at he
  | some e' =>
    simp only [hx, Option.map_some, Option.some.injEq] at he
    subst he
    exact Or.inl ⟨rfl, rfl⟩

omit [Zero V] in
theorem invalidateRemote_settled (hs : m.Settled) (n p : Nat) : (m.invalidateRemote c n p).Settled := by
  intro k q
  unfold Dsm.invalidateRemote
  simp only
  split
  · exact invalidate_settled _
  · exact hs k q

/-- A fault that is served from the cache. -/
theorem serve_faulted (hi : m.Inv c) (hs : ∀ k q, ¬ (k = n ∧ q = p) → (m.slot k q).Settled) {e : PageEntry Nat}
    {inv : Bool} (he : e.page = (m.slot n p).cached) (hh : e.state.Held) (h : m.serve c n p e inv = some (m', g)) :
    Faulted c m m' n p g := by
  unfold Dsm.serve at h
  simp only [Option.map_eq_some_iff, Prod.mk.injEq] at h
  obtain ⟨g', hg, rfl, rfl⟩ := h
  have hi' : (m.modify n p (·.setEntry (some e))).Inv c := hi.setEntry he
  have hs' : (m.modify n p (·.setEntry (some e))).Settled := by
    intro k q
    by_cases hkq : k = n ∧ q = p
    · obtain ⟨rfl, rfl⟩ := hkq
      rw [modify_self]
      intro e' he'
      cases he'
      exact Or.inr ⟨hh, by simp [hg]⟩
    · rw [modify_other m _ hkq]; exact hs k q hkq
  have hm : ∀ k q, ((m.modify n p (·.setEntry (some e))).slot k q).map = (m.slot k q).map := by
    intro k q
    rw [modify_slot]
    split
    · rename_i hkq; obtain ⟨rfl, rfl⟩ := hkq; rfl
    · rfl
  have hc : ((m.modify n p (·.setEntry (some e))).slot n p).cached = some g' := by
    rw [modify_self]; exact hg
  cases inv with
  | false => exact ⟨hi', hs', hc, hm, rfl, rfl, rfl⟩
  | true =>
    refine ⟨hi'.invalidateRemote n p, invalidateRemote_settled hs' n p, ?_, fun k q => ?_, rfl, rfl, rfl⟩
    · simp only [if_true]
      rw [invalidateRemote_self]; exact hc
    · simp only [if_true]
      rw [invalidateRemote_map]; exact hm k q

/-- A fault that ends with the single fetch. -/
theorem fetchPage_faulted (hi : m.Inv c) (hs : ∀ k q, ¬ (k = n ∧ q = p) → (m.slot k q).Settled)
    (hm : (m.slot n p).map = none) {w : Bool} (h : m.fetchPage c n p w = some (m', g)) : Faulted c m m' n p g := by
  have key : ∀ v : V, v = (if n = c.owner then 0 else (m.slot c.owner p).served) →
      Faulted c m (m.modify n p fun sl => sl.obtain
        (fun g e => uckFaultInstall w g (e.getD (uckPageAllocEntry c.owner))) v (m.writes p)) n p
        (m.slot n p).next := by
    intro v hv
    refine ⟨hi.obtain_copy (fun _ _ => rfl) hv fun _ => hm, fun k q => ?_, ?_, fun k q => ?_, rfl, rfl, rfl⟩
    · by_cases hkq : k = n ∧ q = p
      · obtain ⟨rfl, rfl⟩ := hkq
        rw [modify_self]
        intro e he
        cases he
        refine Or.inr ⟨?_, rfl⟩
        cases w
        · exact Or.inl rfl
        · exact Or.inr rfl
      · rw [modify_other m _ hkq]; exact hs k q hkq
    · rw [modify_self]; rfl
    · rw [modify_slot]
      split
      · rename_i hkq; obtain ⟨rfl, rfl⟩ := hkq; rfl
      · rfl
  unfold Dsm.fetchPage at h
  split at h
  · rename_i hn
    cases h
    exact key 0 (by rw [if_pos hn])
  · rename_i hn
    split at h
    · cases h
      exact key _ (by rw [if_neg hn])
    · cases h

/-- A fault is served from a held entry, or the page, of which the cache has none, is fetched. -/
theorem fault_cases (c : Cluster) (pages : Nat) (hs : m.Settled) (n p : Nat) (w : Bool) :
    (∃ e inv, (m.slot n p).entry = some e ∧ e.state.Held ∧ e.page.isSome ∧ (w = false → inv = false) ∧
      m.fault c pages n p w = m.serve c n p (if inv then e.grantWrite else e) inv) ∨
    ((m.slot n p).cached = none ∧ ∃ e, e.page = none ∧
      m.fault c pages n p w = (m.beginFetch pages n p e).1.fetchList c n p w (m.beginFetch pages n p e).2) := by
  by_cases hh : ∃ e, (m.slot n p).entry = some e ∧ e.state.Held
  · obtain ⟨e, he, hst⟩ := hh
    left
    have hp : e.page.isSome := by
      rcases hs n p e he with ⟨h, -⟩ | ⟨-, h⟩
      · rcases hst with h' | h' <;> rw [h] at h' <;> cases h'
      · exact h
    by_cases hw : w = true ∧ e.state = .shared
    · refine ⟨e, true, he, hst, hp, fun h => absurd hw.1 (by simp [h]), ?_⟩
      unfold Dsm.fault
      rw [he, enter_held c.owner w _ hst, if_pos hw, if_pos rfl]
    · refine ⟨e, false, he, hst, hp, fun _ => rfl, ?_⟩
      unfold Dsm.fault
      rw [he, enter_held c.owner w _ hst, if_neg hw]
      rfl
  · right
    have hnone : ∀ e, (m.slot n p).entry = some e → ¬ e.state.Held := fun e he hst => hh ⟨e, he, hst⟩
    obtain ⟨hc, e, hp, he⟩ := enter_invalid c.owner w (hs n p) hnone
    exact ⟨hc, e, hp, by simp only [Dsm.fault, he]⟩

/-- A fetch is served from the batch, or is the single fetch. -/
theorem fetchList_cases (c : Cluster) (m : Dsm V) (n : Nat) {l : List Nat} (hp : p ∈ l) (w : Bool) :
    (n ≠ c.owner ∧ ∃ e, ((m.fetchPagesBatch c n l).slot n p).entry = some e ∧ e.state = .shared ∧ e.page.isSome ∧
      m.fetchList c n p w l = (m.fetchPagesBatch c n l).serve c n p (if w then e.grantWrite else e) w) ∨
    (m.fetchList c n p w l = m.fetchPage c n p w) := by
  unfold Dsm.fetchList
  split
  · rename_i hb
    obtain ⟨⟨e, he, hst, hpg⟩, -⟩ := fetchPagesBatch_fetched (c := c) (n := n) l m (Or.inl hp)
    refine Or.inl ⟨hb.2.1, e, he, hst, hpg, ?_⟩
    rw [he]
    simp only [uckFaultAfterBatch, hpg, if_true]
    cases w <;> rfl
  · exact Or.inr rfl

omit [Zero V] in
theorem mem_beginFetch (pages : Nat) (m : Dsm V) (n p : Nat) (e : PageEntry Nat) : p ∈ (m.beginFetch pages n p e).2 :=
  mem_uckBuildPrefetchList _ _ _ _ _

omit [Zero V] in
/-- Marking the entry changes nothing but the entry. -/
theorem beginFetch_slot (pages : Nat) (m : Dsm V) (n p : Nat) (e : PageEntry Nat) :
    (m.beginFetch pages n p e).1.slot = (m.modify n p (·.setEntry (some e))).slot := rfl

omit [Zero V] in
theorem beginFetch_map (pages : Nat) (m : Dsm V) (n p : Nat) (e : PageEntry Nat) (k q : Nat) :
    ((m.beginFetch pages n p e).1.slot k q).map = (m.slot k q).map := by
  rw [beginFetch_slot, modify_slot]
  split
  · rename_i h; obtain ⟨rfl, rfl⟩ := h; rfl
  · rfl

theorem beginFetch_inv (pages : Nat) (hi : m.Inv c) (hc : (m.slot n p).cached = none) {e : PageEntry Nat}
    (he : e.page = none) :
    (m.beginFetch pages n p e).1.Inv c :=
  hi.setEntry (e := some e) (by rw [hc]; exact he)

/-- Every fault of a node that has the page not mapped. -/
theorem fault_faulted (hi : m.Inv c) (hs : m.Settled) (hm : (m.slot n p).map = none) {w : Bool}
    (h : m.fault c pages n p w = some (m', g)) : Faulted c m m' n p g := by
  rcases fault_cases c pages hs n p w with ⟨e, inv, he, hst, hpg, -, hf⟩ | ⟨hc, e, hp, hf⟩
  · rw [hf] at h
    refine serve_faulted hi (fun k q _ => hs k q) ?_ ?_ h
    · cases inv <;> simp [Slot.cached, he]
    · cases inv
      · exact hst
      · exact Or.inr rfl
  · rw [hf] at h
    have hi₁ := beginFetch_inv pages hi hc hp
    have hm₁ := beginFetch_map pages m n p e
    have hs₁ : ∀ k q, ¬ (k = n ∧ q = p) → ((m.beginFetch pages n p e).1.slot k q).Settled := by
      intro k q hkq
      rw [beginFetch_slot, modify_other m _ hkq]
      exact hs k q
    rcases fetchList_cases c (m.beginFetch pages n p e).1 n (mem_beginFetch pages m n p e) w with
      ⟨hn, e', he', hst', -, hl⟩ | hl
    · rw [hl] at h
      obtain ⟨h1, h2, h3, h4⟩ := fetchPagesBatch_frame (c := c) (n := n) (m.beginFetch pages n p e).2
        (m.beginFetch pages n p e).1
      have hs₂ := fetchPagesBatch_settled (c := c) (n := n) (m.beginFetch pages n p e).2 (m.beginFetch pages n p e).1
        fun k q => by
          by_cases hkq : k = n ∧ q = p
          · exact Or.inr ⟨hkq.1, hkq.2 ▸ mem_beginFetch pages m n p e⟩
          · exact Or.inl (hs₁ k q hkq)
      have hf := serve_faulted (fetchPagesBatch_inv hn _ hi₁) (fun k q _ => hs₂ k q)
        (by cases w <;> simp [Slot.cached, he']) (by cases w; exacts [Or.inl hst', Or.inr rfl]) h
      exact { hf with
        map := fun k q => ((hf.map k q).trans (h4 k q)).trans (hm₁ k q)
        writes := hf.writes.trans h1
        lastWriter := hf.lastWriter.trans h2
        last := hf.last.trans h3 }
    · rw [hl] at h
      have hf := fetchPage_faulted hi₁ hs₁ (by rw [hm₁]; exact hm) h
      exact { hf with map := fun k q => (hf.map k q).trans (hm₁ k q) }

/-! ## Faults for reading -/

/-- A fault for reading changes nothing at other nodes, and the copy it leaves to read is not older than the last
write, provided that a copy the node already had was not. -/
theorem fault_read (hs : m.Settled) (hm : (m.slot n p).map = none) (h : m.fault c pages n p false = some (m', g)) :
    (∀ k q, k ≠ n → m'.slot k q = m.slot k q) ∧
      (((m.slot n p).cached ≠ none → (m.slot n p).since = m.writes p) → (m'.slot n p).since = m.writes p) := by
  rcases fault_cases c pages hs n p false with ⟨e, inv, he, hst, hpg, hinv, hf⟩ | ⟨hc, e, hp, hf⟩
  · rw [hf, hinv rfl] at h
    simp only [Dsm.serve, Bool.false_eq_true, if_false, Option.map_eq_some_iff, Prod.mk.injEq] at h
    obtain ⟨g', hg, rfl, rfl⟩ := h
    refine ⟨fun k q hk => modify_other m _ fun h => hk h.1, fun hold => ?_⟩
    rw [modify_self]
    exact hold (by simp [Slot.cached, he, hg])
  · rw [hf] at h
    have hb : ∀ k q, k ≠ n → (m.beginFetch pages n p e).1.slot k q = m.slot k q := fun k q hk => by
      rw [beginFetch_slot]; exact modify_other m _ fun h => hk h.1
    have hm₁ : ((m.beginFetch pages n p e).1.slot n p).map = none := by rw [beginFetch_map]; exact hm
    rcases fetchList_cases c (m.beginFetch pages n p e).1 n (mem_beginFetch pages m n p e) false with
      ⟨hn, e', he', -, -, hl⟩ | hl
    · rw [hl] at h
      simp only [Dsm.serve, Bool.false_eq_true, if_false, Option.map_eq_some_iff, Prod.mk.injEq] at h
      obtain ⟨g', hg, rfl, rfl⟩ := h
      obtain ⟨h1, -, -, h4⟩ := fetchPagesBatch_frame (c := c) (n := n) (m.beginFetch pages n p e).2
        (m.beginFetch pages n p e).1
      refine ⟨fun k q hk => ?_, fun _ => ?_⟩
      · rw [modify_other _ _ fun h => hk h.1, fetchPagesBatch_other _ _ q hk, hb k q hk]
      · rw [modify_self]
        have hfe := fetchPagesBatch_fetched (c := c) (n := n) (m.beginFetch pages n p e).2
          (m.beginFetch pages n p e).1 (Or.inl (mem_beginFetch pages m n p e))
        have := hfe.2 (by rw [h4]; exact hm₁)
        rw [h1] at this
        exact this
    · rw [hl] at h
      have hnew : ∀ v : V, ((((m.beginFetch pages n p e).1.modify n p fun sl => sl.obtain
          (fun g e => uckFaultInstall false g (e.getD (uckPageAllocEntry c.owner))) v (m.writes p)).slot n p).since) =
            m.writes p := by
        intro v
        rw [modify_self]
        simp [Slot.obtain, hm₁]
      unfold Dsm.fetchPage at h
      split at h
      · cases h
        exact ⟨fun k q hk => (modify_other _ _ fun h => hk h.1).trans (hb k q hk), fun _ => hnew _⟩
      · split at h
        · cases h
          exact ⟨fun k q hk => (modify_other _ _ fun h => hk h.1).trans (hb k q hk), fun _ => hnew _⟩
        · cases h

/-- A fault of a node that has or finds the owner succeeds. -/
theorem fault_isSome (pages p : Nat) (hs : m.Settled) (hr : n = c.owner ∨ c.findsOwner n = true) (w : Bool) :
    (m.fault c pages n p w).isSome := by
  have hserve : ∀ (m : Dsm V) (e : PageEntry Nat) (inv : Bool), e.page.isSome → (m.serve c n p e inv).isSome := by
    intro m e inv he
    simpa [Dsm.serve] using he
  rcases fault_cases c pages hs n p w with ⟨e, inv, he, hst, hpg, -, hf⟩ | ⟨hc, e, hp, hf⟩
  · rw [hf]
    exact hserve _ _ _ (by cases inv <;> simpa using hpg)
  · rw [hf]
    rcases fetchList_cases c (m.beginFetch pages n p e).1 n (mem_beginFetch pages m n p e) w with
      ⟨hn, e', he', -, hpg, hl⟩ | hl
    · rw [hl]
      exact hserve _ _ _ (by cases w <;> simpa using hpg)
    · rw [hl]
      unfold Dsm.fetchPage
      by_cases hn : n = c.owner
      · simp [hn]
      · simp [hn, hr.resolve_left hn]

/-! ## Runs -/

omit [Zero V] in
/-- Stores and mappings leave the entries alone. -/
theorem Dsm.Settled.modify (hs : m.Settled) {f : Slot V → Slot V} (hf : ∀ x, (f x).entry = x.entry) :
    (m.modify n p f).Settled := by
  intro k q
  rw [modify_slot]
  split
  · intro e he
    rw [hf] at he
    exact hs n p e he
  · exact hs k q

omit [Zero V] in
theorem mkwrite_next (m : Dsm V) (n p : Nat) : ((m.mkwrite c n p).slot n p).next = (m.slot n p).next := by
  unfold Dsm.mkwrite
  simp only
  split
  · rw [invalidateRemote_self, modify_self]; rfl
  · rw [modify_self]; rfl

/-- `uck_page_mkwrite` changes the state of an entry that holds a page. -/
theorem mkwrite_inv (hi : m.Inv c) (hs : m.Settled) (n p : Nat) :
    (m.mkwrite c n p).Inv c ∧ (m.mkwrite c n p).Settled := by
  have hp : (uckPageMkwrite (m.slot n p).entry).1.bind (·.page) = (m.slot n p).cached := by
    unfold Slot.cached
    cases (m.slot n p).entry with
    | none => rfl
    | some e => simp only [uckPageMkwrite]; split <;> rfl
  have hi' : (m.modify n p (·.setEntry (uckPageMkwrite (m.slot n p).entry).1)).Inv c := hi.setEntry hp
  have hs' : (m.modify n p (·.setEntry (uckPageMkwrite (m.slot n p).entry).1)).Settled := by
    intro k q
    rw [modify_slot]
    split
    · intro e he
      have hse := hs n p
      unfold Slot.Settled at hse
      simp only [Slot.setEntry] at he
      cases hx : (m.slot n p).entry with
      | none => simp [hx, uckPageMkwrite] at he
      | some e' =>
        simp only [hx, uckPageMkwrite] at he
        split at he
        · cases he
          rename_i hsh
          rcases hse e' hx with ⟨h, -⟩ | ⟨-, h⟩
          · rw [hsh] at h; cases h
          · exact Or.inr ⟨Or.inr rfl, h⟩
        · cases he
          exact hse e hx
    · exact hs k q
  unfold Dsm.mkwrite
  simp only
  split
  · exact ⟨hi'.invalidateRemote n p, invalidateRemote_settled hs' n p⟩
  · exact ⟨hi', hs'⟩

theorem init_inv : (Dsm.init : Dsm V).Inv c ∧ (Dsm.init : Dsm V).Settled :=
  ⟨fun _ => ⟨fun _ => rfl, fun _ => ⟨nofun, nofun, Nat.le_refl 0, nofun, nofun, nofun, nofun⟩⟩, nofun⟩

/-- The value of the last write to page `p` after the access, if it was `u` before. -/
def Access.after (p : Nat) (u : V) : Access V → V
  | .write _ q v => if q = p then v else u
  | .read _ _ => u

omit [Zero V] in
theorem mkwrite_last (m : Dsm V) (n p : Nat) : (m.mkwrite c n p).last = m.last := by
  unfold Dsm.mkwrite
  simp only
  split <;> rfl

omit [Zero V] in
theorem store_last (m : Dsm V) (n p g q : Nat) (v : V) :
    (m.store n p g v).last q = (Access.write n p v).after q (m.last q) := by
  by_cases h : q = p
  · subst h; simp [Dsm.store, Access.after]
  · simp [Dsm.store, Access.after, h, Ne.symm h]

/-- A store through a page that the node has, after `uck_page_mkwrite` or without it. -/
theorem store_inv (hi : m.Inv c) (hs : m.Settled) (hg : g < (m.slot n p).next) (v : V) :
    (m.store n p g v).Inv c ∧ (m.store n p g v).Settled ∧
      ∀ q, (m.store n p g v).last q = (Access.write n p v).after q (m.last q) :=
  ⟨hi.store hg v, hs.modify (f := (·.store g v)) fun _ => rfl, fun q => store_last m n p g q v⟩

theorem mkwrite_store_inv (hi : m.Inv c) (hs : m.Settled) (hg : g < (m.slot n p).next) (v : V) :
    ((m.mkwrite c n p).store n p g v).Inv c ∧ ((m.mkwrite c n p).store n p g v).Settled ∧
      ∀ q, ((m.mkwrite c n p).store n p g v).last q = (Access.write n p v).after q (m.last q) := by
  obtain ⟨hi', hs'⟩ := mkwrite_inv hi hs n p
  rw [← mkwrite_last (c := c) m n p]
  exact store_inv hi' hs' (by rw [mkwrite_next]; exact hg) v

/-- **Every access keeps the invariant**, and the history in the memory is that of the accesses. -/
theorem access_inv {a : Access V} (hi : m.Inv c) (hs : m.Settled) (h : access c pages m a = some m') :
    m'.Inv c ∧ m'.Settled ∧ ∀ q, m'.last q = a.after q (m.last q) := by
  cases a with
  | read n p =>
    simp only [access, Option.ite_none_right_eq_some, Option.map_eq_some_iff] at h
    obtain ⟨-, ⟨m₁, v⟩, hr, rfl⟩ := h
    cases hm : (m.slot n p).map with
    | some gb =>
      simp only [Dsm.read, hm, Option.some.injEq, Prod.mk.injEq] at hr
      obtain ⟨rfl, -⟩ := hr
      exact ⟨hi, hs, fun _ => rfl⟩
    | none =>
      simp only [Dsm.read, hm, Option.map_eq_some_iff, Prod.mk.injEq] at hr
      obtain ⟨⟨m₂, g⟩, hf, rfl, -⟩ := hr
      have hF := fault_faulted hi hs hm hf
      exact ⟨hF.inv.setMap ((hF.map n p).trans hm) hF.cached false,
        hF.settled.modify (f := (·.setMap g false)) fun _ => rfl, fun q => congrFun hF.last q⟩
  | write n p v =>
    simp only [access, Option.ite_none_right_eq_some] at h
    replace h := h.2
    unfold Dsm.write at h
    split at h
    · rename_i g hm
      cases h
      exact store_inv hi hs (((hi p).slot n).map_lt g true hm) v
    · rename_i g hm
      cases h
      exact mkwrite_store_inv hi hs (((hi p).slot n).map_lt g false hm) v
    · rename_i hm
      obtain ⟨⟨m₂, g⟩, hf, rfl⟩ := Option.map_eq_some_iff.1 h
      have hF := fault_faulted hi hs hm hf
      rw [← hF.last]
      exact mkwrite_store_inv hF.inv hF.settled (((hF.inv p).slot n).cached_lt g hF.cached) v

/-- The value of the most recent write to page `p`, zero if there was none. -/
def lastWrite (p : Nat) (as : List (Access V)) : V := as.foldl (Access.after p) 0

theorem run_access {as : List (Access V)} (h : run (access c pages) Dsm.init as = some m) (p : Nat) :
    (m.Inv c ∧ m.Settled) ∧ m.last p = lastWrite p as :=
  run_foldl (fun m : Dsm V => m.Inv c ∧ m.Settled) (fun m => m.last p)
    (fun _ _ _ hi ht => have h := access_inv hi.1 hi.2 ht; ⟨⟨h.1, h.2.1⟩, h.2.2 p⟩) init_inv h

/-! ## Reads -/

/-- What the read of page `p` by node `n` returns is current: nobody wrote the page, the reader wrote it last, or the
owner did, has it in its cache still, and the copy that the reader has, if any, was obtained since. -/
def Current (c : Cluster) (m : Dsm V) (n p : Nat) : Prop :=
  m.lastWriter p = none ∨ m.lastWriter p = some n ∨
    (m.lastWriter p = some c.owner ∧ OwnerHolds (m.slot c.owner p) ∧
      ((m.slot n p).view ≠ none → (m.slot n p).since = m.writes p))

/-- A read of a current copy, in any state that the accesses can reach. -/
theorem read_last (hi : m.Inv c) (hs : m.Settled) (hr : n = c.owner ∨ c.findsOwner n = true) (hc : Current c m n p) :
    ∃ m', m.read c pages n p = some (m', m.last p) := by
  have hp := hi p
  cases hm : (m.slot n p).map with
  | some gb =>
    obtain ⟨g, b⟩ := gb
    have hwriter : m.lastWriter p = some n → (m.slot n p).heap g = m.last p := by
      intro hl
      obtain ⟨g', b', hg', hv⟩ := (hp.slot n).writer hl
      rw [hm] at hg'
      cases hg'
      exact hv
    have hview : (m.slot n p).view = some ((m.slot n p).heap g) := by simp [Slot.view, hm]
    refine ⟨m, ?_⟩
    simp only [Dsm.read, hm, Option.some.injEq, Prod.mk.injEq, true_and]
    rcases hc with hl | hl | ⟨hl, hh, hsn⟩
    · rw [(hp.slot n).map_zero hl g b hm, hp.last_zero hl]
    · exact hwriter hl
    · by_cases hn : n = c.owner
      · exact hwriter (hn ▸ hl)
      · exact (hp.slot n).fresh hl hh hn (hsn (by simp [hview])) _ hview
  | none =>
    obtain ⟨⟨m₁, g⟩, hf⟩ := Option.isSome_iff_exists.1 (fault_isSome pages p hs hr false)
    have hF := fault_faulted hi hs hm hf
    obtain ⟨hother, hsince⟩ := fault_read hs hm hf
    have hp₁ := hF.inv p
    rw [hF.writes, hF.lastWriter, hF.last] at hp₁
    have hunmapped : m.lastWriter p ≠ some n := by
      intro hl
      obtain ⟨g', b', hg', -⟩ := (hp.slot n).writer hl
      rw [hm] at hg'
      cases hg'
    refine ⟨m₁.modify n p (·.setMap g false), ?_⟩
    simp only [Dsm.read, hm, hf, Option.map_some, Option.some.injEq, Prod.mk.injEq, true_and]
    rcases hc with hl | hl | ⟨hl, hh, hsn⟩
    · rw [(hp₁.slot n).cached_zero hl g hF.cached, hp.last_zero hl]
    · exact absurd hl hunmapped
    · have hn : n ≠ c.owner := fun h => hunmapped (h ▸ hl)
      refine (hp₁.slot n).fresh hl (by rw [hother c.owner p (Ne.symm hn)]; exact hh) hn (hsince fun hcd => ?_) _ ?_
      · refine hsn ?_
        simpa [Slot.view, hm] using hcd
      · simp [Slot.view, hF.map, hm, hF.cached]

/-- **Reads return the last write**, in every run, as long as what they read is current. -/
theorem reads_return_last (c : Cluster) (pages : Nat) (as : List (Access V)) (m : Dsm V)
    (h : run (access c pages) Dsm.init as = some m) (n p : Nat) (hr : n = c.owner ∨ c.findsOwner n = true)
    (hc : Current c m n p) : ∃ m', m.read c pages n p = some (m', lastWrite p as) := by
  obtain ⟨⟨hi, hs⟩, hl⟩ := run_access h p
  rw [← hl]
  exact read_last hi hs hr hc

/-- The owner writes and another node then reads what it wrote. -/
theorem owner_write_is_read : ∃ m m' : Dsm Page,
    run (access threeNodes 1) Dsm.init [.write 0 0 (Page.filled 7)] = some m ∧
      m.read threeNodes 1 1 0 = some (m', Page.filled 7) := by
  obtain ⟨m', h⟩ := reads_return_last threeNodes 1 [.write 0 0 (Page.filled 7)] _ rfl 1 0 (Or.inr rfl)
    (Or.inr (Or.inr ⟨rfl, ⟨0, true, rfl, rfl⟩, fun hv => absurd rfl hv⟩))
  exact ⟨_, m', rfl, h⟩

/-- Node 1 writes a page that node 0 owns; node 2 then fetches the owner's zero page. -/
theorem reader_misses_write : ∃ m m' : Dsm Page,
    run (access threeNodes 1) Dsm.init [.write 1 0 (Page.filled 7)] = some m ∧
      m.read threeNodes 1 2 0 = some (m', 0) ∧ lastWrite 0 [Access.write 1 0 (Page.filled 7)] ≠ 0 :=
  ⟨_, _, rfl, rfl, fun h => absurd (Page.filled_injective h) (by decide)⟩

end UckSmp.Memory
