import Mathlib.Data.List.Perm.Basic
import UckSmp.Memory.Exclusive

/-!
# Page references

`alloc_page` gives a page one reference, `get_page` adds one, `__free_page` and the unmapping of a page that a fault
returned drop one. A fault has one reference to the page that it allocated, an entry one to the page that it points to,
and a mapping one to the page that it maps. The batch fetch takes one too many for each page that it installs, and the
install of a page fetched alone forgets the page that the entry may still have.

* `references_balance`: when neither happens, the counts are those of the entries and of the mappings.
-/

namespace UckSmp.Memory.Faults

open Lib.Transition

variable {c : Config} {s t : Sys} {e : Ev} {i : Nat} {x : Thread} {k : Key}

/-! ## Statement -/

/-- When no fault is under way, a page has one reference if an entry points to it and one for each fault that returned
it and is not yet unmapped; with no entries and no mappings left, no page has a reference. -/
def Balanced (s : Sys) : Prop :=
  s.threads = [] →
    (∀ g, ((∃ k, s.node.cache.page k = some g) → s.node.refs g = 1 + s.node.mapped.count g) ∧
      ((∀ k, s.node.cache.page k ≠ some g) → s.node.refs g = s.node.mapped.count g)) ∧
    ((∀ k, s.node.cache.page k = none) → s.node.mapped = [] → ∀ g, ¬ 0 < s.node.refs g)

/-- The step leaks no reference: a page of a batch finds no entry, and a page fetched alone finds an entry without a
page. -/
def LeaksNothing (c : Config) (s : Sys) : Ev → Prop
  | .thread i (.receive entryAlloc) => ∀ x ∈ s.threads[i]?, ∀ j ∈ x.phase.nextIndex,
      (s.node.batchPage c (x.key.1, j) entryAlloc).1 = false
  | .thread i (.complete ok) => ∀ x ∈ s.threads[i]?,
      ok = true ∨ c.owner x.key.1 = c.self → s.node.cache.page x.key = none
  | _ => True

instance : Decidable (LeaksNothing c s e) :=
  match e with
  | .thread i (.receive _) => inferInstanceAs (Decidable (∀ x ∈ s.threads[i]?, ∀ j ∈ x.phase.nextIndex, _ = false))
  | .thread i (.complete _) => inferInstanceAs (Decidable (∀ x ∈ s.threads[i]?, _ → _))
  | .thread _ .wake | .thread _ .request | .thread _ .batchEnd | .thread _ .recheck => .isTrue trivial
  | .fault .. | .mkwrite _ | .invalidate _ | .leave _ | .unmap _ | .quorum _ | .teardown => .isTrue trivial

/-! ## Who has a page -/

/-- One reference to the page `g`. -/
def oneRef (g j : Nat) : Nat := if g = j then 1 else 0

theorem oneRef_self (g : Nat) : oneRef g g = 1 := if_pos rfl

theorem oneRef_of_ne {g j : Nat} (h : g ≠ j) : oneRef g j = 0 := if_neg h

theorem count_cons_oneRef (g j : Nat) (l : List Nat) : (g :: l).count j = l.count j + oneRef g j := by
  rw [List.count_cons]
  simp only [beq_iff_eq, oneRef]

theorem getPage_refs (s : Node) (g j : Nat) : (s.getPage g).refs j = s.refs j + oneRef g j := by
  by_cases hj : g = j
  · subst hj
    simp only [Node.getPage, Node.addRef, Function.update_self, oneRef_self]
    rfl
  · simp only [Node.getPage, Node.addRef, Function.update_of_ne (Ne.symm hj), oneRef_of_ne hj]
    omega

theorem freePage_refs (s : Node) (g j : Nat) : (s.freePage g).refs j = s.refs j - oneRef g j := by
  by_cases hj : g = j
  · subst hj
    simp only [Node.freePage, Node.addRef, Function.update_self, oneRef_self]
    rfl
  · simp only [Node.freePage, Node.addRef, Function.update_of_ne (Ne.symm hj), oneRef_of_ne hj]
    omega

theorem returnPage_refs (s : Node) (g j : Nat) : (s.returnPage g).refs j = s.refs j + oneRef g j := getPage_refs s g j

theorem toNat_some_beq (g j : Nat) : (some g == some j).toNat = oneRef g j := by
  by_cases hj : g = j
  · subst hj
    rw [oneRef_self, BEq.rfl, Bool.toNat_true]
  · rw [oneRef_of_ne hj, beq_eq_false_iff_ne.2 fun h => hj (Option.some.inj h), Bool.toNat_false]

/-- The number of faults that have a page in hand. -/
def inHand (l : List Thread) (g : Nat) : Nat := l.countP fun x => x.phase.own == some g

theorem inHand_append {own : Nat} (hx : x.phase.own = some own) (l : List Thread) (g : Nat) :
    inHand (l ++ [x]) g = inHand l g + oneRef own g := by
  rw [inHand, List.countP_append, List.countP_singleton, hx]
  simp only [beq_iff_eq, Option.some.injEq, inHand, oneRef]

theorem inHand_eraseIdx {l : List Thread} (hx : l[i]? = some x) (g : Nat) :
    inHand (l.eraseIdx i) g + (x.phase.own == some g).toNat = inHand l g := by
  obtain ⟨hi, rfl⟩ := List.getElem?_eq_some_iff.1 hx
  have hperm := (List.getElem_cons_eraseIdx_perm hi).countP_eq fun x : Thread => x.phase.own == some g
  rw [List.countP_cons] at hperm
  rw [inHand, inHand, ← hperm]
  cases l[i].phase.own == some g <;> rfl

/-- A fault that moves on with its page. -/
theorem inHand_set {l : List Thread} (hx : l[i]? = some x) {y : Thread} (hy : y.phase.own = x.phase.own) (g : Nat) :
    inHand (l.set i y) g = inHand l g := by
  have hi := (List.getElem?_eq_some_iff.1 hx).1
  have hset : (l.set i y)[i]? = some y := List.getElem?_set_self hi
  have hold := inHand_eraseIdx hx g
  have hnew := inHand_eraseIdx hset g
  rw [List.eraseIdx_set_eq, hy] at hnew
  omega

/-- The references are those of the entries, of the mappings and of the faults under way. An entry or a fault that has a
page has it alone, and pages that are not yet allocated are nobody's. -/
structure Counted (s : Sys) : Prop where
  refs : ∀ g, s.node.refs g = s.node.cache.pointers g + s.node.mapped.count g + inHand s.threads g
  once : ∀ g, s.node.cache.pointers g + inHand s.threads g ≤ 1
  fresh : ∀ g, s.node.next ≤ g →
    s.node.cache.pointers g = 0 ∧ s.node.mapped.count g = 0 ∧ inHand s.threads g = 0
  present : ∀ x ∈ s.threads, (s.node.cache.entry x.key).isSome = true

theorem Counted.init : Counted {} where
  refs _ := rfl
  once _ := Nat.zero_le _
  fresh _ _ := ⟨rfl, rfl, rfl⟩
  present _ h := by cases h

theorem pointers_pos_of_page {g : Nat} (h : s.node.cache.page k = some g) : 0 < s.node.cache.pointers g :=
  (Cache.tally_pos_iff rfl).2 ⟨k, by rw [h]; exact BEq.rfl⟩

theorem Counted.balanced (h : Counted s) : Balanced s := by
  intro hs
  have hhand : ∀ g, inHand s.threads g = 0 := fun g => by rw [hs]; rfl
  have hrefs : ∀ g, s.node.refs g = s.node.cache.pointers g + s.node.mapped.count g := fun g => by
    rw [h.refs g, hhand g]
    omega
  have hzero : ∀ g, (∀ k, s.node.cache.page k ≠ some g) → s.node.cache.pointers g = 0 := by
    intro g hg
    by_contra hpos
    obtain ⟨k, hk⟩ := (Cache.tally_pos_iff rfl).1 (Nat.pos_of_ne_zero hpos)
    exact hg k (eq_of_beq hk)
  refine ⟨fun g => ⟨?_, ?_⟩, ?_⟩
  · rintro ⟨k, hk⟩
    have hpos := pointers_pos_of_page hk
    have hone := h.once g
    rw [hrefs g]
    omega
  · intro hg
    rw [hrefs g, hzero g hg]
    omega
  · intro hno hmap g
    have hg := hzero g fun k => by rw [hno k]; exact nofun
    rw [hrefs g, hg, hmap]
    simp

/-! ## Steps -/

/-- Faults under way keep their entries. -/
theorem Counted.present_step (h : Counted s) (ht : step c s e = some t) :
    ∀ x ∈ t.threads, (t.node.cache.entry x.key).isSome = true := by
  intro z hz
  have hold : e ≠ .teardown → (∃ y ∈ s.threads, y.key = z.key) → (t.node.cache.entry z.key).isSome = true := by
    rintro he ⟨y, hy, hyz⟩
    exact entry_isSome_of_step ht he (hyz ▸ h.present y hy)
  cases e with
  | fault k w a =>
    have hkeep : z ∈ s.threads → (t.node.cache.entry z.key).isSome = true :=
      fun hz => hold nofun ⟨z, hz, rfl⟩
    have henters := Node.enters c s.node k w a
    cases ht
    unfold Sys.fault at hz hkeep ⊢
    rcases hr : s.node.enter c k w a with ⟨r, node⟩
    rw [hr] at henters hz hkeep
    cases henters with
    | fetch he hok =>
      rcases List.mem_append.1 hz with hz | hz
      · exact hkeep hz
      · cases List.mem_singleton.1 hz
        simp only [Node.put_cache, Cache.put_entry_self, Option.isSome_some]
    | _ => exact hkeep hz
  | thread i act =>
    obtain ⟨x, hx, ha⟩ := Acts.of_step ht
    exact hold nofun (ha.mem_threads (List.mem_of_getElem? hx) hz)
  | teardown =>
    obtain ⟨hs, rfl⟩ := of_step_teardown ht
    simp only [hs] at hz
    cases hz
  | unmap g =>
    obtain ⟨-, rfl⟩ := of_step_unmap ht
    exact h.present z hz
  | _ =>
    have hts : t.threads = s.threads := by
      cases ht
      rfl
    exact hold nofun ⟨z, hts ▸ hz, rfl⟩

/-- A step keeps the counts if references go where pages go, nobody gets a page that nobody had, and only such pages are
mapped. -/
theorem Counted.of_moves (h : Counted s) (hp : ∀ x ∈ t.threads, (t.node.cache.entry x.key).isSome = true)
    (hnext : s.node.next ≤ t.node.next)
    (hrefs : ∀ g, t.node.refs g + (s.node.cache.pointers g + s.node.mapped.count g + inHand s.threads g) =
      s.node.refs g + (t.node.cache.pointers g + t.node.mapped.count g + inHand t.threads g))
    (honce : ∀ g, t.node.cache.pointers g + inHand t.threads g ≤ s.node.cache.pointers g + inHand s.threads g)
    (hmap : ∀ g, t.node.mapped.count g ≠ 0 →
      s.node.mapped.count g ≠ 0 ∨ s.node.cache.pointers g ≠ 0 ∨ inHand s.threads g ≠ 0) : Counted t := by
  refine ⟨fun g => ?_, fun g => Nat.le_trans (honce g) (h.once g), fun g hg => ?_, hp⟩
  · have hr := hrefs g
    rw [h.refs g] at hr
    omega
  · obtain ⟨hptr, hmapped, hhand⟩ := h.fresh g (Nat.le_trans hnext hg)
    have hle := honce g
    refine ⟨by omega, ?_, by omega⟩
    by_contra hne
    rcases hmap g hne with hm | hm | hm
    · exact hm hmapped
    · exact hm hptr
    · exact hm hhand

/-- A step that moves no page. -/
theorem Counted.of_same (h : Counted s) (hp : ∀ x ∈ t.threads, (t.node.cache.entry x.key).isSome = true)
    (hnext : s.node.next ≤ t.node.next) (hptr : ∀ g, t.node.cache.pointers g = s.node.cache.pointers g)
    (hmap : t.node.mapped = s.node.mapped) (hrefs : ∀ g, t.node.refs g = s.node.refs g)
    (hhand : ∀ g, inHand t.threads g = inHand s.threads g) : Counted t := by
  refine h.of_moves hp hnext (fun g => ?_) (fun g => ?_) (fun g hg => ?_)
  · rw [hptr g, hmap, hrefs g, hhand g]
  · rw [hptr g, hhand g]
  · exact .inl (hmap ▸ hg)

/-- A fault maps a page of the cache. -/
theorem Counted.returnPage (h : Counted s) {g : Nat} (hk : s.node.cache.page k = some g)
    (hp : ∀ x ∈ t.threads, (t.node.cache.entry x.key).isSome = true) (hnext : s.node.next ≤ t.node.next)
    (hptr : ∀ j, t.node.cache.pointers j = s.node.cache.pointers j)
    (hmap : t.node.mapped = g :: s.node.mapped)
    (hrefs : ∀ j, t.node.refs j + inHand s.threads j = s.node.refs j + oneRef g j + inHand t.threads j)
    (hhand : ∀ j, inHand t.threads j ≤ inHand s.threads j) : Counted t := by
  have hpos := pointers_pos_of_page hk
  refine h.of_moves hp hnext (fun j => ?_) (fun j => ?_) (fun j hj => ?_)
  · have hr := hrefs j
    rw [hptr j, hmap, count_cons_oneRef]
    omega
  · have hle := hhand j
    rw [hptr j]
    omega
  · by_cases hgj : g = j
    · subst hgj
      exact .inr (.inl (by omega))
    · rw [hmap, count_cons_oneRef, oneRef_of_ne hgj] at hj
      exact .inl hj

/-- A fault allocates a page and has it in hand. -/
theorem Counted.alloc (h : Counted s) (hp : ∀ x ∈ t.threads, (t.node.cache.entry x.key).isSome = true)
    (hnext : t.node.next = s.node.next + 1) (hptr : ∀ g, t.node.cache.pointers g = s.node.cache.pointers g)
    (hmap : t.node.mapped = s.node.mapped) (hrefs : t.node.refs = Function.update s.node.refs s.node.next 1)
    (hhand : ∀ g, inHand t.threads g = inHand s.threads g + oneRef s.node.next g) : Counted t := by
  obtain ⟨hptr0, hmap0, hhand0⟩ := h.fresh s.node.next (Nat.le_refl _)
  refine ⟨fun g => ?_, fun g => ?_, fun g hg => ?_, hp⟩
  · rw [hrefs, hptr g, hmap, hhand g]
    by_cases hg : s.node.next = g
    · subst hg
      rw [Function.update_self, hptr0, hmap0, hhand0, oneRef_self]
      rfl
    · rw [Function.update_of_ne (Ne.symm hg), h.refs g, oneRef_of_ne hg]
      rfl
  · rw [hptr g, hhand g]
    by_cases hg : s.node.next = g
    · subst hg
      rw [hptr0, hhand0, oneRef_self]
    · rw [oneRef_of_ne hg]
      exact h.once g
  · rw [hnext] at hg
    obtain ⟨hptr1, hmap1, hhand1⟩ := h.fresh g (by omega)
    rw [hptr g, hmap, hhand g, oneRef_of_ne (by omega)]
    exact ⟨hptr1, hmap1, hhand1⟩

/-- A fault comes in. -/
theorem Counted.fault (h : Counted s) {w : Bool} {a : Allocs}
    (hp : ∀ x ∈ (s.fault c k w a).threads, ((s.fault c k w a).node.cache.entry x.key).isSome = true) :
    Counted (s.fault c k w a) := by
  have henters := Node.enters c s.node k w a
  have hptr : ∀ g, (s.node.enter c k w a).2.cache.pointers g = s.node.cache.pointers g :=
    fun g => henters.tally (· == some g) rfl
  unfold Sys.fault at hp ⊢
  rcases hr : s.node.enter c k w a with ⟨r, node⟩
  rw [hr] at henters hptr hp
  cases henters with
  | sigbus => exact h
  | @hit e g he hg =>
    exact h.returnPage (he ▸ hg) hp (Nat.le_refl _) hptr rfl
      (fun j => congrArg (· + (inHand s.threads j : Int)) (returnPage_refs (s.node.put k e) g j))
      (fun j => Nat.le_refl _)
  | null he => exact h.of_same hp (Nat.le_refl _) hptr rfl (fun _ => rfl) (fun _ => rfl)
  | oom => exact h
  | denied he => exact h.of_same hp (Nat.le_refl _) hptr rfl (fun _ => rfl) (fun _ => rfl)
  | fetch he hok => exact h.alloc hp rfl hptr rfl rfl (inHand_append rfl s.threads)

/-- A fault puts its page into an entry without one, and maps it. -/
theorem Counted.install (h : Counted s) {w : Bool} {own : Nat} {y : PageEntry Nat} (hy : s.node.cache.entry k = some y)
    (hk : s.node.cache.page k = none) (hn : t.node = s.node.install k w own)
    (hhand : ∀ j, inHand t.threads j + oneRef own j = inHand s.threads j)
    (hp : ∀ x ∈ t.threads, (t.node.cache.entry x.key).isSome = true) : Counted t := by
  have hptr : ∀ j, t.node.cache.pointers j = s.node.cache.pointers j + oneRef own j := fun j => by
    have htally := Node.install_tally (· == some j) rfl w own hy
    rw [hk, toNat_some_beq] at htally
    rw [hn]
    exact htally
  have hmap : t.node.mapped = own :: s.node.mapped := by
    rw [hn]
    simp only [Node.install, hy]
    rfl
  have hrefs : ∀ j, t.node.refs j = s.node.refs j + oneRef own j := fun j => by
    rw [hn]
    simp only [Node.install, hy]
    exact returnPage_refs _ own j
  refine h.of_moves hp ?_ (fun j => ?_) (fun j => ?_) (fun j hj => ?_)
  · rw [hn, Node.install_next]
  · have hj := hhand j
    rw [hptr j, hmap, hrefs j, count_cons_oneRef]
    omega
  · have hj := hhand j
    rw [hptr j]
    omega
  · by_cases hoj : own = j
    · subst hoj
      have hown := hhand own
      rw [oneRef_self] at hown
      exact .inr (.inr (by omega))
    · rw [hmap, count_cons_oneRef, oneRef_of_ne hoj] at hj
      exact .inl hj

/-- A fault that finds its page after the batch frees the page it has in hand and maps the one of the entry. -/
theorem Counted.afterBatch (h : Counted s) {w : Bool} {own : Nat} {r : Nat × Node}
    (hr : s.node.afterBatch k w own = some r) (hn : t.node = r.2)
    (hhand : ∀ j, inHand t.threads j + oneRef own j = inHand s.threads j)
    (hp : ∀ x ∈ t.threads, (t.node.cache.entry x.key).isSome = true) : Counted t := by
  have hptr : ∀ j, t.node.cache.pointers j = s.node.cache.pointers j := fun j => by
    rw [hn]
    exact Node.afterBatch_tally (· == some j) rfl hr
  obtain ⟨y, hy, hpage, hnode⟩ := Node.afterBatch_eq_some hr
  have hk : s.node.cache.page k = some r.1 := by rw [Cache.page, hy, Option.bind_some, hpage]
  rw [hnode] at hn
  refine h.returnPage hk hp ?_ hptr ?_ (fun j => ?_) (fun j => ?_)
  · rw [hn]
    exact Nat.le_refl _
  · rw [hn]
    rfl
  · have hj := hhand j
    have hfree := freePage_refs s.node own j
    simp only [hn, returnPage_refs, Node.put, hfree]
    omega
  · have hj := hhand j
    omega

/-- A fault whose fetch failed frees the page it has in hand. -/
theorem Counted.abort (h : Counted s) {own : Nat} (hn : t.node = s.node.abort k own)
    (hhand : ∀ j, inHand t.threads j + oneRef own j = inHand s.threads j)
    (hp : ∀ x ∈ t.threads, (t.node.cache.entry x.key).isSome = true) : Counted t := by
  have hptr : ∀ j, t.node.cache.pointers j = s.node.cache.pointers j := fun j => by
    rw [hn]
    exact Node.abort_tally (· == some j) rfl
  have hrefs : ∀ j, t.node.refs j = s.node.refs j - oneRef own j := fun j => by
    rw [hn, Node.abort_eq]
    exact freePage_refs s.node own j
  have hmap : t.node.mapped = s.node.mapped := by
    rw [hn, Node.abort_eq]
    rfl
  refine h.of_moves hp ?_ (fun j => ?_) (fun j => ?_) (fun j hj => ?_)
  · rw [hn, Node.abort_eq]
    exact Nat.le_refl _
  · have hj := hhand j
    rw [hptr j, hrefs j, hmap]
    omega
  · have hj := hhand j
    rw [hptr j]
    omega
  · rw [hmap] at hj
    exact .inl hj

/-- A fault goes on. -/
theorem Counted.acts (h : Counted s) (hx : s.threads[i]? = some x) {act : Act}
    (hg : LeaksNothing c s (.thread i act)) (ha : Acts c s i x x.phase act t)
    (hp : ∀ x ∈ t.threads, (t.node.cache.entry x.key).isSome = true) : Counted t := by
  have hpresent := h.present x (List.mem_of_getElem? hx)
  have herase := inHand_eraseIdx hx
  have hset : ∀ p : Phase, p.own = x.phase.own → ∀ g, inHand (s.threads.set i { x with phase := p }) g =
      inHand s.threads g := fun p hp => inHand_set hx hp
  have hfinish : ∀ own, x.phase.own = some own → ∀ j, inHand (s.threads.eraseIdx i) j + oneRef own j =
      inHand s.threads j := fun own hown j => by
    rw [← toNat_some_beq, ← hown]
    exact herase j
  obtain ⟨key, w, phase⟩ := x
  cases ha with
  | wake hw =>
    obtain ⟨hk, -, rfl⟩ := Node.wake_eq_some hw
    refine h.returnPage hk hp (Nat.le_refl _) (fun _ => rfl) rfl (fun j => ?_) (fun j => (herase j).le)
    have hhand : inHand (s.threads.eraseIdx i) j = inHand s.threads j := herase j
    simp only [Sys.finish, returnPage_refs, hhand]
  | sigbus => exact h.of_same hp (Nat.le_refl _) (fun _ => rfl) rfl (fun _ => rfl) herase
  | request own =>
    obtain ⟨statics, hnode⟩ := Sys.request_node (c := c) (s := s) (i := i) (x := ⟨key, w, .entered own⟩) own
    obtain ⟨p, hown, hts⟩ := Sys.request_threads (c := c) (s := s) (i := i) (x := ⟨key, w, .entered own⟩) own
    refine h.of_same hp (by rw [hnode]) (fun g => by rw [hnode]) (by rw [hnode]) (fun g => by rw [hnode]) (fun g => ?_)
    rw [hts]
    exact hset p hown g
  | receive own j rest n ea =>
    have hno : (s.node.batchPage c (key.1, j) ea).1 = false := hg _ hx j rfl
    have hnode := Node.batchPage_of_fst_eq_false hno
    rw [Sys.receive_eq, hno, if_neg Bool.false_ne_true, hnode] at hp ⊢
    refine h.of_same hp (Nat.le_succ _) (fun _ => rfl) rfl (fun g => ?_) (hset (.batch own rest n) rfl)
    -- the page was nobody's before, and is nobody's again
    obtain ⟨hptr0, hmap0, hhand0⟩ := h.fresh s.node.next (Nat.le_refl _)
    have hrefs0 := h.refs s.node.next
    simp only [freePage_refs, Node.allocPage]
    by_cases hng : s.node.next = g
    · subst hng
      rw [Function.update_self, oneRef_self]
      omega
    · rw [Function.update_of_ne (Ne.symm hng), oneRef_of_ne hng]
      omega
  | batchEnd own rest hn =>
    exact h.of_same hp (Nat.le_refl _) (fun _ => rfl) rfl (fun _ => rfl) (hset (.batched own) rfl)
  | batchFailed own rest =>
    exact h.of_same hp (Nat.le_refl _) (fun _ => rfl) rfl (fun _ => rfl) (hset (.fetching own) rfl)
  | recheck own =>
    cases hr : s.node.afterBatch key w own with
    | none =>
      simp only [Sys.recheck, hr] at hp ⊢
      exact h.of_same hp (Nat.le_refl _) (fun _ => rfl) rfl (fun _ => rfl) (hset (.fetching own) rfl)
    | some r =>
      simp only [Sys.recheck, hr] at hp ⊢
      exact h.afterBatch hr rfl (hfinish own rfl) hp
  | complete own ok =>
    by_cases hok : ok = true ∨ c.owner key.1 = c.self
    · rw [Sys.complete_of_ok hok] at hp ⊢
      obtain ⟨y, hy⟩ := Option.isSome_iff_exists.1 hpresent
      exact h.install hy (hg _ hx hok) rfl (hfinish own rfl) hp
    · rw [Sys.complete_of_not hok] at hp ⊢
      exact h.abort rfl (hfinish own rfl) hp

/-- A received `INVALIDATE` drops the reference of the entry. -/
theorem Counted.invalidate (h : Counted s)
    (hp : ∀ x ∈ s.threads, ((s.node.invalidate k).cache.entry x.key).isSome = true) :
    Counted { s with node := s.node.invalidate k } := by
  have htally : ∀ j, (s.node.invalidate k).cache.pointers j + (s.node.cache.page k == some j).toNat =
      s.node.cache.pointers j := fun j => Node.invalidate_tally (· == some j) rfl
  have heq := Node.invalidate_eq (s := s.node) k
  cases hk : s.node.cache.page k with
  | none =>
    rw [hk] at heq htally
    refine h.of_same hp ?_ htally ?_ (fun j => ?_) (fun _ => rfl)
    · simp only [heq]
      exact Nat.le_refl _
    · simp only [heq]
    · simp only [heq]
  | some g =>
    rw [hk] at heq htally
    have hrefs : ∀ j, (s.node.invalidate k).refs j = s.node.refs j - oneRef g j := fun j => by
      rw [heq]
      exact freePage_refs s.node g j
    have hmap : (s.node.invalidate k).mapped = s.node.mapped := by
      rw [heq]
      rfl
    refine h.of_moves hp ?_ (fun j => ?_) (fun j => ?_) (fun j hj => ?_)
    · simp only [heq]
      exact Nat.le_refl _
    · have hj := htally j
      rw [toNat_some_beq] at hj
      simp only [hrefs j, hmap]
      omega
    · have hj := htally j
      simp only
      omega
    · simp only [hmap] at hj
      exact .inl hj

/-- A page is unmapped. -/
theorem Counted.unmap (h : Counted s) {g : Nat} (hg : g ∈ s.node.mapped) :
    Counted { s with node := s.node.unmap g } := by
  have hcount : ∀ j, (s.node.mapped.erase g).count j + oneRef g j = s.node.mapped.count j := by
    intro j
    have hperm := (List.perm_cons_erase hg).count_eq j
    rw [count_cons_oneRef] at hperm
    exact hperm.symm
  refine h.of_moves h.present (Nat.le_refl _) (fun j => ?_) (fun j => Nat.le_refl _) (fun j hj => ?_)
  · have hj := hcount j
    have hfree := freePage_refs s.node g j
    simp only [Node.unmap, hfree, Node.freePage_cache]
    omega
  · have hc := hcount j
    simp only [Node.unmap] at hj
    exact .inl (by omega)

/-- The teardown drops the references of all entries. -/
theorem Counted.teardown (h : Counted s) (hs : s.threads = []) : Counted { s with node := s.node.cleanup } := by
  obtain ⟨hmap, hnext⟩ := Node.foldl_freeEntry_frame s.node.cache.tree s.node
  have hrefs : ∀ j, s.node.cleanup.refs j = s.node.refs j - s.node.cache.pointers j :=
    fun j => Node.foldl_freeEntry_refs s.node.cache.tree s.node j
  refine h.of_moves ?_ hnext.ge (fun j => ?_) (fun j => ?_) (fun j hj => .inl ?_)
  · simp only [hs]
    exact fun x hx => nomatch hx
  · have hm : s.node.cleanup.mapped = s.node.mapped := hmap
    have hp : s.node.cleanup.cache.pointers j = 0 := rfl
    simp only [hrefs j, hm, hp]
    omega
  · have hp : s.node.cleanup.cache.pointers j = 0 := rfl
    simp only [hp]
    omega
  · have hm : s.node.cleanup.mapped = s.node.mapped := hmap
    simpa only [hm] using hj

theorem Counted.step (h : Counted s) (hg : LeaksNothing c s e) (ht : step c s e = some t) : Counted t := by
  have hp := h.present_step ht
  cases e with
  | fault k w a =>
    cases ht
    exact h.fault hp
  | thread i act =>
    obtain ⟨x, hx, ha⟩ := Acts.of_step ht
    exact h.acts hx hg ha hp
  | mkwrite k =>
    cases ht
    have heq := Node.mkwrite_eq (s := s.node) k
    refine h.of_same hp ?_ (fun g => Node.mkwrite_tally (· == some g) rfl) ?_ (fun g => ?_) (fun _ => rfl)
    · simp only [heq]
      exact Nat.le_refl _
    · simp only [heq]
    · simp only [heq]
  | invalidate k =>
    cases ht
    exact h.invalidate hp
  | leave n =>
    cases ht
    exact h.of_same hp (Nat.le_refl _) (fun g => Node.leave_tally (· == some g) n) rfl (fun _ => rfl) (fun _ => rfl)
  | unmap g =>
    obtain ⟨hmem, rfl⟩ := of_step_unmap ht
    exact h.unmap hmem
  | quorum nodes =>
    cases ht
    exact ⟨h.refs, h.once, h.fresh, h.present⟩
  | teardown =>
    obtain ⟨hs, rfl⟩ := of_step_teardown ht
    exact h.teardown hs

/-- **Page references balance** in every run, with any interleaving of the faults, in which no batch installs a page and
no page fetched alone replaces another. -/
theorem references_balance (c : Config) (es : List Ev) (hg : EachStep (step c) (LeaksNothing c) {} es) :
    Always (step c) Balanced {} es :=
  Always.of_eachStep Counted (fun _ _ _ h hq ht => h.step hq ht) (fun _ h => h.balanced) Counted.init hg

/-- A page is fetched alone, mapped twice, invalidated and unmapped. -/
theorem single_fetch_balanced :
    (run (step (client 1)) {} [.fault (0, 0) false ⟨true, true⟩, .thread 0 .request, .thread 0 (.complete true),
      .fault (0, 0) true ⟨true, true⟩, .unmap 0, .invalidate (0, 0), .unmap 0, .teardown]).isSome = true ∧
    Always (step (client 1)) Balanced {} [.fault (0, 0) false ⟨true, true⟩, .thread 0 .request,
      .thread 0 (.complete true), .fault (0, 0) true ⟨true, true⟩, .unmap 0, .invalidate (0, 0), .unmap 0, .teardown] :=
  ⟨by decide, references_balance (client 1) _ (by decide)⟩

/-- One fault on a region of two pages, then the page that it returned is unmapped and the regions are cleaned up: both
pages of the batch still have a reference. -/
theorem batch_leaks :
    ¬ Always (step (client 2)) Balanced {} [.fault (0, 0) false ⟨true, true⟩, .thread 0 .request,
      .thread 0 (.receive true), .thread 0 (.receive true), .thread 0 .batchEnd, .thread 0 .recheck, .unmap 1,
      .teardown] := by
  intro h
  obtain ⟨-, hno⟩ := h.get (by decide) (by decide)
  exact hno (fun _ => rfl) (by decide) 1 (by decide)

end UckSmp.Memory.Faults
