import UckSmp.Memory.References

/-!
# What freed pages hold

The faults of `Memory.Faults`, with the contents of the pages. A page is zero when it is allocated; a fetch fills it,
and processes write to the pages that they have mapped. `freed` are the pages that a step gives to `__free_page`, and
`frees` what they hold at that moment: `uck_page_free_all` clears a page before it frees it, `uck_handle_invalidate` and
the install of a batch page do not.

* `mem_frees_of_lost`: no other page loses a reference, except by an unmapping.
* `scrubbed_iff`: when every page that was in a cache is zero as it is freed.
* `freed_with_data`: the two places where one is not.
-/

namespace UckSmp.Memory.Scrub

open Lib.Transition
open Faults (inHand oneRef)

/-! ## Model -/

/-- The pages that a thread frees. -/
def threadFrees (c : Config) (s : Faults.Sys) (x : Faults.Thread) : Faults.Phase → Faults.Act → List Nat
  | .batch _ (j :: _) _, .receive entryAlloc =>
    if (s.node.batchPage c (x.key.1, j) entryAlloc).1 = false then [s.node.next]
    else (s.node.cache.page (x.key.1, j)).toList
  | .batched own, .recheck => if (s.node.afterBatch x.key x.isWrite own).isSome then [own] else []
  | .fetching own, .complete ok => if ok = true ∨ c.owner x.key.1 = c.self then [] else [own]
  | _, _ => []

/-- The pages that a step frees. -/
def freed (c : Config) (s : Faults.Sys) : Faults.Ev → List Nat
  | .thread i act => s.threads[i]?.elim [] fun x => threadFrees c s x x.phase act
  | .invalidate k => (s.node.cache.page k).toList
  | .teardown => s.node.cache.tree.filterMap s.node.cache.page
  | _ => []

/-- The node, and what its pages hold. -/
structure Sys where
  base : Faults.Sys := {}
  contents : Nat → Page := fun _ => 0

inductive Ev
  /-- A step of the node; `data` is what a fetch puts into its page. -/
  | base (e : Faults.Ev) (data : Page)
  /-- A process writes to a page. -/
  | store (g : Nat) (page : Page)

/-- `uck_page_free_all`, entry by entry: the pages that it frees with what they hold then, and what all pages hold in
the end. -/
def freeAll (cache : Cache) : List Key → (Nat → Page) → List (Nat × Page) × (Nat → Page)
  | [], contents => ([], contents)
  | k :: ks, contents =>
    match cache.page k with
    | some g =>
      -- `memzero_explicit`, then `__free_page`
      let contents := Function.update contents g 0
      let (rest, contents') := freeAll cache ks contents
      ((g, contents g) :: rest, contents')
    | none => freeAll cache ks contents

namespace Sys

variable (s : Sys)

/-- The pages after the fetch of the step. -/
def filled (data : Page) : Faults.Ev → Nat → Page
  | .thread _ (.receive _) => Function.update s.contents s.base.node.next data
  | .thread i (.complete _) =>
    match s.base.threads[i]?.bind (·.phase.own) with
    | some own => Function.update s.contents own data
    | none => s.contents
  | _ => s.contents

/-- The pages that a step frees with what they hold then, and what the pages hold after it. -/
def effects (c : Config) (data : Page) : Faults.Ev → List (Nat × Page) × (Nat → Page)
  | .teardown => freeAll s.base.node.cache s.base.node.cache.tree s.contents
  | e => ((freed c s.base e).map fun g => (g, s.filled data e g), s.filled data e)

end Sys

/-- What is freed. -/
def frees (c : Config) (s : Sys) : Ev → List (Nat × Page)
  | .base e data => (s.effects c data e).1
  | .store _ _ => []

def step (c : Config) (s : Sys) : Ev → Option Sys
  | .base e data => (Faults.step c s.base e).map fun t => ⟨t, (s.effects c data e).2⟩
  | .store g page =>
    if g ∈ s.base.node.mapped then some { s with contents := Function.update s.contents g page } else none

/-! ## Statement -/

/-- The pages that were ever installed. -/
def installed (s : Faults.Sys) : List Nat := s.installs.map (·.2)

/-- The pages that were ever installed are zero when they are freed. -/
def Scrubbed (c : Config) (s : Sys) (e : Ev) : Prop := ∀ r ∈ frees c s e, r.1 ∈ installed s.base → r.2 = 0

/-- An `INVALIDATE` and a page of a batch find no page, or one that is zero. -/
def Blank (s : Sys) : Ev → Prop
  | .base (.invalidate k) _ => ∀ g ∈ s.base.node.cache.page k, s.contents g = 0
  | .base (.thread i (.receive _)) _ => ∀ x ∈ s.base.threads[i]?, ∀ j ∈ x.phase.nextIndex,
      ∀ g ∈ s.base.node.cache.page (x.key.1, j), s.contents g = 0
  | _ => True

/-! ## Pages in the cache and in hand -/

/-- The pages of the cache were installed, those that faults have in hand were not, and no fault has the page of
another. -/
structure Owned (s : Faults.Sys) : Prop where
  cached : ∀ g, 0 < s.node.cache.pointers g → g ∈ installed s
  apart : ∀ g ∈ installed s, inHand s.threads g = 0
  once : ∀ g, inHand s.threads g ≤ 1
  fresh : ∀ g, s.node.next ≤ g → inHand s.threads g = 0 ∧ g ∉ installed s

theorem Owned.init : Owned {} where
  cached _ h := absurd h (Nat.lt_irrefl 0)
  apart _ h := absurd h List.not_mem_nil
  once _ := Nat.zero_le _
  fresh _ _ := ⟨rfl, List.not_mem_nil⟩

/-- What a step does with pages. -/
inductive Moves (s t : Faults.Sys) : Prop
  | keep (next : s.node.next ≤ t.node.next) (installs : t.installs = s.installs)
      (pointers : ∀ g, t.node.cache.pointers g ≤ s.node.cache.pointers g)
      (hand : ∀ g, inHand t.threads g ≤ inHand s.threads g)
  /-- A fault allocates a page. -/
  | alloc (next : t.node.next = s.node.next + 1) (installs : t.installs = s.installs)
      (pointers : ∀ g, t.node.cache.pointers g ≤ s.node.cache.pointers g)
      (hand : ∀ g, inHand t.threads g = inHand s.threads g + oneRef s.node.next g)
  /-- A page that no fault has in hand any more is installed. -/
  | install (own : Nat) (lt : own < t.node.next) (next : s.node.next ≤ t.node.next)
      (installs : installed t = own :: installed s)
      (pointers : ∀ g, g ≠ own → t.node.cache.pointers g ≤ s.node.cache.pointers g)
      (hand : ∀ g, inHand t.threads g ≤ inHand s.threads g) (free : inHand t.threads own = 0)

/-- What a step does with pages and references, and what it frees. -/
structure Effect (s t : Faults.Sys) (freed : List Nat) : Prop where
  moves : Moves s t
  refs : ∀ g, g < s.node.next → s.node.refs g ≤ t.node.refs g + freed.count g

variable {c : Config} {s t : Faults.Sys} {e : Faults.Ev} {i : Nat} {x : Faults.Thread} {k : Key}

theorem Owned.of_moves (h : Owned s) (hm : Moves s t) : Owned t := by
  cases hm with
  | keep next installs pointers hand =>
    have hinst : installed t = installed s := congrArg (List.map _) installs
    refine ⟨fun g hg => ?_, fun g hg => ?_, fun g => Nat.le_trans (hand g) (h.once g), fun g hg => ?_⟩
    · rw [hinst]
      exact h.cached g (Nat.lt_of_lt_of_le hg (pointers g))
    · have hle := hand g
      have hzero := h.apart g (hinst ▸ hg)
      omega
    · obtain ⟨hzero, hno⟩ := h.fresh g (Nat.le_trans next hg)
      have hle := hand g
      exact ⟨by omega, hinst ▸ hno⟩
  | alloc next installs pointers hand =>
    have hinst : installed t = installed s := congrArg (List.map _) installs
    obtain ⟨hzero, hno⟩ := h.fresh s.node.next (Nat.le_refl _)
    refine ⟨fun g hg => ?_, fun g hg => ?_, fun g => ?_, fun g hg => ?_⟩
    · rw [hinst]
      exact h.cached g (Nat.lt_of_lt_of_le hg (pointers g))
    · rw [hinst] at hg
      have hne : s.node.next ≠ g := fun heq => hno (heq ▸ hg)
      rw [hand g, h.apart g hg, Faults.oneRef_of_ne hne]
    · rw [hand g]
      by_cases heq : s.node.next = g
      · subst heq
        rw [hzero, Faults.oneRef_self]
      · rw [Faults.oneRef_of_ne heq]
        exact h.once g
    · rw [next] at hg
      obtain ⟨hzero', hno'⟩ := h.fresh g (by omega)
      rw [hand g, hinst, hzero', Faults.oneRef_of_ne (by omega)]
      exact ⟨rfl, hno'⟩
  | install own lt next installs pointers hand free =>
    refine ⟨fun g hg => ?_, fun g hg => ?_, fun g => Nat.le_trans (hand g) (h.once g), fun g hg => ?_⟩
    · rw [installs, List.mem_cons]
      by_cases heq : g = own
      · exact .inl heq
      · exact .inr (h.cached g (Nat.lt_of_lt_of_le hg (pointers g heq)))
    · rw [installs, List.mem_cons] at hg
      obtain rfl | hg := hg
      · exact free
      · have hle := hand g
        have hzero := h.apart g hg
        omega
    · obtain ⟨hzero, hno⟩ := h.fresh g (Nat.le_trans next hg)
      have hle := hand g
      refine ⟨by omega, ?_⟩
      rw [installs, List.mem_cons, not_or]
      exact ⟨by omega, hno⟩

/-- A page that loses a reference is freed. -/
theorem Effect.mem_freed {freed : List Nat} (h : Effect s t freed) {g : Nat} (hg : g < s.node.next)
    (hlost : t.node.refs g < s.node.refs g) : g ∈ freed := by
  have hrefs := h.refs g hg
  exact List.count_pos_iff.1 (by omega)

theorem count_toList (o : Option Nat) (g : Nat) : o.toList.count g = (o == some g).toNat := by
  cases o with
  | none => rfl
  | some j =>
    rw [Option.toList_some, Faults.count_cons_oneRef, List.count_nil, Nat.zero_add, Faults.toNat_some_beq]

/-! ## What the sections do -/

/-- A step in which no page is allocated, installed or freed. -/
theorem Effect.of_keep (next : s.node.next ≤ t.node.next) (installs : t.installs = s.installs)
    (pointers : ∀ g, t.node.cache.pointers g ≤ s.node.cache.pointers g)
    (hand : ∀ g, inHand t.threads g ≤ inHand s.threads g) (refs : ∀ g, s.node.refs g ≤ t.node.refs g) :
    Effect s t [] :=
  ⟨.keep next installs pointers hand, fun g _ => by rw [List.count_nil]; simpa using refs g⟩

theorem effect_fault (w : Bool) (a : Allocs) : Effect s (s.fault c k w a) [] := by
  have henters := Node.enters c s.node k w a
  have hptr : ∀ g, (s.node.enter c k w a).2.cache.pointers g ≤ s.node.cache.pointers g :=
    fun g => (henters.tally (· == some g) rfl).le
  unfold Faults.Sys.fault
  rcases hr : s.node.enter c k w a with ⟨r, node⟩
  rw [hr] at henters hptr
  cases henters with
  | sigbus => exact .of_keep (Nat.le_refl _) rfl hptr (fun _ => Nat.le_refl _) fun _ => Int.le_refl _
  | @hit e g he hg =>
    refine .of_keep (Nat.le_refl _) rfl hptr (fun _ => Nat.le_refl _) fun j => ?_
    have hrefs : ((s.node.put k e).returnPage g).refs j = s.node.refs j + oneRef g j := Faults.returnPage_refs _ g j
    show s.node.refs j ≤ ((s.node.put k e).returnPage g).refs j
    omega
  | null he => exact .of_keep (Nat.le_refl _) rfl hptr (fun _ => Nat.le_refl _) fun _ => Int.le_refl _
  | oom => exact .of_keep (Nat.le_refl _) rfl hptr (fun _ => Nat.le_refl _) fun _ => Int.le_refl _
  | denied he => exact .of_keep (Nat.le_refl _) rfl hptr (fun _ => Nat.le_refl _) fun _ => Int.le_refl _
  | fetch he hok =>
    refine ⟨.alloc rfl rfl hptr (Faults.inHand_append rfl s.threads), fun g hg => ?_⟩
    have hrefs : Function.update s.node.refs s.node.next 1 g = s.node.refs g := Function.update_of_ne (by omega) ..
    simp only [Node.put, hrefs]
    omega

/-- A page of a batch takes the reference of the page that it replaces. -/
theorem batchPage_refs (ea : Bool) {g : Nat} (hg : g < s.node.next)
    (hfst : (s.node.batchPage c k ea).1 = true) :
    (s.node.batchPage c k ea).2.refs g = s.node.refs g - (s.node.cache.page k == some g).toNat := by
  have hnext : s.node.next ≠ g := by omega
  have halloc : s.node.allocPage.refs g = s.node.refs g := Function.update_of_ne hnext.symm ..
  obtain ⟨-, heq⟩ | ⟨old, hp, heq⟩ | ⟨hp, heq⟩ := Node.batchPage_cases c s.node k ea
  · rw [heq] at hfst
    cases hfst
  · rw [heq, hp]
    simp only [Faults.getPage_refs, Node.put, Faults.freePage_refs, halloc, Faults.oneRef_of_ne hnext,
      Faults.toNat_some_beq]
    omega
  · rw [heq, hp]
    simp only [Faults.getPage_refs, Node.put, halloc, Faults.oneRef_of_ne hnext]
    rfl

theorem effect_receive (h : Owned s) {own j : Nat} {rest : List Nat} {n : Nat} (hx : s.threads[i]? = some x)
    (hphase : x.phase = .batch own (j :: rest) n) (ea : Bool) :
    Effect s (s.receive i x c own j rest n ea) (threadFrees c s x x.phase (.receive ea)) := by
  have hhand : ∀ p : Faults.Phase, p.own = x.phase.own → ∀ g,
      inHand (s.threads.set i { x with phase := p }) g = inHand s.threads g := fun p hp => Faults.inHand_set hx hp
  have hnext := Node.batchPage_next (c := c) (s := s.node) (k := (x.key.1, j)) ea
  rw [Faults.Sys.receive_eq, hphase, threadFrees]
  by_cases hfst : (s.node.batchPage c (x.key.1, j) ea).1 = true
  · rw [if_pos hfst, if_neg (by rw [hfst]; decide)]
    have hset := hhand (.batch own rest (n + 1)) (by rw [hphase]; rfl)
    refine ⟨.install s.node.next ?_ ?_ rfl (fun g hg => ?_) (fun g => (hset g).le) ?_, fun g hg => ?_⟩
    · simp only [hnext]
      exact Nat.lt_succ_self _
    · simp only [hnext]
      exact Nat.le_succ _
    · have htally := Node.batchPage_tally (· == some g) rfl hfst
      rw [Faults.toNat_some_beq, Faults.oneRef_of_ne (Ne.symm hg)] at htally
      simp only [Cache.pointers]
      omega
    · exact (hset _).trans (h.fresh _ (Nat.le_refl _)).1
    · simp only [batchPage_refs ea hg hfst, count_toList]
      omega
  · rw [Bool.not_eq_true] at hfst
    have hnode := Node.batchPage_of_fst_eq_false hfst
    rw [hfst, if_neg Bool.false_ne_true, if_pos rfl, hnode]
    have hset := hhand (.batch own rest n) (by rw [hphase]; rfl)
    refine ⟨.keep (Nat.le_succ _) rfl (fun _ => Nat.le_refl _) (fun g => (hset g).le), fun g hg => ?_⟩
    have halloc : s.node.allocPage.refs g = s.node.refs g := Function.update_of_ne (by omega) ..
    simp only [Faults.freePage_refs, halloc, Faults.oneRef_of_ne (show s.node.next ≠ g by omega)]
    omega

/-- A fault that ends frees the page that it had in hand. -/
theorem effect_recheck {own : Nat} (hx : s.threads[i]? = some x) (hphase : x.phase = .batched own) :
    Effect s (s.recheck i x own) (threadFrees c s x x.phase .recheck) := by
  have herase := Faults.inHand_eraseIdx hx
  rw [hphase, threadFrees, Faults.Sys.recheck]
  cases hr : s.node.afterBatch x.key x.isWrite own with
  | none =>
    have hset := Faults.inHand_set hx (y := { x with phase := .fetching own }) (by rw [hphase]; rfl)
    exact .of_keep (Nat.le_refl _) rfl (fun _ => Nat.le_refl _) (fun g => (hset g).le) fun _ => Int.le_refl _
  | some r =>
    have htally : ∀ g, r.2.cache.pointers g = s.node.cache.pointers g :=
      fun g => Node.afterBatch_tally (· == some g) rfl hr
    obtain ⟨y, hy, hpage, hnode⟩ := Node.afterBatch_eq_some hr
    refine ⟨.keep ?_ rfl (fun g => (htally g).le) (fun g => (Nat.le_add_right _ _).trans (herase g).le), fun g _ => ?_⟩
    · simp only [Faults.Sys.finish, hnode]
      exact Nat.le_refl _
    · have hfree := Faults.freePage_refs s.node own g
      have hcount := Faults.count_cons_oneRef own g []
      rw [List.count_nil] at hcount
      simp only [Option.isSome_some, if_true, Faults.Sys.finish, hnode, Faults.returnPage_refs, Node.put, hfree, hcount]
      omega

theorem install_pointers (w : Bool) {own g : Nat} (hg : g ≠ own) :
    (s.node.install k w own).cache.pointers g ≤ s.node.cache.pointers g := by
  cases hy : s.node.cache.entry k with
  | none =>
    rw [Node.install_cache, hy]
    exact Nat.le_refl _
  | some y =>
    have htally := Node.install_tally (· == some g) rfl w own hy
    rw [Faults.toNat_some_beq, Faults.oneRef_of_ne (Ne.symm hg)] at htally
    simp only [Cache.pointers]
    omega

theorem install_refs (w : Bool) (own g : Nat) : s.node.refs g ≤ (s.node.install k w own).refs g := by
  unfold Node.install
  cases s.node.cache.entry k with
  | none => exact Int.le_refl _
  | some y =>
    have hrefs : ((s.node.put k (uckFaultInstall w own y)).returnPage own).refs g = s.node.refs g + oneRef own g :=
      Faults.returnPage_refs _ own g
    show s.node.refs g ≤ ((s.node.put k (uckFaultInstall w own y)).returnPage own).refs g
    omega

theorem effect_complete (h : Owned s) {own : Nat} (hx : s.threads[i]? = some x) (hphase : x.phase = .fetching own)
    (ok : Bool) : Effect s (s.complete i x c own ok) (threadFrees c s x x.phase (.complete ok)) := by
  have herase : ∀ g, inHand (s.threads.eraseIdx i) g + oneRef own g = inHand s.threads g := fun g => by
    rw [← Faults.toNat_some_beq, ← Faults.inHand_eraseIdx hx g, hphase]
    rfl
  have hown : own < s.node.next := by
    by_contra hge
    have hzero := (h.fresh own (Nat.not_lt.1 hge)).1
    have hlast := herase own
    rw [Faults.oneRef_self] at hlast
    omega
  rw [hphase, threadFrees]
  by_cases hok : ok = true ∨ c.owner x.key.1 = c.self
  · rw [Faults.Sys.complete_of_ok hok, if_pos hok]
    have hnext := Node.install_next (s := s.node) (k := x.key) x.isWrite own
    refine ⟨.install own ?_ ?_ rfl (fun g hg => install_pointers _ hg) (fun g => ?_) ?_, fun g _ => ?_⟩
    · simp only [Faults.Sys.finish, hnext]
      exact hown
    · simp only [Faults.Sys.finish, hnext]
      exact Nat.le_refl _
    · exact (Nat.le_add_right _ _).trans (herase g).le
    · have hlast := herase own
      have hone := h.once own
      rw [Faults.oneRef_self] at hlast
      show inHand (s.threads.eraseIdx i) own = 0
      omega
    · have hrefs := install_refs (s := s) (k := x.key) x.isWrite own g
      simp only [Faults.Sys.finish, List.count_nil]
      omega
  · rw [Faults.Sys.complete_of_not hok, if_neg hok]
    have htally : ∀ g, (s.node.abort x.key own).cache.pointers g = s.node.cache.pointers g :=
      fun g => Node.abort_tally (· == some g) rfl
    refine ⟨.keep ?_ rfl (fun g => (htally g).le) (fun g => (Nat.le_add_right _ _).trans (herase g).le), fun g _ => ?_⟩
    · simp only [Faults.Sys.fail, Node.abort_eq]
      exact Nat.le_refl _
    · have hfree := Faults.freePage_refs s.node own g
      have hcount := Faults.count_cons_oneRef own g []
      rw [List.count_nil] at hcount
      simp only [Faults.Sys.fail, Node.abort_eq, hfree, hcount]
      omega

theorem effect_thread (h : Owned s) {act : Faults.Act} (hx : s.threads[i]? = some x)
    (ha : Faults.Acts c s i x x.phase act t) : Effect s t (threadFrees c s x x.phase act) := by
  have herase : ∀ g, inHand (s.threads.eraseIdx i) g ≤ inHand s.threads g :=
    fun g => (Nat.le_add_right _ _).trans (Faults.inHand_eraseIdx hx g).le
  have hset : ∀ p : Faults.Phase, p.own = x.phase.own → ∀ g,
      inHand (s.threads.set i { x with phase := p }) g ≤ inHand s.threads g :=
    fun p hp g => (Faults.inHand_set hx hp g).le
  generalize hphase : x.phase = p at ha hset
  cases ha with
  | wake hw =>
    obtain ⟨-, -, rfl⟩ := Node.wake_eq_some hw
    refine .of_keep (Nat.le_refl _) rfl (fun _ => Nat.le_refl _) herase fun g => ?_
    simp only [Faults.Sys.finish, Faults.returnPage_refs]
    omega
  | sigbus => exact .of_keep (Nat.le_refl _) rfl (fun _ => Nat.le_refl _) herase fun _ => Int.le_refl _
  | request own =>
    obtain ⟨statics, hnode⟩ := Faults.Sys.request_node (c := c) (s := s) (i := i) (x := x) own
    obtain ⟨p, hown, hts⟩ := Faults.Sys.request_threads (c := c) (s := s) (i := i) (x := x) own
    refine .of_keep (by rw [hnode]) ?_ (fun g => by rw [hnode]) (fun g => ?_) (fun g => by rw [hnode])
    · simp only [Faults.Sys.request]
      split
      · rfl
      · split <;> rfl
    · rw [hts]
      exact hset p hown g
  | receive own j rest n ea => exact hphase ▸ effect_receive h hx hphase ea
  | @batchEnd own rest n hn =>
    have hfrees : threadFrees c s x (.batch own rest n) .batchEnd = [] := by cases rest <;> rfl
    rw [hfrees]
    exact .of_keep (Nat.le_refl _) rfl (fun _ => Nat.le_refl _) (hset (.batched own) rfl) fun _ => Int.le_refl _
  | batchFailed own rest =>
    have hfrees : threadFrees c s x (.batch own rest 0) .batchEnd = [] := by cases rest <;> rfl
    rw [hfrees]
    exact .of_keep (Nat.le_refl _) rfl (fun _ => Nat.le_refl _) (hset (.fetching own) rfl) fun _ => Int.le_refl _
  | recheck own => exact hphase ▸ effect_recheck hx hphase
  | complete own ok => exact hphase ▸ effect_complete h hx hphase ok

theorem effect_invalidate : Effect s { s with node := s.node.invalidate k } (s.node.cache.page k).toList := by
  have htally : ∀ g, (s.node.invalidate k).cache.pointers g + (s.node.cache.page k == some g).toNat =
      s.node.cache.pointers g := fun g => Node.invalidate_tally (· == some g) rfl
  have heq := Node.invalidate_eq (s := s.node) k
  refine ⟨.keep ?_ rfl (fun g => (Nat.le_add_right _ _).trans (htally g).le) (fun _ => Nat.le_refl _), fun g _ => ?_⟩
  · simp only [heq]
    cases s.node.cache.page k <;> exact Nat.le_refl _
  · cases hk : s.node.cache.page k with
    | none =>
      rw [hk] at heq
      simp only [heq]
      omega
    | some j =>
      have hfree := Faults.freePage_refs s.node j g
      rw [hk] at heq
      simp only [heq, count_toList, Faults.toNat_some_beq, hfree]
      omega

theorem effect_teardown :
    Effect s { s with node := s.node.cleanup } (s.node.cache.tree.filterMap s.node.cache.page) := by
  refine ⟨.keep ?_ rfl (fun g => Nat.zero_le _) (fun _ => Nat.le_refl _), fun g _ => ?_⟩
  · exact (Node.foldl_freeEntry_frame s.node.cache.tree s.node).2.ge
  · have hrefs : s.node.cleanup.refs g = s.node.refs g - s.node.cache.pointers g :=
      Node.foldl_freeEntry_refs s.node.cache.tree s.node g
    have hcount : (s.node.cache.tree.filterMap s.node.cache.page).count g = s.node.cache.pointers g :=
      List.count_filterMap
    simp only [hrefs, hcount]
    omega

/-- **What a step frees**, and what it does with the other pages. -/
theorem Effect.of_step (h : Owned s) (ht : Faults.step c s e = some t) (he : ∀ g, e ≠ .unmap g) :
    Effect s t (freed c s e) := by
  cases e with
  | fault k w a =>
    cases ht
    exact effect_fault w a
  | thread i act =>
    obtain ⟨x, hx, ha⟩ := Faults.Acts.of_step ht
    rw [freed, hx]
    exact effect_thread h hx ha
  | mkwrite k =>
    cases ht
    have heq := Node.mkwrite_eq (s := s.node) k
    have htally : ∀ g, (s.node.mkwrite k).cache.pointers g = s.node.cache.pointers g :=
      fun g => Node.mkwrite_tally (· == some g) rfl
    refine .of_keep ?_ rfl (fun g => (htally g).le) (fun _ => Nat.le_refl _) fun g => ?_
    · simp only [heq]
      exact Nat.le_refl _
    · simp only [heq]
      exact Int.le_refl _
  | invalidate k =>
    cases ht
    exact effect_invalidate
  | leave n =>
    cases ht
    exact .of_keep (Nat.le_refl _) rfl (fun g => (Node.leave_tally (· == some g) n).le) (fun _ => Nat.le_refl _)
      fun _ => Int.le_refl _
  | unmap g => exact absurd rfl (he g)
  | quorum nodes =>
    cases ht
    exact .of_keep (Nat.le_refl _) rfl (fun _ => Nat.le_refl _) (fun _ => Nat.le_refl _) fun _ => Int.le_refl _
  | teardown =>
    obtain ⟨-, rfl⟩ := Faults.of_step_teardown ht
    exact effect_teardown

theorem Owned.step (h : Owned s) (ht : Faults.step c s e = some t) : Owned t := by
  by_cases he : ∃ g, e = .unmap g
  · obtain ⟨g, rfl⟩ := he
    obtain ⟨-, rfl⟩ := Faults.of_step_unmap ht
    exact h.of_moves (.keep (Nat.le_refl _) rfl (fun _ => Nat.le_refl _) (fun _ => Nat.le_refl _))
  · exact h.of_moves (Effect.of_step h ht fun g hg => he ⟨g, hg⟩).moves

/-! ## The contents of freed pages -/

/-- The pages of the entries, all of them zero. -/
theorem map_fst_freeAll (cache : Cache) (ks : List Key) (contents : Nat → Page) :
    (freeAll cache ks contents).1.map Prod.fst = ks.filterMap cache.page := by
  induction ks generalizing contents with
  | nil => rfl
  | cons k ks ih =>
    rw [freeAll, List.filterMap_cons]
    cases cache.page k with
    | none => exact ih contents
    | some g => simp only [List.map_cons, ih]

theorem snd_eq_zero_of_freeAll {cache : Cache} {ks : List Key} {contents : Nat → Page} {r : Nat × Page}
    (h : r ∈ (freeAll cache ks contents).1) : r.2 = 0 := by
  induction ks generalizing contents with
  | nil => cases h
  | cons k ks ih =>
    rw [freeAll] at h
    cases hk : cache.page k with
    | none =>
      simp only [hk] at h
      exact ih h
    | some g =>
      simp only [hk, List.mem_cons] at h
      obtain rfl | h := h
      · exact Function.update_self ..
      · exact ih h

section Contents

variable {s : Sys} {e : Faults.Ev} {data : Page}

theorem map_fst_frees (data : Page) : (frees c s (.base e data)).map Prod.fst = freed c s.base e := by
  cases e with
  | teardown => exact map_fst_freeAll _ _ _
  | _ =>
    simp only [frees, Sys.effects, List.map_map]
    exact List.map_id' _

/-- A page that loses a reference, but not by an unmapping, is one of those that the step frees. -/
theorem mem_frees_of_lost {t : Sys} (h : Owned s.base) (ht : step c s (.base e data) = some t)
    (he : ∀ g, e ≠ .unmap g) {g : Nat} (hg : g < s.base.node.next)
    (hlost : t.base.node.refs g < s.base.node.refs g) : ∃ page, (g, page) ∈ frees c s (.base e data) := by
  obtain ⟨u, hu, rfl⟩ := Option.map_eq_some_iff.1 ht
  have hmem := (Effect.of_step h hu he).mem_freed hg hlost
  rw [← map_fst_frees data] at hmem
  obtain ⟨r, hr, rfl⟩ := List.mem_map.1 hmem
  exact ⟨r.2, hr⟩

/-- A page of the cache was installed. -/
theorem Owned.mem_installed {s : Faults.Sys} (h : Owned s) {g : Nat} (hg : s.node.cache.page k = some g) :
    g ∈ installed s ∧ g < s.node.next := by
  have hmem := h.cached g (Faults.pointers_pos_of_page hg)
  exact ⟨hmem, Nat.not_le.1 fun hle => (h.fresh g hle).2 hmem⟩

/-- The page that a fault has in hand was not. -/
theorem Owned.not_mem_installed {s : Faults.Sys} (h : Owned s) (hx : s.threads[i]? = some x) {own : Nat}
    (hown : x.phase.own = some own) : own ∉ installed s := by
  intro hmem
  have hzero := h.apart own hmem
  have hpos : 0 < inHand s.threads own :=
    List.countP_pos_iff.2 ⟨x, List.mem_of_getElem? hx, by rw [hown]; exact BEq.rfl⟩
  omega

/-- A thread frees the page that it has in hand, a page that it has just allocated, or, when it receives a page of a
batch, the page that the entry has. -/
theorem mem_threadFrees {s : Faults.Sys} (h : Owned s) (hx : s.threads[i]? = some x) {act : Faults.Act} {g : Nat} :
    g ∈ threadFrees c s x x.phase act ∧ g ∈ installed s ↔
      (∃ ea, act = .receive ea) ∧ ∃ j ∈ x.phase.nextIndex, s.node.cache.page (x.key.1, j) = some g := by
  have hown : ∀ own, x.phase.own = some own → own ∉ installed s := fun own => h.not_mem_installed hx
  generalize x.phase = p at hown
  constructor
  · rintro ⟨hg, hmem⟩
    unfold threadFrees at hg
    split at hg
    · rename_i own j rest n ea
      split at hg
      · obtain rfl := List.mem_singleton.1 hg
        exact absurd hmem (h.fresh _ (Nat.le_refl _)).2
      · exact ⟨⟨ea, rfl⟩, j, rfl, Option.mem_toList.1 hg⟩
    · rename_i own
      rw [List.mem_ite_nil_right, List.mem_singleton] at hg
      exact absurd hmem (hg.2 ▸ hown own rfl)
    · rename_i own ok
      rw [List.mem_ite_nil_left, List.mem_singleton] at hg
      exact absurd hmem (hg.2 ▸ hown own rfl)
    · cases hg
  · rintro ⟨⟨ea, rfl⟩, j, hj, hg⟩
    refine ⟨?_, (h.mem_installed hg).1⟩
    unfold Faults.Phase.nextIndex at hj
    split at hj
    · rename_i own j' rest n
      obtain rfl := Option.some.inj hj
      have hentry : (s.node.cache.entry (x.key.1, j')).isSome = true := by
        rw [Cache.page] at hg
        obtain ⟨y, hy, -⟩ := Option.bind_eq_some_iff.1 hg
        rw [hy]
        rfl
      rw [threadFrees, Node.batchPage_fst hentry, if_neg (by decide)]
      exact Option.mem_toList.2 hg
    · cases hj

/-- The case of a thread. -/
theorem scrubbed_thread_iff (h : Owned s.base) {act : Faults.Act} (hx : s.base.threads[i]? = some x) :
    Scrubbed c s (.base (.thread i act) data) ↔ Blank s (.base (.thread i act) data) := by
  have hfrees : frees c s (.base (.thread i act) data) =
      (threadFrees c s.base x x.phase act).map fun g => (g, s.filled data (.thread i act) g) := by
    simp only [frees, Sys.effects, freed, hx, Option.elim_some]
  have hscrubbed : Scrubbed c s (.base (.thread i act) data) ↔
      ∀ g, (∃ ea, act = .receive ea) → (∃ j ∈ x.phase.nextIndex, s.base.node.cache.page (x.key.1, j) = some g) →
        s.filled data (.thread i act) g = 0 := by
    rw [Scrubbed, hfrees]
    constructor
    · intro hs g hact hj
      obtain ⟨hg, hmem⟩ := (mem_threadFrees h hx).2 ⟨hact, hj⟩
      exact hs _ (List.mem_map_of_mem hg) hmem
    · intro hz r hr hmem
      obtain ⟨g, hg, rfl⟩ := List.mem_map.1 hr
      obtain ⟨hact, hj⟩ := (mem_threadFrees h hx).1 ⟨hg, hmem⟩
      exact hz g hact hj
  rw [hscrubbed]
  cases act with
  | receive ea =>
    simp only [Blank, hx, Option.mem_some_iff, forall_eq']
    -- the data went to a page that is not in the cache
    have hother : ∀ {j g : Nat}, s.base.node.cache.page (x.key.1, j) = some g →
        s.filled data (.thread i (.receive ea)) g = s.contents g :=
      fun hg => Function.update_of_ne (Nat.ne_of_lt (h.mem_installed hg).2) ..
    constructor
    · intro hz j hj g hg
      rw [← hother hg]
      exact hz g ⟨ea, rfl⟩ ⟨j, hj, hg⟩
    · rintro hb g - ⟨j, hj, hg⟩
      rw [hother hg]
      exact hb j hj g hg
  | _ => exact iff_of_true (fun g hact => by obtain ⟨ea, hea⟩ := hact; cases hea) trivial

/-- The pages that are freed with data in them are those that an `INVALIDATE` or a page of a batch finds. -/
theorem scrubbed_iff_blank (h : Owned s.base) (e : Ev) : Scrubbed c s e ↔ Blank s e := by
  cases e with
  | store g page => exact iff_of_true (fun r hr => absurd hr List.not_mem_nil) trivial
  | base e data =>
    cases e with
    | invalidate k =>
      have hfrees : frees c s (.base (.invalidate k) data) =
          (s.base.node.cache.page k).toList.map fun g => (g, s.contents g) := rfl
      rw [Scrubbed, hfrees]
      constructor
      · intro hs g hg
        exact hs (g, s.contents g) (List.mem_map_of_mem (Option.mem_toList.2 hg)) (h.mem_installed hg).1
      · intro hb r hr _
        obtain ⟨g, hg, rfl⟩ := List.mem_map.1 hr
        exact hb g (Option.mem_toList.1 hg)
    | thread i act =>
      cases hx : s.base.threads[i]? with
      | some x => exact scrubbed_thread_iff h hx
      | none =>
        refine iff_of_true (fun r hr => ?_) ?_
        · simp [frees, Sys.effects, freed, hx] at hr
        · cases act with
          | receive ea => simp [Blank, hx]
          | _ => trivial
    | teardown => exact iff_of_true (fun r hr _ => snd_eq_zero_of_freeAll hr) trivial
    | _ => exact iff_of_true (fun r hr => absurd hr List.not_mem_nil) trivial

end Contents

theorem Owned.base_step {s t : Sys} (h : Owned s.base) {e : Ev} (ht : Scrub.step c s e = some t) :
    Owned t.base := by
  cases e with
  | base e data =>
    obtain ⟨u, hu, rfl⟩ := Option.map_eq_some_iff.1 ht
    exact h.step hu
  | store g page =>
    simp only [Scrub.step, Option.ite_none_right_eq_some, Option.some.injEq] at ht
    obtain ⟨-, rfl⟩ := ht
    exact h

/-- **Freed pages are scrubbed** in a run exactly if every `INVALIDATE` and every page of a batch that finds a page in
the entry finds zeros there. -/
theorem scrubbed_iff (c : Config) (es : List Ev) :
    EachStep (step c) (Scrubbed c) {} es ↔ EachStep (step c) Blank {} es := by
  constructor
  · exact .of_inv (fun s => Owned s.base) (fun _ _ _ h _ ht => h.base_step ht)
      (fun _ e h hs => (scrubbed_iff_blank h e).1 hs) Owned.init
  · exact .of_inv (fun s => Owned s.base) (fun _ _ _ h _ ht => h.base_step ht)
      (fun _ e h hb => (scrubbed_iff_blank h e).2 hb) Owned.init

/-! ## Data in freed pages -/

/-- A page of ones is fetched alone. -/
def fetchOnes : List Ev :=
  [.base (.fault (0, 0) false ⟨true, true⟩) 0, .base (.thread 0 .request) 0,
    .base (.thread 0 (.complete true)) (.filled 1)]

/-- A page of ones is fetched with the batch of a fault. Its owner leaves, so that the entry is `INVALID` but still has
the page, and the next fault asks for it again. -/
def refetch : List Ev :=
  [.base (.fault (0, 0) false ⟨true, true⟩) 0, .base (.thread 0 .request) 0,
    .base (.thread 0 (.receive true)) (.filled 1), .base (.thread 0 .batchEnd) 0, .base (.thread 0 .recheck) 0,
    .base (.leave 2) 0, .base (.fault (0, 0) false ⟨true, true⟩) 0, .base (.thread 0 .request) 0]

/-- An `INVALIDATE` frees the page with the ones in it, and so does the batch that brings it again. -/
theorem freed_with_data :
    (∃ s, run (step (Faults.client 1)) {} fetchOnes = some s ∧ 0 ∈ installed s.base ∧
      frees (Faults.client 1) s (.base (.invalidate (0, 0)) 0) = [(0, .filled 1)]) ∧
    (∃ s, run (step (Faults.client 2)) {} refetch = some s ∧ 1 ∈ installed s.base ∧
      frees (Faults.client 2) s (.base (.thread 0 (.receive true)) 0) = [(1, .filled 1)]) ∧
    Page.filled 1 ≠ 0 := by
  refine ⟨⟨_, rfl, ?_, ?_⟩, ⟨_, rfl, ?_, ?_⟩, ?_⟩
  · decide
  · rfl
  · decide
  · rfl
  · intro h
    exact absurd (Page.filled_injective h) (by decide)

end UckSmp.Memory.Scrub
