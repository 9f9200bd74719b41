import UckSmp.Memory.Coherence
import UckSmp.Memory.Prefetch

/-!
# Accesses one at a time

Reads and writes of the pages of a region by the nodes of a cluster, each finished, with all its messages handled,
before the next begins. A node keeps the page it has mapped: an access goes through `uck_fault` or `uck_page_mkwrite`
only when the mapping does not suffice, and an `INVALIDATE` drops the cache entry's page but not the mapping. A page of
a node is a reference into its page store (`heap`), so that the mapped page and the cache entry's page can differ.

The history of the accesses is kept beside the memory: who wrote a page last (`lastWriter`), what (`last`), how many
writes there were (`writes`) and how many there had been when a node obtained the copy it reads (`since`).

* `PageInv`: what every run keeps, page by page.
* `Dsm.Inv.setEntry`, `.obtain_copy`, `.setMap`, `.invalidateRemote`, `.store`: the changes an access is made of keep
  it.
-/

namespace UckSmp.Memory

open Lib.Transition

/-- What one node has of one page: its cache entry, its mapping (the page and whether it is writable) and the contents
of the pages it allocated for it; `since` is the number of writes before the copy that it reads was obtained. -/
structure Slot (V : Type) where
  entry : Option (PageEntry Nat)
  map : Option (Nat × Bool)
  heap : Nat → V
  next : Nat
  since : Nat

/-- The memory of a cluster and the history of its accesses. -/
structure Dsm (V : Type) where
  slot : Nat → Nat → Slot V
  statics : Nat → PrefetchStatics
  writes : Nat → Nat
  lastWriter : Nat → Option Nat
  last : Nat → V

section Model

variable {V : Type}

namespace Slot

/-- The page in the cache entry. -/
def cached (sl : Slot V) : Option Nat := sl.entry.bind (·.page)

/-- What the owner's handlers serve: the cached page, or zeros. -/
def served [Zero V] (sl : Slot V) : V := (sl.cached.map sl.heap).getD 0

def setEntry (sl : Slot V) (e : Option (PageEntry Nat)) : Slot V := { sl with entry := e }

/-- The page is mapped. -/
def setMap (sl : Slot V) (g : Nat) (w : Bool) : Slot V := { sl with map := some (g, w) }

/-- A page with contents `v` is allocated and put into the entry. The copy that the node reads is this one unless an
older page is mapped. -/
def obtain (sl : Slot V) (inst : Nat → Option (PageEntry Nat) → PageEntry Nat) (v : V) (now : Nat) : Slot V :=
  { sl with
    entry := some (inst sl.next sl.entry)
    heap := Function.update sl.heap sl.next v
    next := sl.next + 1
    since := if sl.map = none then now else sl.since }

/-- A store through a writable mapping of page `g`. -/
def store (sl : Slot V) (g : Nat) (v : V) : Slot V :=
  { sl with map := some (g, true), heap := Function.update sl.heap g v }

/-- `uck_handle_invalidate`. The mapping stays. -/
def invalidate (sl : Slot V) : Slot V := sl.setEntry (sl.entry.map uckHandleInvalidate)

end Slot

namespace Dsm

def modify (m : Dsm V) (n p : Nat) (f : Slot V → Slot V) : Dsm V :=
  { m with slot := Function.update m.slot n (Function.update (m.slot n) p (f (m.slot n p))) }

/-- The `INVALIDATE`s of node `n` for page `p`, each handled by its receiver. A node is not its own peer. -/
def invalidateRemote (c : Cluster) (m : Dsm V) (n p : Nat) : Dsm V :=
  { m with slot := fun k q =>
      if q = p ∧ k ≠ n ∧ (c.nodes n).any (fun peer => peer.alive && peer.id == k) then (m.slot k q).invalidate
      else m.slot k q }

/-- `uck_page_mkwrite`, with its invalidations handled. -/
def mkwrite (c : Cluster) (m : Dsm V) (n p : Nat) : Dsm V :=
  let r := uckPageMkwrite (m.slot n p).entry
  let m := m.modify n p (·.setEntry r.1)
  if r.2 then m.invalidateRemote c n p else m

/-- The store instruction of node `n`, the last write of the page from here on. -/
def store (m : Dsm V) (n p g : Nat) (v : V) : Dsm V :=
  { m.modify n p (·.store g v) with
    writes := Function.update m.writes p (m.writes p + 1)
    lastWriter := Function.update m.lastWriter p (some n)
    last := Function.update m.last p v }

variable [Zero V]

/-- One page of a batch, served by the owner and installed at node `n`. -/
def batchPage (c : Cluster) (n : Nat) (m : Dsm V) (q : Nat) : Dsm V :=
  m.modify n q fun sl => sl.obtain (batchInstall c.owner) (m.slot c.owner q).served (m.writes q)

/-- `uck_net_fetch_pages_batch` with nothing failing. -/
def fetchPagesBatch (c : Cluster) (n : Nat) (m : Dsm V) (l : List Nat) : Dsm V := l.foldl (batchPage c n) m

/-- `uck_net_fetch_page` and the rest of `uck_fault`: the owner finds no owner to ask and takes a zero page; a node
that cannot find the owner gets `VM_FAULT_SIGBUS`. -/
def fetchPage (c : Cluster) (m : Dsm V) (n p : Nat) (w : Bool) : Option (Dsm V × Nat) :=
  let inst := fun g e => uckFaultInstall w g (e.getD (uckPageAllocEntry c.owner))
  if n = c.owner then some (m.modify n p fun sl => sl.obtain inst 0 (m.writes p), (m.slot n p).next)
  else if c.findsOwner n then
    some (m.modify n p fun sl => sl.obtain inst (m.slot c.owner p).served (m.writes p), (m.slot n p).next)
  else none

/-- The end of a fault that is served from the cache: the entry, the invalidations and the page; a missing page is the
`NULL` dereference of `get_page`. -/
def serve (c : Cluster) (m : Dsm V) (n p : Nat) (e : PageEntry Nat) (inv : Bool) : Option (Dsm V × Nat) :=
  let m := m.modify n p (·.setEntry (some e))
  e.page.map fun g => (if inv then m.invalidateRemote c n p else m, g)

/-- The entry `e`, marked `IN_TRANSIT`, is in the cache and the prefetch list is built. -/
def beginFetch (pages : Nat) (m : Dsm V) (n p : Nat) (e : PageEntry Nat) : Dsm V × List Nat :=
  let m := m.modify n p (·.setEntry (some e))
  let r := uckBuildPrefetchList (fun q => decide (stateOf (m.slot n q).entry ≠ .invalid)) pages p uckPrefetchWindow
    (m.statics n)
  ({ m with statics := Function.update m.statics n r.2 }, r.1)

/-- The fetch of `uck_fault`: the batch when there is something to prefetch and an owner to ask, else (or when the
batch did not bring the page) the single fetch. -/
def fetchList (c : Cluster) (m : Dsm V) (n p : Nat) (w : Bool) (l : List Nat) : Option (Dsm V × Nat) :=
  if l.length > 1 ∧ n ≠ c.owner ∧ c.findsOwner n then
    match uckFaultAfterBatch w ((m.fetchPagesBatch c n l).slot n p).entry with
    | some (e, inv) => (m.fetchPagesBatch c n l).serve c n p e inv
    | none => (m.fetchPagesBatch c n l).fetchPage c n p w
  else m.fetchPage c n p w

/-- `uck_fault` when every allocation succeeds and every message is answered. -/
def fault (c : Cluster) (pages : Nat) (m : Dsm V) (n p : Nat) (w : Bool) : Option (Dsm V × Nat) :=
  match uckFaultEnter c.owner w ⟨true, true, true⟩ (m.slot n p).entry with
  | .hit e inv => m.serve c n p e inv
  | .fetch e => (m.beginFetch pages n p e).1.fetchList c n p w (m.beginFetch pages n p e).2
  | .wait _ => none
  | .oom _ => none

/-- A read: the memory afterwards and the value. -/
def read (c : Cluster) (pages : Nat) (m : Dsm V) (n p : Nat) : Option (Dsm V × V) :=
  match (m.slot n p).map with
  | some (g, _) => some (m, (m.slot n p).heap g)
  | none => (m.fault c pages n p false).map fun r => (r.1.modify n p (·.setMap r.2 false), (r.1.slot n p).heap r.2)

/-- A write. A fresh mapping is made by `uck_fault` and then `uck_page_mkwrite`, as the kernel calls them. -/
def write (c : Cluster) (pages : Nat) (m : Dsm V) (n p : Nat) (v : V) : Option (Dsm V) :=
  match (m.slot n p).map with
  | some (g, true) => some (m.store n p g v)
  | some (g, false) => some ((m.mkwrite c n p).store n p g v)
  | none => (m.fault c pages n p true).map fun r => (r.1.mkwrite c n p).store n p r.2 v

end Dsm

/-- An access to page `p` by node `n`. -/
inductive Access (V : Type)
  | read (n p : Nat)
  | write (n p : Nat) (v : V)

/-- One access; addresses outside the region give `VM_FAULT_SIGBUS`. -/
def access [Zero V] (c : Cluster) (pages : Nat) (m : Dsm V) : Access V → Option (Dsm V)
  | .read n p => if p < pages then (m.read c pages n p).map (·.1) else none
  | .write n p v => if p < pages then m.write c pages n p v else none

/-- Nobody has touched the region. -/
def Dsm.init [Zero V] : Dsm V :=
  ⟨fun _ _ => ⟨none, none, fun _ => 0, 0, 0⟩, fun _ => {}, fun _ => 0, fun _ => none, fun _ => 0⟩

end Model

/-! ## The invariant of one page -/

section Invariant

variable {V : Type}

/-- The owner's cache still holds the page that the owner has mapped. -/
def OwnerHolds (sl : Slot V) : Prop := ∃ g b, sl.map = some (g, b) ∧ sl.cached = some g

/-- What a read of the node returns without a fetch: the mapped page, or else the cached one. -/
def Slot.view (sl : Slot V) : Option V :=
  match sl.map with
  | some (g, _) => some (sl.heap g)
  | none => sl.cached.map sl.heap

/-- Node `n`'s part of the invariant. `holds` says that the owner's cache holds its mapped page, `w` and `lw` are the
number of writes and the last writer. -/
structure SlotInv [Zero V] (owner : Nat) (holds : Prop) (w : Nat) (lw : Option Nat) (last : V) (n : Nat)
    (x : Slot V) : Prop where
  map_lt : ∀ g b, x.map = some (g, b) → g < x.next
  cached_lt : ∀ g, x.cached = some g → g < x.next
  since_le : x.since ≤ w
  map_zero : lw = none → ∀ g b, x.map = some (g, b) → x.heap g = 0
  cached_zero : lw = none → ∀ g, x.cached = some g → x.heap g = 0
  writer : lw = some n → ∃ g b, x.map = some (g, b) ∧ x.heap g = last
  fresh : lw = some owner → holds → n ≠ owner → x.since = w → ∀ v, x.view = some v → v = last

/-- The invariant of one page over all nodes. -/
structure PageInv [Zero V] (owner : Nat) (sl : Nat → Slot V) (w : Nat) (lw : Option Nat) (last : V) : Prop where
  last_zero : lw = none → last = 0
  slot : ∀ n, SlotInv owner (OwnerHolds (sl owner)) w lw last n (sl n)

/-- Between accesses an entry is `INVALID` without a page or holds one. -/
def Slot.Settled (x : Slot V) : Prop :=
  ∀ e, x.entry = some e → (e.state = .invalid ∧ e.page = none) ∨ (e.state.Held ∧ e.page.isSome)

namespace SlotInv

variable [Zero V] {owner : Nat} {holds : Prop} {w : Nat} {lw : Option Nat} {last : V} {n : Nat} {x : Slot V}

theorem mono {holds' : Prop} (h : SlotInv owner holds w lw last n x) (hh : lw = some owner → holds' → holds) :
    SlotInv owner holds' w lw last n x :=
  { h with fresh := fun hl hh' => h.fresh hl (hh hl hh') }

/-- Changing the entry without changing its page, or dropping the page. -/
theorem setEntry (h : SlotInv owner holds w lw last n x) {e : Option (PageEntry Nat)}
    (he : (x.setEntry e).cached = x.cached ∨ (x.setEntry e).cached = none) :
    SlotInv owner holds w lw last n (x.setEntry e) where
  map_lt := h.map_lt
  cached_lt g hg := by
    rcases he with he | he
    · exact h.cached_lt g (he ▸ hg)
    · rw [he] at hg; cases hg
  since_le := h.since_le
  map_zero := h.map_zero
  cached_zero hl g hg := by
    rcases he with he | he
    · exact h.cached_zero hl g (he ▸ hg)
    · rw [he] at hg; cases hg
  writer := h.writer
  fresh hl hh hn hs v hv := by
    refine h.fresh hl hh hn hs v ?_
    unfold Slot.view at hv ⊢
    cases hm : x.map with
    | some gb => simpa [Slot.setEntry, hm] using hv
    | none =>
      simp only [show (x.setEntry e).map = none from hm] at hv
      rcases he with he | he
      · rw [he] at hv; exact hv
      · rw [he] at hv; cases hv

/-- Obtaining a copy whose contents are current as far as the owner's are. -/
theorem obtain_copy (h : SlotInv owner holds w lw last n x) {inst : Nat → Option (PageEntry Nat) → PageEntry Nat}
    (hi : ∀ g e, (inst g e).page = some g) {v : V} (h0 : lw = none → v = 0)
    (hf : lw = some owner → holds → n ≠ owner → v = last) :
    SlotInv owner holds w lw last n (x.obtain inst v w) where
  map_lt g b hg := Nat.lt_succ_of_lt (h.map_lt g b hg)
  cached_lt g hg := by
    have : some x.next = some g := by rw [← hg]; simp [Slot.obtain, Slot.cached, hi]
    cases this
    exact Nat.lt_succ_self _
  since_le := by
    show (if x.map = none then w else x.since) ≤ w
    split
    · exact Nat.le_refl w
    · exact h.since_le
  map_zero hl g b hg := by
    have hlt := h.map_lt g b hg
    have hne : g ≠ x.next := by omega
    show Function.update x.heap x.next v g = 0
    rw [Function.update_of_ne hne]
    exact h.map_zero hl g b hg
  cached_zero hl g hg := by
    have : some x.next = some g := by rw [← hg]; simp [Slot.obtain, Slot.cached, hi]
    cases this
    show Function.update x.heap x.next v x.next = 0
    rw [Function.update_self]
    exact h0 hl
  writer hl := by
    obtain ⟨g, b, hg, hv⟩ := h.writer hl
    have hlt := h.map_lt g b hg
    have hne : g ≠ x.next := by omega
    refine ⟨g, b, hg, ?_⟩
    show Function.update x.heap x.next v g = last
    rw [Function.update_of_ne hne]
    exact hv
  fresh hl hh hn hs u hu := by
    unfold Slot.view at hu
    cases hm : x.map with
    | some gb =>
      obtain ⟨g, b⟩ := gb
      have hlt := h.map_lt g b hm
      have hne : g ≠ x.next := by omega
      have hs' : x.since = w := by simpa [Slot.obtain, hm] using hs
      simp only [Slot.obtain, hm, Function.update_of_ne hne] at hu
      exact h.fresh hl hh hn hs' u (by unfold Slot.view; rw [hm]; exact hu)
    | none =>
      simp only [Slot.obtain, hm, Slot.cached, Option.bind_some, hi, Option.map_some, Function.update_self,
        Option.some.injEq] at hu
      rw [← hu]
      exact hf hl hh hn

/-- Mapping the cached page of a node that has none mapped. -/
theorem setMap (h : SlotInv owner holds w lw last n x) (hm : x.map = none) {g : Nat} (hg : x.cached = some g)
    (b : Bool) :
    SlotInv owner holds w lw last n (x.setMap g b) where
  map_lt g' b' hg' := by
    cases hg'
    exact h.cached_lt g hg
  cached_lt := h.cached_lt
  since_le := h.since_le
  map_zero hl g' b' hg' := by
    cases hg'
    exact h.cached_zero hl g hg
  cached_zero := h.cached_zero
  writer hl := by
    obtain ⟨g', b', hg', -⟩ := h.writer hl
    rw [hm] at hg'
    cases hg'
  fresh hl hh hn hs v hv := by
    refine h.fresh hl hh hn hs v ?_
    unfold Slot.view
    rw [hm, hg]
    exact hv

end SlotInv

/-- Replacing one node's slot. -/
theorem PageInv.update [Zero V] {owner : Nat} {sl : Nat → Slot V} {w : Nat} {lw : Option Nat} {last : V}
    (h : PageInv owner sl w lw last) {n : Nat} {x : Slot V}
    (hx : SlotInv owner (OwnerHolds (sl owner)) w lw last n x)
    (ho : n = owner → lw = some owner → OwnerHolds x → OwnerHolds (sl owner)) :
    PageInv owner (Function.update sl n x) w lw last where
  last_zero := h.last_zero
  slot k := by
    have hh : lw = some owner → OwnerHolds (Function.update sl n x owner) → OwnerHolds (sl owner) := by
      intro hl hx'
      by_cases hno : owner = n
      · subst hno
        rw [Function.update_self] at hx'
        exact ho rfl hl hx'
      · rwa [Function.update_of_ne hno] at hx'
    by_cases hk : k = n
    · subst hk
      rw [Function.update_self]
      exact hx.mono hh
    · rw [Function.update_of_ne hk]
      exact (h.slot k).mono hh

end Invariant

/-! ## The invariant of the cluster -/

section Cluster

variable {V : Type} [Zero V] {c : Cluster} {pages : Nat} {m m' : Dsm V} {n p g : Nat}

/-- The invariant holds of every page. -/
def Dsm.Inv (c : Cluster) (m : Dsm V) : Prop :=
  ∀ p, PageInv c.owner (fun n => m.slot n p) (m.writes p) (m.lastWriter p) (m.last p)

omit [Zero V] in
theorem modify_slot (m : Dsm V) (n p : Nat) (f : Slot V → Slot V) (k q : Nat) :
    (m.modify n p f).slot k q = if k = n ∧ q = p then f (m.slot n p) else m.slot k q := by
  unfold Dsm.modify
  by_cases hk : k = n
  · subst hk
    by_cases hq : q = p
    · subst hq; simp
    · simp [hq]
  · simp [hk]

omit [Zero V] in
theorem modify_self (m : Dsm V) (n p : Nat) (f : Slot V → Slot V) : (m.modify n p f).slot n p = f (m.slot n p) := by
  simp [modify_slot]

omit [Zero V] in
theorem modify_other (m : Dsm V) (f : Slot V → Slot V) {n p k q : Nat} (h : ¬ (k = n ∧ q = p)) :
    (m.modify n p f).slot k q = m.slot k q := by
  rw [modify_slot, if_neg h]

theorem Dsm.Inv.modify (hi : m.Inv c) {f : Slot V → Slot V}
    (hx : SlotInv c.owner (OwnerHolds (m.slot c.owner p)) (m.writes p) (m.lastWriter p) (m.last p) n (f (m.slot n p)))
    (ho : n = c.owner → m.lastWriter p = some c.owner → OwnerHolds (f (m.slot n p)) →
      OwnerHolds (m.slot c.owner p)) : (m.modify n p f).Inv c := by
  intro q
  by_cases hq : q = p
  · subst hq
    have h := (hi q).update hx ho
    have he : (fun k => (m.modify n q f).slot k q) = Function.update (fun k => m.slot k q) n (f (m.slot n q)) := by
      funext k
      rw [modify_slot]
      by_cases hk : k = n
      · subst hk; simp
      · simp [hk]
    rw [he]
    exact h
  · have he : (fun k => (m.modify n p f).slot k q) = fun k => m.slot k q := by
      funext k
      exact modify_other m f fun h => hq h.2
    rw [he]
    exact hi q

/-- Changing an entry without changing its page. -/
theorem Dsm.Inv.setEntry (hi : m.Inv c) {e : Option (PageEntry Nat)} (he : e.bind (·.page) = (m.slot n p).cached) :
    (m.modify n p (·.setEntry e)).Inv c := by
  refine hi.modify (((hi p).slot n).setEntry (Or.inl he)) fun hn _ ho => ?_
  subst hn
  obtain ⟨g, b, hg, hc⟩ := ho
  exact ⟨g, b, hg, by rw [← he]; exact hc⟩

/-- Obtaining a page that is zero at the owner and the owner's elsewhere. -/
theorem Dsm.Inv.obtain_copy (hi : m.Inv c) {inst : Nat → Option (PageEntry Nat) → PageEntry Nat}
    (hinst : ∀ g e, (inst g e).page = some g) {v : V}
    (hv : v = if n = c.owner then 0 else (m.slot c.owner p).served)
    (hu : n = c.owner → (m.slot n p).map = none) :
    (m.modify n p fun sl => sl.obtain inst v (m.writes p)).Inv c := by
  have hp := hi p
  refine hi.modify ((hp.slot n).obtain_copy hinst ?_ ?_) ?_
  · intro hl
    rw [hv]
    split
    · rfl
    · unfold Slot.served
      cases hc : (m.slot c.owner p).cached with
      | none => rfl
      | some g => exact (hp.slot c.owner).cached_zero hl g hc
  · intro hl hh hn
    rw [hv, if_neg hn]
    obtain ⟨g, b, hg, hc⟩ := hh
    obtain ⟨g', b', hg', hlast⟩ := (hp.slot c.owner).writer hl
    rw [hg] at hg'
    cases hg'
    simp [Slot.served, hc, hlast]
  · -- the owner maps nothing, so it did not write last
    intro hn hl _
    obtain ⟨g, b, hg, -⟩ := (hp.slot c.owner).writer hl
    rw [← hn, hu hn] at hg
    cases hg

theorem Dsm.Inv.setMap (hi : m.Inv c) (hm : (m.slot n p).map = none) (hg : (m.slot n p).cached = some g) (b : Bool) :
    (m.modify n p (·.setMap g b)).Inv c := by
  have hp := hi p
  refine hi.modify ((hp.slot n).setMap hm hg b) ?_
  intro hn hl _
  obtain ⟨g', b', hg', -⟩ := (hp.slot c.owner).writer hl
  rw [← hn, hm] at hg'
  cases hg'

omit [Zero V] in
theorem invalidate_cached (x : Slot V) : x.invalidate.cached = none := by
  unfold Slot.invalidate Slot.setEntry Slot.cached
  cases x.entry <;> rfl

/-- Invalidations keep the invariant: a dropped page can only end the owner's hold. -/
theorem Dsm.Inv.invalidateRemote (hi : m.Inv c) (n p : Nat) : (m.invalidateRemote c n p).Inv c := by
  intro q
  have hslot : ∀ k, (m.invalidateRemote c n p).slot k q = m.slot k q ∨
      (m.invalidateRemote c n p).slot k q = (m.slot k q).invalidate := by
    intro k
    unfold Dsm.invalidateRemote
    simp only
    split
    · exact Or.inr rfl
    · exact Or.inl rfl
  have hh : OwnerHolds ((m.invalidateRemote c n p).slot c.owner q) → OwnerHolds (m.slot c.owner q) := by
    rintro ⟨g, b, hg, hc⟩
    rcases hslot c.owner with h | h
    · rw [h] at hg hc; exact ⟨g, b, hg, hc⟩
    · rw [h, invalidate_cached] at hc; cases hc
  refine ⟨(hi q).last_zero, fun k => ?_⟩
  have hk := ((hi q).slot k).mono fun _ => hh
  rcases hslot k with h | h
  · rw [h]; exact hk
  · rw [h]; exact hk.setEntry (Or.inr (invalidate_cached _))

/-- A store makes the writer's mapped page the last value and every other copy old. -/
theorem Dsm.Inv.store (hi : m.Inv c) (hg : g < (m.slot n p).next) (v : V) : (m.store n p g v).Inv c := by
  intro q
  by_cases hq : q = p
  · subst hq
    have hl : (m.store n q g v).lastWriter q = some n := by simp [Dsm.store]
    have hw : (m.store n q g v).writes q = m.writes q + 1 := by simp [Dsm.store]
    have hv : (m.store n q g v).last q = v := by simp [Dsm.store]
    rw [hl, hw, hv]
    refine ⟨nofun, fun k => ?_⟩
    have hk := (hi q).slot k
    by_cases hkn : k = n
    · subst hkn
      have hs : (m.store k q g v).slot k q = (m.slot k q).store g v := modify_self m k q (·.store g v)
      rw [hs]
      refine ⟨?_, hk.cached_lt, Nat.le_succ_of_le hk.since_le, nofun, nofun,
        fun _ => ⟨g, true, rfl, by simp [Slot.store]⟩, fun _ _ _ hsn => ?_⟩
      · intro g' b' h
        cases h
        exact hg
      · have := hk.since_le
        simp only [Slot.store] at hsn
        omega
    · have hs : (m.store n q g v).slot k q = m.slot k q := modify_other m (·.store g v) fun h => hkn h.1
      rw [hs]
      refine ⟨hk.map_lt, hk.cached_lt, Nat.le_succ_of_le hk.since_le, nofun, nofun, ?_, fun _ _ _ hsn => ?_⟩
      · intro h
        exact absurd (Option.some.inj h).symm hkn
      · have := hk.since_le
        omega
  · have h1 : (m.store n p g v).lastWriter q = m.lastWriter q := by simp [Dsm.store, hq]
    have h2 : (m.store n p g v).writes q = m.writes q := by simp [Dsm.store, hq]
    have h3 : (m.store n p g v).last q = m.last q := by simp [Dsm.store, hq]
    have h4 : (fun k => (m.store n p g v).slot k q) = fun k => m.slot k q := by
      funext k
      exact modify_other m (·.store g v) fun h => hq h.2
    rw [h1, h2, h3, h4]
    exact hi q

end Cluster

end UckSmp.Memory
