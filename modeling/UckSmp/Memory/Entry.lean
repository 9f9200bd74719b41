import Mathlib.Data.List.Basic

/-!
# Page entries of the region cache

The cache entry of one page (`struct uck_page_entry`) and what each critical section under `region->lock` does to it:
the first section of `uck_fault`, the section after a batch fetch, the install of a fetched page, `uck_page_mkwrite`,
the install of a batch page and `uck_handle_invalidate`. The page itself is a value of an arbitrary type: its bytes
where only the contents matter, a reference where the identity of the page does.
-/

namespace UckSmp.Memory

/-- `enum uck_page_state`. -/
inductive PageState
  | invalid
  | shared
  | modified
  | exclusive
  | inTransit
  deriving DecidableEq, Repr

/-- A copy of the page that its node may read: `SHARED` or `EXCLUSIVE`. -/
def PageState.Held (p : PageState) : Prop := p = .shared ∨ p = .exclusive

instance (p : PageState) : Decidable p.Held := inferInstanceAs (Decidable (_ ∨ _))

/-- `struct uck_page_entry`, without its tree node, its wait queue and its unused reference count; the index is the
key under which the entry is kept. -/
structure PageEntry (π : Type) where
  page : Option π
  state : PageState
  ownerNode : Nat
  writeMapped : Bool
  deriving DecidableEq, Repr

variable {π : Type}

/-- `uck_page_alloc_entry`: the entry that is put into the tree. -/
def uckPageAllocEntry (owner : Nat) : PageEntry π := ⟨none, .invalid, owner, false⟩

/-- `uck_page_try_set_state`: compare and exchange. -/
def PageEntry.trySetState (e : PageEntry π) (old new : PageState) : PageEntry π :=
  if e.state = old then { e with state := new } else e

/-- The transition to `EXCLUSIVE` that every write grant ends with. -/
def PageEntry.grantWrite (e : PageEntry π) : PageEntry π := { e with state := .exclusive, writeMapped := true }

/-- What the allocator and the memory limit answer during a fault: `uck_page_alloc_entry` succeeded,
`uck_memctl_can_alloc(1)` allowed the page, `alloc_page` succeeded. -/
structure FaultAllocs where
  entry : Bool
  canAlloc : Bool
  page : Bool
  deriving DecidableEq, Repr

/-- How the first critical section of `uck_fault` ends. -/
inductive FaultEnter (π : Type)
  /-- The page is served from the cache; `invalidate` says that the remote copies were invalidated. A hit whose entry
  has no page dereferences `NULL` in `get_page`. -/
  | hit (e : PageEntry π) (invalidate : Bool)
  /-- The branch for a page that another CPU is fetching. -/
  | wait (e : PageEntry π)
  /-- `VM_FAULT_OOM`, with what is left in the cache. -/
  | oom (e : Option (PageEntry π))
  /-- The entry is marked `IN_TRANSIT` and the fault goes on to fetch the page. -/
  | fetch (e : PageEntry π)
  deriving DecidableEq, Repr

/-- The fault goes on to fetch the page. -/
def FaultEnter.isFetch : FaultEnter π → Bool
  | .fetch _ => true
  | _ => false

/-- The part of the first section behind the cache miss. -/
def faultMiss (a : FaultAllocs) (e : PageEntry π) : FaultEnter π :=
  if e.state = .inTransit then .wait e
  else
    let e := e.trySetState .invalid .inTransit
    if !a.canAlloc then .oom (some (e.trySetState .inTransit .invalid))
    else if !a.page then .oom (some (e.trySetState .inTransit .invalid))
    else .fetch e

/-- The first critical section of `uck_fault`. An `IN_TRANSIT` entry is not `INVALID`, so it is served as a hit; the
test for `IN_TRANSIT` that follows never sees one. -/
def uckFaultEnter (owner : Nat) (isWrite : Bool) (a : FaultAllocs) : Option (PageEntry π) → FaultEnter π
  | some e =>
    if e.state ≠ .invalid then
      if isWrite = true ∧ e.state = .shared then .hit e.grantWrite true else .hit e false
    else faultMiss a e
  | none => if a.entry then faultMiss a (uckPageAllocEntry owner) else .oom none

/-- The section of `uck_fault` after a batch fetch that returned pages: the entry and whether the remote copies were
invalidated, or `none` when the faulting page did not come and the single fetch follows. -/
def uckFaultAfterBatch (isWrite : Bool) : Option (PageEntry π) → Option (PageEntry π × Bool)
  | some e => if e.page.isSome then some (if isWrite then (e.grantWrite, true) else (e, false)) else none
  | none => none

/-- The last section of `uck_fault`: the fetched (or zero) page is installed. No copy is invalidated here. -/
def uckFaultInstall (isWrite : Bool) (pg : π) (e : PageEntry π) : PageEntry π :=
  { e with page := some pg, state := if isWrite then .exclusive else .shared, writeMapped := isWrite }

/-- `uck_fault` gives the page up after a failed fetch. -/
def uckFaultAbort (e : PageEntry π) : PageEntry π := e.trySetState .inTransit .invalid

/-- The install of one page of a batch. -/
def batchInstall (owner : Nat) (pg : π) (e : Option (PageEntry π)) : PageEntry π :=
  { e.getD (uckPageAllocEntry owner) with page := some pg, state := .shared, writeMapped := false }

/-- `uck_page_mkwrite`: the entry and whether the remote copies were invalidated. -/
def uckPageMkwrite : Option (PageEntry π) → Option (PageEntry π) × Bool
  | some e => if e.state = .shared then (some e.grantWrite, true) else (some e, false)
  | none => (none, false)

/-- `uck_handle_invalidate`: the page is dropped and the entry is `INVALID`. -/
def uckHandleInvalidate (e : PageEntry π) : PageEntry π := { e with page := none, state := .invalid }

/-- What `uck_handle_page_request` and `uck_handle_batch_page_req` answer: the entry's page, whatever its state, or
the zero page. -/
def servedPage [Zero π] : Option (PageEntry π) → π
  | some e => e.page.getD 0
  | none => 0

/-! ## States after each section -/

/-- The state of a page without an entry is that of a fresh entry. -/
def stateOf (e : Option (PageEntry π)) : PageState := (e.map (·.state)).getD .invalid

@[simp] theorem stateOf_some (e : PageEntry π) : stateOf (some e) = e.state := rfl

/-- A state other than `INVALID` is that of an entry. -/
theorem exists_of_stateOf {e? : Option (PageEntry π)} {st : PageState} (h : stateOf e? = st) (hst : st ≠ .invalid) :
    ∃ e, e? = some e ∧ e.state = st := by
  cases e? with
  | none => exact absurd h.symm hst
  | some e => exact ⟨e, rfl, h⟩

@[simp] theorem grantWrite_state (e : PageEntry π) : e.grantWrite.state = .exclusive := rfl

@[simp] theorem grantWrite_page (e : PageEntry π) : e.grantWrite.page = e.page := rfl

@[simp] theorem uckFaultInstall_state (w : Bool) (pg : π) (e : PageEntry π) :
    (uckFaultInstall w pg e).state = if w then .exclusive else .shared := rfl

/-- A compare and exchange to a state that is not a held one holds nothing new. -/
theorem trySetState_held {e : PageEntry π} {old new : PageState} (hn : ¬ new.Held)
    (h : (e.trySetState old new).state.Held) : (e.trySetState old new).state = e.state := by
  unfold PageEntry.trySetState at h ⊢
  split at h
  · exact absurd h hn
  · rename_i hne; rw [if_neg hne]

/-- The entry that the first section of `uck_fault` leaves in the cache. -/
def FaultEnter.entry : FaultEnter π → Option (PageEntry π)
  | .hit e _ => some e
  | .wait e => some e
  | .oom e => e
  | .fetch e => some e

theorem getD_alloc_state (owner : Nat) {e? : Option (PageEntry π)} (h : stateOf e? = .invalid) :
    (e?.getD (uckPageAllocEntry owner)).state = .invalid := by
  cases e? with
  | none => rfl
  | some e => exact h

/-- A miss runs out of memory and leaves the entry as it was, or is allowed a page and goes on to fetch it. -/
theorem faultMiss_cases (a : FaultAllocs) {e : PageEntry π} (h : e.state = .invalid) :
    faultMiss a e = .oom (some e) ∨ a.canAlloc = true ∧ faultMiss a e = .fetch { e with state := .inTransit } := by
  obtain ⟨pg, st, o, wm⟩ := e
  cases h
  by_cases hc : a.canAlloc = true
  · by_cases hp : a.page = true
    · right
      simp [faultMiss, PageEntry.trySetState, hc, hp]
    · left
      simp [faultMiss, PageEntry.trySetState, hc, hp]
  · left
    simp [faultMiss, PageEntry.trySetState, hc]

/-- What the first section of `uck_fault` can do: it serves an entry that is not `INVALID`, or it misses, with the entry
as it was or a fresh one. It never waits. -/
theorem uckFaultEnter_cases (owner : Nat) (w : Bool) (a : FaultAllocs) (e? : Option (PageEntry π)) :
    (∃ e, e? = some e ∧ e.state ≠ .invalid ∧ uckFaultEnter owner w a e? =
      if w = true ∧ e.state = .shared then .hit e.grantWrite true else .hit e false) ∨
    (stateOf e? = .invalid ∧
      (e? = none ∧ uckFaultEnter owner w a e? = .oom none ∨
        uckFaultEnter owner w a e? = .oom (some (e?.getD (uckPageAllocEntry owner))) ∨
        a.canAlloc = true ∧
          uckFaultEnter owner w a e? = .fetch { e?.getD (uckPageAllocEntry owner) with state := .inTransit })) := by
  cases e? with
  | none =>
    refine .inr ⟨rfl, ?_⟩
    by_cases ha : a.entry = true
    · right
      simpa only [uckFaultEnter, if_pos ha, Option.getD_none] using faultMiss_cases a rfl
    · left
      exact ⟨rfl, by simp only [uckFaultEnter, if_neg ha]⟩
  | some e =>
    by_cases hi : e.state = .invalid
    · refine .inr ⟨hi, .inr ?_⟩
      simpa only [uckFaultEnter, hi, ne_eq, not_true_eq_false, if_false, Option.getD_some] using faultMiss_cases a hi
    · refine .inl ⟨e, rfl, hi, ?_⟩
      simp only [uckFaultEnter, ne_eq, hi, not_false_eq_true, if_true]

/-- A hit for writing on a `SHARED` page grants it. -/
theorem uckFaultEnter_grant (owner : Nat) (a : FaultAllocs) {e : Option (PageEntry π)} (h : stateOf e = .shared) :
    stateOf (uckFaultEnter owner true a e).entry = .exclusive := by
  obtain ⟨x, rfl, hx⟩ := exists_of_stateOf h (by decide)
  simp [uckFaultEnter, hx, FaultEnter.entry]

/-- Otherwise the first section of `uck_fault` holds nothing that was not held. -/
theorem uckFaultEnter_held {owner : Nat} {w : Bool} {a : FaultAllocs} {e : Option (PageEntry π)}
    (hn : ¬ (w = true ∧ stateOf e = .shared)) (h : (stateOf (uckFaultEnter owner w a e).entry).Held) :
    stateOf (uckFaultEnter owner w a e).entry = stateOf e := by
  have hinvalid : ¬ PageState.Held .invalid := by decide
  have htransit : ¬ PageState.Held .inTransit := by decide
  obtain ⟨x, rfl, -, hx⟩ | ⟨hi, ⟨rfl, ho⟩ | ho | ⟨-, hf⟩⟩ := uckFaultEnter_cases owner w a e
  · rw [stateOf_some] at hn
    rw [hx, if_neg hn]
    rfl
  · rw [ho]
    rfl
  · rw [ho, FaultEnter.entry, stateOf_some, getD_alloc_state owner hi] at h
    exact absurd h hinvalid
  · rw [hf] at h
    exact absurd h htransit

end UckSmp.Memory
