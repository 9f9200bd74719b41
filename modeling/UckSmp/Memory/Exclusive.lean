import UckSmp.Memory.Faults

/-!
# Pages given to a writer

Every place at which a page becomes `EXCLUSIVE` on a node, and what the faults under way can do to it afterwards.

* `step_touches`: what one step can do to the entry of a page.
* `readOnly_iff`: the runs in which a degraded node is read-only are those in which it happens not to give out a page.
* `writes_kept`: when pages are given out only while nobody else is fetching them, no fetch destroys a local write.
-/

namespace UckSmp.Memory.Faults

open Lib.Transition

variable {c : Config} {s t : Sys} {e : Ev} {k : Key}

/-! ## What one step does to an entry -/

/-- The fault is going to put a page of its own into the entry of `k`, unless its fetch fails. -/
def Thread.Fetches (x : Thread) (k : Key) : Prop :=
  match x.phase with
  | .waiting => False
  | .entered _ => k = x.key
  | .batch _ rest fetched => (k.1 = x.key.1 ∧ k.2 ∈ rest) ∨ (k = x.key ∧ fetched = 0)
  | .batched _ => False
  | .fetching _ => k = x.key

instance (k : Key) : (x : Thread) → Decidable (x.Fetches k)
  | ⟨_, _, .waiting⟩ => .isFalse id
  | ⟨key, _, .entered _⟩ => inferInstanceAs (Decidable (k = key))
  | ⟨_, _, .batch ..⟩ => inferInstanceAs (Decidable (_ ∨ _))
  | ⟨_, _, .batched _⟩ => .isFalse id
  | ⟨key, _, .fetching _⟩ => inferInstanceAs (Decidable (k = key))

/-- The page that a thread gives to its writer by an action. -/
def grantsAct (c : Config) (s : Sys) (x : Thread) : Phase → Act → Option Key
  | .batched _, .recheck => if x.isWrite = true ∧ (s.node.cache.page x.key).isSome = true then some x.key else none
  | .fetching _, .complete ok =>
    if x.isWrite = true ∧ (ok = true ∨ c.owner x.key.1 = c.self) ∧ (s.node.cache.entry x.key).isSome = true
    then some x.key else none
  | _, _ => none

/-- The page that a step gives to a writer: a write fault that hits a `SHARED` page, `uck_page_mkwrite` on one, a write
fault that finds its page after the batch or that installs it. -/
def grants (c : Config) (s : Sys) : Ev → Option Key
  | .fault k w _ =>
    if k.2 * pageSize < c.size k.1 ∧ w = true ∧ stateOf (s.node.cache.entry k) = .shared then some k else none
  | .mkwrite k => if stateOf (s.node.cache.entry k) = .shared then some k else none
  | .thread i act => s.threads[i]?.bind fun x => grantsAct c s x x.phase act
  | _ => none

/-- What a step can leave in the entry of `k`. -/
inductive Touch (c : Config) (s : Sys) (k : Key) : Ev → Option (PageEntry Nat) → Prop
  | same (e : Ev) : Touch c s k e (s.node.cache.entry k)
  | grant {e : Ev} {x : PageEntry Nat} (hx : s.node.cache.entry k = some x)
      (hp : x.state = .shared ∨ x.page.isSome = true) (hg : grants c s e = some k) :
      Touch c s k e (some x.grantWrite)
  | miss (w : Bool) (a : Allocs) {st : PageState} (hi : stateOf (s.node.cache.entry k) = .invalid)
      (hst : st = .invalid ∨ st = .inTransit) : Touch c s k (.fault k w a)
        (some { (s.node.cache.entry k).getD (uckPageAllocEntry (c.owner k.1)) with state := st })
  | batch {i : Nat} (act : Act) {x : Thread} (hx : s.threads[i]? = some x) (hf : x.Fetches k) :
      Touch c s k (.thread i act) (some (batchInstall (c.owner k.1) s.node.next (s.node.cache.entry k)))
  | single {i : Nat} {act : Act} {x : Thread} (own : Nat) {y : PageEntry Nat} (hx : s.threads[i]? = some x)
      (hf : x.Fetches k) (hy : s.node.cache.entry k = some y)
      (hg : x.isWrite = true → grants c s (.thread i act) = some k) :
      Touch c s k (.thread i act) (some (uckFaultInstall x.isWrite own y))
  | abort (i : Nat) (act : Act) {y : PageEntry Nat} (hy : s.node.cache.entry k = some y) :
      Touch c s k (.thread i act) (some (uckFaultAbort y))
  | invalidate {y : PageEntry Nat} (hy : s.node.cache.entry k = some y) :
      Touch c s k (.invalidate k) (some (uckHandleInvalidate y))
  | leave {y : PageEntry Nat} (hy : s.node.cache.entry k = some y) :
      Touch c s k (.leave (c.owner k.1)) (some { y with state := .invalid })
  | teardown : Touch c s k .teardown none

/-- A section that changes the entry of one page. -/
theorem Touch.set {x : Option (PageEntry Nat)} {j : Key} (h : j = k → ∀ y, x = some y → Touch c s k e (some y)) :
    Touch c s k e ((s.node.cache.set j x).entry k) := by
  by_cases hj : j = k
  · subst hj
    cases x with
    | none => exact .same _
    | some y =>
      rw [Cache.set, Cache.put_entry_self]
      exact h rfl y rfl
  · rw [Cache.set_entry_of_ne (Ne.symm hj)]
    exact .same _

theorem Touch.of_eq {y : PageEntry Nat} (h : s.node.cache.entry k = some y) : Touch c s k e (some y) := by
  rw [← h]
  exact .same _

/-- The first section of a fault. -/
theorem touch_fault (j : Key) (w : Bool) (a : Allocs) :
    Touch c s k (.fault j w a) ((s.fault c j w a).node.cache.entry k) := by
  rw [Sys.fault_node]
  by_cases hin : j.2 * pageSize < c.size j.1
  · rw [Node.enter_cache hin]
    refine .set ?_
    rintro rfl y hy
    obtain ⟨x, hx, -, hx'⟩ | ⟨hi, ⟨-, ho⟩ | ho | ⟨-, hf⟩⟩ := s.node.faultEnter_cases c j w a
    · rw [hx'] at hy
      by_cases hw : w = true ∧ x.state = .shared
      · rw [if_pos hw] at hy
        cases hy
        refine .grant hx (.inl hw.2) ?_
        simp only [grants, hx, stateOf_some]
        rw [if_pos ⟨hin, hw⟩]
      · rw [if_neg hw] at hy
        cases hy
        exact .of_eq hx
    · rw [ho] at hy
      cases hy
    · rw [ho] at hy
      cases hy
      have hst : ({ (s.node.cache.entry j).getD (uckPageAllocEntry (c.owner j.1)) with state := .invalid } :
          PageEntry Nat) = (s.node.cache.entry j).getD (uckPageAllocEntry (c.owner j.1)) := by
        rw [← getD_alloc_state (c.owner j.1) hi]
      rw [← hst]
      exact .miss w a hi (.inl rfl)
    · rw [hf] at hy
      cases hy
      exact .miss w a hi (.inr rfl)
  · rw [Node.enter_outside hin]
    exact .same _

/-- The actions of a thread. -/
theorem touch_act {i : Nat} {x : Thread} {act : Act} (hx : s.threads[i]? = some x)
    (h : Acts c s i x x.phase act t) : Touch c s k (.thread i act) (t.node.cache.entry k) := by
  obtain ⟨key, w, phase⟩ := x
  have hsame : t.node.cache = s.node.cache → Touch c s k (.thread i act) (t.node.cache.entry k) := fun hc => by
    rw [hc]
    exact .same _
  cases h with
  | wake h =>
    obtain ⟨-, -, rfl⟩ := Node.wake_eq_some h
    exact hsame rfl
  | sigbus => exact hsame rfl
  | request own => exact hsame (Sys.request_cache own)
  | receive own j rest n ea =>
    rw [Sys.receive_node, Node.batchPage_cache]
    split
    · refine .set (x := some _) ?_
      rintro rfl y hy
      cases hy
      exact .batch _ hx (.inl ⟨rfl, List.mem_cons_self⟩)
    · exact .same _
  | batchEnd => exact hsame rfl
  | batchFailed => exact hsame rfl
  | recheck own =>
    cases hr : s.node.afterBatch key w own with
    | none =>
      refine hsame ?_
      simp only [Sys.recheck, hr]
      rfl
    | some r =>
      obtain ⟨y, hy, hp, hc⟩ := Node.afterBatch_eq_some hr
      simp only [Sys.recheck, hr, Sys.finish, hc, Node.returnPage_cache, Node.put_cache, Node.freePage_cache]
      refine .set (x := some _) ?_
      rintro rfl z hz
      cases hz
      cases w with
      | false => exact .of_eq hy
      | true =>
        refine .grant hy (.inr (by rw [hp]; rfl)) ?_
        simp only [grants, hx, Option.bind_some, grantsAct, Cache.page, hy, hp]
        rfl
  | complete own ok =>
    unfold Sys.complete
    split
    · rename_i hok
      simp only [Sys.finish, Node.install_cache]
      refine .set ?_
      rintro rfl z hz
      obtain ⟨y, hy, rfl⟩ := Option.map_eq_some_iff.1 hz
      refine .single (x := ⟨key, w, .fetching own⟩) own hx rfl hy fun hw => ?_
      simp only [grants, hx, Option.bind_some, grantsAct]
      rw [if_pos ⟨hw, hok, by rw [hy]; rfl⟩]
    · simp only [Sys.fail, Node.abort_eq]
      refine .set ?_
      rintro rfl z hz
      obtain ⟨y, hy, rfl⟩ := Option.map_eq_some_iff.1 hz
      exact .abort i _ hy

/-- **What one step does to the entry of a page.** -/
theorem step_touches (h : step c s e = some t) (k : Key) : Touch c s k e (t.node.cache.entry k) := by
  cases e with
  | fault j w a =>
    cases h
    exact touch_fault j w a
  | thread i act =>
    obtain ⟨x, hx, h⟩ := Acts.of_step h
    exact touch_act hx h
  | mkwrite j =>
    cases h
    simp only [Node.mkwrite_eq]
    refine .set ?_
    rintro rfl z hz
    cases hy : s.node.cache.entry j with
    | none =>
      rw [hy] at hz
      cases hz
    | some y =>
      rw [hy] at hz
      by_cases hs : y.state = .shared
      · simp only [uckPageMkwrite, if_pos hs] at hz
        cases hz
        refine .grant hy (.inl hs) ?_
        simp only [grants, hy, stateOf_some, if_pos hs]
      · simp only [uckPageMkwrite, if_neg hs] at hz
        cases hz
        exact .of_eq hy
  | invalidate j =>
    cases h
    simp only [Node.invalidate_eq]
    refine .set ?_
    rintro rfl z hz
    obtain ⟨y, hy, rfl⟩ := Option.map_eq_some_iff.1 hz
    exact .invalidate hy
  | leave n =>
    cases h
    simp only [Node.leave, Cache.map]
    cases hy : s.node.cache.entry k with
    | none =>
      have hnone := Touch.same (c := c) (s := s) (k := k) (.leave n)
      rwa [hy] at hnone
    | some y =>
      rw [Option.map_some, Node.leaveEntry]
      split
      · rename_i hn
        obtain ⟨rfl, -⟩ := hn
        exact .leave hy
      · exact .of_eq hy
  | unmap g =>
    obtain ⟨-, rfl⟩ := of_step_unmap h
    exact .same _
  | quorum nodes =>
    cases h
    exact .same _
  | teardown =>
    obtain ⟨-, rfl⟩ := of_step_teardown h
    exact .teardown

/-- Entries stay until the teardown. -/
theorem entry_isSome_of_step (h : step c s e = some t) (he : e ≠ .teardown)
    (hk : (s.node.cache.entry k).isSome = true) : (t.node.cache.entry k).isSome = true := by
  have htouch := step_touches h k
  generalize t.node.cache.entry k = new at htouch
  cases htouch with
  | same => exact hk
  | teardown => exact absurd rfl he
  | _ => rfl

/-- The faults under way, without the one that takes the step. -/
def others (s : Sys) : Ev → List Thread
  | .thread i _ => s.threads.eraseIdx i
  | _ => s.threads

/-- A write fault that hits a `SHARED` page. -/
theorem fault_of_grants {w : Bool} {a : Allocs} (hin : k.2 * pageSize < c.size k.1) (hw : w = true)
    {x : PageEntry Nat} (hx : s.node.cache.entry k = some x) (hs : x.state = .shared) :
    (s.fault c k w a).node.cache.entry k = some x.grantWrite ∧ (s.fault c k w a).threads = s.threads := by
  have hf : s.node.faultEnter c k w a = .hit x.grantWrite true := by
    simp only [Node.faultEnter, uckFaultEnter, hx, hs, hw, ne_eq, reduceCtorEq, not_false_eq_true, if_true, and_self]
  constructor
  · rw [Sys.fault_node, Node.enter_cache hin, hf]
    exact Cache.put_entry_self
  · simp only [Sys.fault, Node.enter, if_neg (Nat.not_le.2 hin), hf, grantWrite_page]
    cases x.page <;> rfl

/-- A write fault that gets its page after the batch or after the single fetch. -/
theorem act_of_grants {i : Nat} {x : Thread} {act : Act} (hx : s.threads[i]? = some x)
    (hg : grantsAct c s x x.phase act = some k) : ∃ t y, step c s (.thread i act) = some t ∧
      t.node.cache.entry k = some y ∧ (y.state = .exclusive ∧ y.writeMapped = true) ∧
      t.threads = s.threads.eraseIdx i := by
  obtain ⟨key, w, phase⟩ := x
  have hstep : step c s (.thread i act) = s.act i ⟨key, w, phase⟩ c phase act := by
    simp only [step, hx, Option.bind_some]
  rw [hstep]
  cases phase with
  | batched own =>
    cases act <;> try cases hg
    simp only [grantsAct, Option.ite_none_right_eq_some] at hg
    obtain ⟨⟨rfl, hp⟩, hk⟩ := hg
    cases hk
    cases hr : s.node.afterBatch k true own with
    | none =>
      rw [Node.afterBatch_eq_none hr] at hp
      cases hp
    | some r =>
      obtain ⟨y, hy, -, hc⟩ := Node.afterBatch_eq_some hr
      refine ⟨s.finish i ⟨k, true, .batched own⟩ (some r.1) r.2, y.grantWrite, ?_, ?_, ⟨rfl, rfl⟩, rfl⟩
      · simp only [Sys.act, Sys.recheck, hr]
      · simp only [Sys.finish, hc, Node.returnPage_cache, Node.put_cache, Cache.put_entry_self, if_true]
  | fetching own =>
    cases act with
    | complete ok =>
      simp only [grantsAct, Option.ite_none_right_eq_some] at hg
      obtain ⟨⟨rfl, hok, hsome⟩, hk⟩ := hg
      cases hk
      obtain ⟨y, hy⟩ := Option.isSome_iff_exists.1 hsome
      refine ⟨s.complete i ⟨k, true, .fetching own⟩ c own ok, uckFaultInstall true own y, rfl, ?_, ⟨rfl, rfl⟩, ?_⟩
      · rw [Sys.complete_of_ok hok]
        simp only [Sys.finish, Node.install_cache, hy, Option.map_some, Cache.set, Cache.put_entry_self]
      · rw [Sys.complete_of_ok hok]
        rfl
    | _ => cases hg
  | _ => cases act <;> cases hg

/-- A grant ends the fault that gets it, and makes the page `EXCLUSIVE` and write-mapped. -/
theorem step_of_grants (hg : grants c s e = some k) : ∃ t y, step c s e = some t ∧
    t.node.cache.entry k = some y ∧ (y.state = .exclusive ∧ y.writeMapped = true) ∧ t.threads = others s e := by
  cases e with
  | fault j w a =>
    simp only [grants, Option.ite_none_right_eq_some] at hg
    obtain ⟨⟨hin, hw, hs⟩, hjk⟩ := hg
    cases hjk
    obtain ⟨x, hx, hs⟩ := exists_of_stateOf hs (by decide)
    obtain ⟨hy, hts⟩ := fault_of_grants (a := a) hin hw hx hs
    exact ⟨_, x.grantWrite, rfl, hy, ⟨rfl, rfl⟩, hts⟩
  | mkwrite j =>
    simp only [grants, Option.ite_none_right_eq_some] at hg
    obtain ⟨hs, hjk⟩ := hg
    cases hjk
    obtain ⟨x, hx, hs⟩ := exists_of_stateOf hs (by decide)
    refine ⟨_, x.grantWrite, rfl, ?_, ⟨rfl, rfl⟩, rfl⟩
    simp only [Node.mkwrite_eq, hx, uckPageMkwrite, if_pos hs, Cache.set, Cache.put_entry_self]
  | thread i act =>
    obtain ⟨x, hx, hg⟩ := Option.bind_eq_some_iff.1 hg
    exact act_of_grants hx hg
  | _ => cases hg

/-! ## Degraded nodes -/

def writeMappedOf (e : Option (PageEntry Nat)) : Bool := (e.map (·.writeMapped)).getD false

/-- An entry moves into `EXCLUSIVE`, or its `write_mapped` is set. -/
def Raised (old new : Option (PageEntry Nat)) : Prop :=
  (stateOf new = .exclusive ∧ stateOf old ≠ .exclusive) ∨ (writeMappedOf new = true ∧ writeMappedOf old = false)

theorem not_raised {old new : Option (PageEntry Nat)} (hs : stateOf new = .exclusive → stateOf old = .exclusive)
    (hw : writeMappedOf new = true → writeMappedOf old = true) : ¬ Raised old new := by
  rintro (⟨hnew, hold⟩ | ⟨hnew, hold⟩)
  · exact hold (hs hnew)
  · rw [hw hnew] at hold
    cases hold

/-- Only a grant raises an entry. -/
theorem Touch.grants_of_raised {new : Option (PageEntry Nat)} (h : Touch c s k e new)
    (hr : Raised (s.node.cache.entry k) new) : grants c s e = some k := by
  cases h with
  | same => exact absurd hr (not_raised id id)
  | grant hx hp hg => exact hg
  | miss w a hi hst =>
    refine absurd hr (not_raised ?_ ?_)
    · rcases hst with rfl | rfl <;> exact PageState.noConfusion
    · cases s.node.cache.entry k <;> exact id
  | batch act hx hf => exact absurd hr (not_raised PageState.noConfusion Bool.noConfusion)
  | @single i act x own y hx hf hy hg =>
    cases hw : x.isWrite with
    | true => exact hg hw
    | false =>
      rw [hw] at hr
      exact absurd hr (not_raised PageState.noConfusion Bool.noConfusion)
  | abort i act hy =>
    rw [hy] at hr
    refine absurd hr (not_raised ?_ ?_)
    · simp only [uckFaultAbort, PageEntry.trySetState, stateOf_some]
      split
      · exact PageState.noConfusion
      · exact id
    · simp only [uckFaultAbort, PageEntry.trySetState]
      split <;> exact id
  | invalidate hy =>
    rw [hy] at hr
    exact absurd hr (not_raised PageState.noConfusion id)
  | leave hy =>
    rw [hy] at hr
    exact absurd hr (not_raised PageState.noConfusion id)
  | teardown => exact absurd hr (not_raised PageState.noConfusion Bool.noConfusion)

/-- While the node is degraded, the step raises no entry. -/
def ReadOnly (c : Config) (s : Sys) (e : Ev) : Prop :=
  s.quorum.degraded = true → ∀ t, step c s e = some t → ∀ k, ¬ Raised (s.node.cache.entry k) (t.node.cache.entry k)

/-- While the node is degraded, the step gives no page to a writer, except one that has it already. -/
def GrantsNothing (c : Config) (s : Sys) (e : Ev) : Prop :=
  s.quorum.degraded = true → ∀ k ∈ grants c s e,
    stateOf (s.node.cache.entry k) = .exclusive ∧ writeMappedOf (s.node.cache.entry k) = true

theorem readOnly_iff : ReadOnly c s e ↔ GrantsNothing c s e := by
  constructor
  · intro h hd k hk
    obtain ⟨t, y, ht, hy, ⟨hs, hw⟩, -⟩ := step_of_grants hk
    have hnot := h hd t ht k
    simp only [Raised, hy, stateOf_some, hs, writeMappedOf, Option.map_some, hw, Option.getD_some, true_and, not_or,
      not_not, Bool.not_eq_false] at hnot
    exact hnot
  · intro h hd t ht k hr
    have hg := (step_touches ht k).grants_of_raised hr
    exact not_raised (fun _ => (h hd k hg).1) (fun _ => (h hd k hg).2) hr

/-- **Degraded nodes** are not read-only: no fault looks at the mode. The runs in which a degraded node is read-only are
those in which, while it is degraded, no write fault or `uck_page_mkwrite` meets a `SHARED` page and no write fault gets
the page that it fetched. -/
theorem degraded_readOnly_iff (c : Config) (s : Sys) (es : List Ev) :
    EachStep (step c) (ReadOnly c) s es ↔ EachStep (step c) (GrantsNothing c) s es := by
  have heq : ReadOnly c = GrantsNothing c := by
    ext s e
    exact readOnly_iff
  rw [heq]

/-- The node loses both others, and a write fault comes in: it fetches the page and gets it `EXCLUSIVE`. -/
theorem degraded_write_granted :
    ¬ EachStep (step (client 1)) (ReadOnly (client 1)) {}
      [.quorum [{ nodeId := 2 }, { nodeId := 3 }], .fault (0, 0) true ⟨true, true⟩, .thread 0 .request,
        .thread 0 (.complete true)] := by
  intro h
  have hlast := (((h.2 _ rfl).2 _ rfl).2 _ rfl).1 rfl _ rfl (0, 0)
  exact hlast (.inl (by decide))

/-! ## Local writes -/

/-- The steps that may take an `EXCLUSIVE` page away: a received `INVALIDATE` of it, a `NODE_LEAVE` of its owner and the
teardown. -/
def MayLower (c : Config) (k : Key) : Ev → Prop
  | .invalidate j => j = k
  | .leave n => c.owner k.1 = n
  | .teardown => True
  | _ => False

/-- The step leaves every `EXCLUSIVE` page as it is, unless it may lower it. -/
def KeepsWrites (c : Config) (s : Sys) (e : Ev) : Prop :=
  ∀ t, step c s e = some t → ∀ k, stateOf (s.node.cache.entry k) = .exclusive → ¬ MayLower c k e →
    stateOf (t.node.cache.entry k) = .exclusive ∧ t.node.cache.page k = s.node.cache.page k

/-- The step gives a page to a writer only if no other fault is fetching it. -/
def GrantsAlone (c : Config) (s : Sys) (e : Ev) : Prop := ∀ k ∈ grants c s e, ∀ x ∈ others s e, ¬ x.Fetches k

instance : Decidable (GrantsAlone c s e) := by
  unfold GrantsAlone
  infer_instance

theorem Touch.kept {new : Option (PageEntry Nat)} (h : Touch c s k e new) (hno : ∀ x ∈ s.threads, ¬ x.Fetches k)
    (hs : stateOf (s.node.cache.entry k) = .exclusive) (hl : ¬ MayLower c k e) :
    stateOf new = .exclusive ∧ new.bind (·.page) = s.node.cache.page k := by
  cases h with
  | same => exact ⟨hs, rfl⟩
  | grant hx hp hg => exact ⟨rfl, by rw [Cache.page, hx]; rfl⟩
  | miss w a hi hst =>
    rw [hi] at hs
    cases hs
  | batch act hx hf => exact absurd hf (hno _ (List.mem_of_getElem? hx))
  | single own hx hf hy hg => exact absurd hf (hno _ (List.mem_of_getElem? hx))
  | @abort i act y hy =>
    rw [hy] at hs
    have hab : uckFaultAbort y = y := by
      unfold uckFaultAbort PageEntry.trySetState
      rw [if_neg]
      intro hi
      rw [stateOf_some, hi] at hs
      cases hs
    rw [hab]
    exact ⟨hs, by rw [Cache.page, hy]⟩
  | invalidate hy => exact absurd rfl hl
  | leave hy => exact absurd rfl hl
  | teardown => exact absurd trivial hl

/-- Pages that a node may read are there. -/
theorem Touch.page_isSome {new : Option (PageEntry Nat)} (h : Touch c s k e new)
    (hp : (stateOf (s.node.cache.entry k)).Held → (s.node.cache.page k).isSome = true) (hn : (stateOf new).Held) :
    (new.bind (·.page)).isSome = true := by
  have hinvalid : ¬ PageState.Held .invalid := by decide
  have htransit : ¬ PageState.Held .inTransit := by decide
  cases h with
  | same => exact hp hn
  | @grant _ x hx hs hg =>
    rw [hx, Cache.page, hx] at hp
    rcases hs with hs | hs
    · exact hp (.inl hs)
    · exact hs
  | miss w a hi hst =>
    rcases hst with rfl | rfl
    · exact absurd hn hinvalid
    · exact absurd hn htransit
  | batch act hx hf => rfl
  | single own hx hf hy hg => rfl
  | @abort i act y hy =>
    have hst := trySetState_held hinvalid hn
    rw [hy, Cache.page, hy] at hp
    have hpage : (uckFaultAbort y).page = y.page := by
      unfold uckFaultAbort PageEntry.trySetState
      split <;> rfl
    rw [stateOf_some, uckFaultAbort, hst] at hn
    rw [Option.bind_some, hpage]
    exact hp hn
  | invalidate hy => exact absurd hn hinvalid
  | leave hy => exact absurd hn hinvalid
  | teardown => exact absurd hn hinvalid

/-- Where the fetches under way after the action of a thread come from. -/
theorem fetches_of_acts {i : Nat} {y : Thread} {act : Act} (hy : s.threads[i]? = some y)
    (h : Acts c s i y y.phase act t)
    (hp : stateOf (s.node.cache.entry k) = .exclusive → (s.node.cache.page k).isSome = true) {x : Thread}
    (hx : x ∈ t.threads) (hf : x.Fetches k) :
    (∃ y ∈ s.threads, y.Fetches k) ∨ stateOf (s.node.cache.entry k) ≠ .exclusive := by
  have hmem := List.mem_of_getElem? hy
  -- threads that were there before, and the thread that acts
  have herase : x ∈ s.threads.eraseIdx i →
      (∃ y ∈ s.threads, y.Fetches k) ∨ stateOf (s.node.cache.entry k) ≠ .exclusive :=
    fun hx => .inl ⟨x, List.mem_of_mem_eraseIdx hx, hf⟩
  have hset : ∀ p : Phase, (Thread.Fetches { y with phase := p } k → y.Fetches k ∨
      stateOf (s.node.cache.entry k) ≠ .exclusive) → x ∈ s.threads.set i { y with phase := p } →
      (∃ y ∈ s.threads, y.Fetches k) ∨ stateOf (s.node.cache.entry k) ≠ .exclusive := by
    intro p hy hx
    rcases List.mem_or_eq_of_mem_set hx with hx | rfl
    · exact .inl ⟨x, hx, hf⟩
    · exact (hy hf).imp (fun h => ⟨_, hmem, h⟩) id
  obtain ⟨key, w, phase⟩ := y
  cases h with
  | wake h => exact herase hx
  | sigbus => exact herase hx
  | request own =>
    simp only [Sys.request] at hx
    split at hx
    · exact hset (.fetching own) .inl hx
    · split at hx
      · refine hset (.batch own _ 0) ?_ hx
        rintro (⟨hr, hk⟩ | ⟨hk, -⟩)
        · rcases Node.of_mem_prefetchList hk with hk | hk
          · exact .inl (Prod.ext hr hk)
          · refine .inr ?_
            have hkey : k = (key.1, k.2) := Prod.ext hr rfl
            rw [hkey, hk]
            exact PageState.noConfusion
        · exact .inl hk
      · exact hset (.fetching own) .inl hx
  | receive own j rest n ea =>
    unfold Sys.receive at hx
    split at hx
    · refine hset (.batch own rest (n + 1)) ?_ hx
      rintro (⟨hr, hk⟩ | ⟨-, hn⟩)
      · exact .inl (.inl ⟨hr, List.mem_cons_of_mem _ hk⟩)
      · cases hn
    · refine hset (.batch own rest n) ?_ hx
      rintro (⟨hr, hk⟩ | hn)
      · exact .inl (.inl ⟨hr, List.mem_cons_of_mem _ hk⟩)
      · exact .inl (.inr hn)
  | batchEnd own rest hn => exact hset (.batched own) False.elim hx
  | batchFailed own rest => exact hset (.fetching own) (fun hk => .inl (.inr ⟨hk, rfl⟩)) hx
  | recheck own =>
    unfold Sys.recheck at hx
    split at hx
    · exact herase hx
    · rename_i hr
      refine hset (.fetching own) (fun hk => .inr fun hex => ?_) hx
      cases hk
      have hsome := hp hex
      rw [Node.afterBatch_eq_none hr] at hsome
      cases hsome
  | complete own ok =>
    unfold Sys.complete at hx
    split at hx
    · exact herase hx
    · exact herase hx

/-- Where the fetches under way after a step come from: they were under way, or the page was not `EXCLUSIVE`. -/
theorem fetches_of_step (h : step c s e = some t)
    (hp : stateOf (s.node.cache.entry k) = .exclusive → (s.node.cache.page k).isSome = true) {x : Thread}
    (hx : x ∈ t.threads) (hf : x.Fetches k) :
    (∃ y ∈ s.threads, y.Fetches k) ∨ stateOf (s.node.cache.entry k) ≠ .exclusive := by
  have hsame : t.threads = s.threads → (∃ y ∈ s.threads, y.Fetches k) ∨ stateOf (s.node.cache.entry k) ≠ .exclusive :=
    fun hts => .inl ⟨x, hts ▸ hx, hf⟩
  cases e with
  | fault j w a =>
    cases h
    unfold Sys.fault at hx
    split at hx
    · exact .inl ⟨x, hx, hf⟩
    · rcases List.mem_append.1 hx with hx | hx
      · exact .inl ⟨x, hx, hf⟩
      · cases List.mem_singleton.1 hx
        exact hf.elim
    · rename_i hr
      rcases List.mem_append.1 hx with hx | hx
      · exact .inl ⟨x, hx, hf⟩
      · cases List.mem_singleton.1 hx
        cases hf
        rw [Node.stateOf_of_enter_fetch hr]
        exact .inr PageState.noConfusion
    · exact .inl ⟨x, hx, hf⟩
  | thread i act =>
    obtain ⟨y, hy, h⟩ := Acts.of_step h
    exact fetches_of_acts hy h hp hx hf
  | unmap g =>
    obtain ⟨-, rfl⟩ := of_step_unmap h
    exact hsame rfl
  | teardown =>
    obtain ⟨-, rfl⟩ := of_step_teardown h
    exact hsame rfl
  | _ =>
    cases h
    exact hsame rfl

/-- Pages that may be read are there, and nobody is fetching an `EXCLUSIVE` page. -/
structure Settled (s : Sys) : Prop where
  page : ∀ k, (stateOf (s.node.cache.entry k)).Held → (s.node.cache.page k).isSome = true
  alone : ∀ k, stateOf (s.node.cache.entry k) = .exclusive → ∀ x ∈ s.threads, ¬ x.Fetches k

theorem Settled.step (hi : Settled s) (hg : GrantsAlone c s e) (h : step c s e = some t) : Settled t := by
  constructor
  · intro k
    exact (step_touches h k).page_isSome (hi.page k)
  · intro k hk x hx hf
    by_cases hold : stateOf (s.node.cache.entry k) = .exclusive
    · rcases fetches_of_step h (fun hex => hi.page k (.inr hex)) hx hf with ⟨y, hy, hfy⟩ | hne
      · exact hi.alone k hold y hy hfy
      · exact hne hold
    · have hgr := (step_touches h k).grants_of_raised (.inl ⟨hk, hold⟩)
      obtain ⟨t', y, ht', -, -, hts⟩ := step_of_grants hgr
      cases ht'.symm.trans h
      rw [hts] at hx
      exact hg k hgr x hx hf

theorem Settled.init : Settled {} where
  page _ h := absurd h (show ¬ PageState.Held .invalid by decide)
  alone _ h := by cases h

/-- **No fetch destroys a local write**, in the runs in which pages are given to writers only while no other fault is
fetching them: an `EXCLUSIVE` page keeps its state and its page until an `INVALIDATE`, the leave of its owner or the
teardown. -/
theorem writes_kept (c : Config) (es : List Ev) (hg : EachStep (step c) (GrantsAlone c) {} es) :
    EachStep (step c) (KeepsWrites c) {} es := by
  refine EachStep.of_inv Settled (fun s e t hi hg ht => hi.step hg ht) (fun s e hi _ => ?_) Settled.init hg
  intro t ht k hs hl
  exact (step_touches ht k).kept (hi.alone k hs) hs hl

/-- A read fault fetches both pages; the second page is written when it is there. -/
theorem two_faults_writes_kept :
    (run (step (client 2)) {}
      [.fault (0, 0) false ⟨true, true⟩, .thread 0 .request, .thread 0 (.receive true), .thread 0 (.receive true),
        .fault (0, 1) true ⟨true, true⟩, .thread 0 .batchEnd, .thread 0 .recheck]).isSome = true ∧
    EachStep (step (client 2)) (KeepsWrites (client 2)) {}
      [.fault (0, 0) false ⟨true, true⟩, .thread 0 .request, .thread 0 (.receive true), .thread 0 (.receive true),
        .fault (0, 1) true ⟨true, true⟩, .thread 0 .batchEnd, .thread 0 .recheck] :=
  ⟨by decide, writes_kept (client 2) _ (by decide)⟩

/-- A read fault of page 0 has both pages on its list; meanwhile a write fault fetches page 1 alone and gets it. The
batch then puts its own copy of page 1 in the place of the written one. -/
theorem batch_destroys_write :
    ¬ EachStep (step (client 2)) (KeepsWrites (client 2)) {}
      [.fault (0, 0) false ⟨true, true⟩, .thread 0 .request, .fault (0, 1) true ⟨true, true⟩, .thread 1 .request,
        .thread 1 (.complete true), .thread 0 (.receive true), .thread 0 (.receive true)] := by
  intro h
  have hlast := ((((((h.2 _ rfl).2 _ rfl).2 _ rfl).2 _ rfl).2 _ rfl).2 _ rfl).1 _ rfl (0, 1) (by decide) id
  exact absurd hlast.1 (by decide)

end UckSmp.Memory.Faults
