import UckSmp.Defs
import UckSmp.Lib.Transition
import UckSmp.Memory.Entry

/-!
# One page shared by a cluster

Every node has a cache entry for the page, the faults it is working on and its table of peers; requests, responses and
invalidations are in flight in any order. The events are the critical sections of `uck_fault`, `uck_page_mkwrite`,
`uck_net_fetch_pages_batch` and the handlers.

* `step_states`: an event grants the page to one node or leaves nothing held that was not held before.
* `singleWriter_iff`: the cluster keeps a single writer along a run exactly when no event grants a copy that conflicts
  with a copy held elsewhere at that moment (`NoConflict`). Nothing in the code waits for that moment.
-/

namespace UckSmp.Memory

open Lib.Transition

/-- An entry of `uck_state.nodes`. -/
structure Peer where
  id : Nat
  alive : Bool
  deriving DecidableEq, Repr

/-- The region's owner and every node's `uck_state.nodes`. -/
structure Cluster where
  owner : Nat
  nodes : Nat → List Peer

/-- The owner lookup of `uck_net_fetch_page` and `uck_net_fetch_pages_batch`. -/
def Cluster.findsOwner (c : Cluster) (n : Nat) : Bool := (c.nodes n).any (·.id == c.owner)

/-- A message about the page. -/
inductive Msg (β : Type)
  | pageReq (src dst : Nat)
  | pageResp (dst : Nat) (data : β)
  | batchReq (src dst : Nat)
  | batchResp (dst : Nat) (data : β)
  | invalidate (src dst : Nat)
  | invalidateAck (dst : Nat)
  deriving DecidableEq, Repr

/-- A thread inside `uck_fault`, past its first critical section. -/
inductive Thread
  /-- In `uck_net_fetch_pages_batch`: `some w` for a fault on this page (`w`: for writing), `none` when the fault is on
  a neighbour and this page is prefetched. -/
  | batchWait (fault : Option Bool)
  /-- The batch fetch returned a positive count. -/
  | batchDone (isWrite : Bool)
  /-- In `uck_net_fetch_page`. -/
  | fetchWait (isWrite : Bool)
  deriving DecidableEq, Repr

/-- The cluster's state as far as the page goes. -/
structure Sys (β : Type) where
  entry : Nat → Option (PageEntry β)
  threads : Nat → List Thread
  net : List (Msg β)

/-- The critical sections and deliveries. `i` is a thread of node `n`, `k` a message in flight, and `lost` lists the
peers to which `uck_net_send_to_node` fails. -/
inductive Event
  | fault (n : Nat) (isWrite : Bool) (a : FaultAllocs) (useBatch : Bool) (lost : List Nat)
  | neighbourFault (n : Nat)
  | serve (k : Nat)
  | batchPage (n i k : Nat) (entryAlloc : Bool)
  | batchReturn (n i : Nat) (positive : Bool)
  | afterBatch (n i : Nat) (lost : List Nat)
  | fetched (n i k : Nat)
  | fetchFail (n i : Nat)
  | mkwrite (n : Nat) (lost : List Nat)
  | invalidate (k : Nat)
  deriving DecidableEq, Repr

section Steps

variable {β : Type}

/-- `uck_invalidate_remote_copies`: one `INVALIDATE` to every peer that is alive in the table; no answer is awaited. -/
def uckInvalidateRemoteCopies (c : Cluster) (n : Nat) (lost : List Nat) : List (Msg β) :=
  ((c.nodes n).filter fun p => p.alive && !lost.contains p.id).map fun p => .invalidate n p.id

/-- The request `uck_net_fetch_page` sends; none when the owner is not in the table. -/
def fetchRequest (c : Cluster) (n : Nat) : List (Msg β) := if c.findsOwner n then [.pageReq n c.owner] else []

/-- The request `uck_net_fetch_pages_batch` sends. -/
def batchRequest (c : Cluster) (n : Nat) : List (Msg β) := if c.findsOwner n then [.batchReq n c.owner] else []

/-- Node `n`'s entry and messages after a section that grants, keeps or gives up the page. -/
def Sys.put (s : Sys β) (n : Nat) (e : Option (PageEntry β)) (out : List (Msg β)) : Sys β :=
  { s with entry := Function.update s.entry n e, net := s.net ++ out }

/-- Node `n`'s thread `i` goes on as `th`, or is done. -/
def Sys.thread (s : Sys β) (n i : Nat) (th : List Thread) : Sys β :=
  { s with threads := Function.update s.threads n ((s.threads n).eraseIdx i ++ th) }

/-- Node `n` starts a thread. -/
def Sys.spawn (s : Sys β) (n : Nat) (th : Thread) : Sys β :=
  { s with threads := Function.update s.threads n (s.threads n ++ [th]) }

/-- Message `k` leaves the network. -/
def Sys.take (s : Sys β) (k : Nat) : Sys β := { s with net := s.net.eraseIdx k }

/-- `uck_fault` up to its first release of `region->lock`, and the request that follows. -/
def stepFault (c : Cluster) (s : Sys β) (n : Nat) (isWrite : Bool) (a : FaultAllocs) (useBatch : Bool)
    (lost : List Nat) : Sys β :=
  match uckFaultEnter c.owner isWrite a (s.entry n) with
  | .hit e inv => s.put n (some e) (if inv then uckInvalidateRemoteCopies c n lost else [])
  | .wait e => s.put n (some e) []
  | .oom e => s.put n e []
  | .fetch e =>
    if useBatch then (s.put n (some e) (batchRequest c n)).spawn n (.batchWait (some isWrite))
    else (s.put n (some e) (fetchRequest c n)).spawn n (.fetchWait isWrite)

/-- One event of the cluster. -/
def step [Zero β] (c : Cluster) (s : Sys β) : Event → Option (Sys β)
  | .fault n isWrite a useBatch lost => some (stepFault c s n isWrite a useBatch lost)
  | .neighbourFault n =>
    -- `uck_build_prefetch_list` takes only pages that are absent or `INVALID`
    if stateOf (s.entry n) = .invalid then
      some ((s.put n (s.entry n) (batchRequest c n)).spawn n (.batchWait none))
    else none
  | .serve k =>
    match s.net[k]? with
    | some (.pageReq src dst) =>
      some { s with net := s.net.eraseIdx k ++ [.pageResp src (servedPage (s.entry dst))] }
    | some (.batchReq src dst) =>
      some { s with net := s.net.eraseIdx k ++ [.batchResp src (servedPage (s.entry dst))] }
    | _ => none
  | .batchPage n i k entryAlloc =>
    match (s.threads n)[i]?, s.net[k]? with
    | some (.batchWait _), some (.batchResp dst data) =>
      if dst ≠ n then none
      else if (s.entry n).isNone ∧ entryAlloc = false then some (s.take k)
      else some ((s.take k).put n (some (batchInstall c.owner data (s.entry n))) [])
    | _, _ => none
  | .batchReturn n i positive =>
    match (s.threads n)[i]? with
    | some (.batchWait (some w)) =>
      if positive then some (s.thread n i [.batchDone w])
      else some ((s.thread n i [.fetchWait w]).put n (s.entry n) (fetchRequest c n))
    | some (.batchWait none) => some (s.thread n i [])
    | _ => none
  | .afterBatch n i lost =>
    match (s.threads n)[i]? with
    | some (.batchDone w) =>
      match uckFaultAfterBatch w (s.entry n) with
      | some (e, inv) =>
        some ((s.thread n i []).put n (some e) (if inv then uckInvalidateRemoteCopies c n lost else []))
      | none => some ((s.thread n i [.fetchWait w]).put n (s.entry n) (fetchRequest c n))
    | _ => none
  | .fetched n i k =>
    match (s.threads n)[i]?, s.net[k]?, s.entry n with
    | some (.fetchWait w), some (.pageResp dst data), some e =>
      if dst ≠ n then none else some (((s.take k).thread n i []).put n (some (uckFaultInstall w data e)) [])
    | _, _, _ => none
  | .fetchFail n i =>
    match (s.threads n)[i]?, s.entry n with
    | some (.fetchWait w), some e =>
      -- the owner takes a failed fetch as a page of zeros
      if n = c.owner then some ((s.thread n i []).put n (some (uckFaultInstall w 0 e)) [])
      else some ((s.thread n i []).put n (some (uckFaultAbort e)) [])
    | _, _ => none
  | .mkwrite n lost =>
    some (s.put n (uckPageMkwrite (s.entry n)).1
      (if (uckPageMkwrite (s.entry n)).2 then uckInvalidateRemoteCopies c n lost else []))
  | .invalidate k =>
    match s.net[k]? with
    | some (.invalidate src dst) =>
      some ((s.take k).put dst ((s.entry dst).map uckHandleInvalidate) [.invalidateAck src])
    | _ => none

/-- No node has touched the page. -/
def Sys.init : Sys β := ⟨fun _ => none, fun _ => [], []⟩

end Steps

/-! ## Grants -/

section Grants

variable {β : Type}

/-- The node to which an event gives a copy, and whether for writing (`EXCLUSIVE`) or reading (`SHARED`): a hit on a
`SHARED` page for writing, `uck_page_mkwrite` of one, a batch page, the completion of a batch-fetched write fault, and
the completion of a single-fetched fault. -/
def grants (c : Cluster) (s : Sys β) : Event → Option (Nat × Bool)
  | .fault n isWrite _ _ _ => if isWrite = true ∧ stateOf (s.entry n) = .shared then some (n, true) else none
  | .mkwrite n _ => if stateOf (s.entry n) = .shared then some (n, true) else none
  | .batchPage n i k entryAlloc =>
    match (s.threads n)[i]?, s.net[k]? with
    | some (.batchWait _), some (.batchResp dst _) =>
      if dst ≠ n then none else if (s.entry n).isNone ∧ entryAlloc = false then none else some (n, false)
    | _, _ => none
  | .afterBatch n i _ =>
    match (s.threads n)[i]?, s.entry n with
    | some (.batchDone true), some e => if e.page.isSome then some (n, true) else none
    | _, _ => none
  | .fetched n i k =>
    match (s.threads n)[i]?, s.net[k]?, s.entry n with
    | some (.fetchWait w), some (.pageResp dst _), some _ => if dst ≠ n then none else some (n, w)
    | _, _, _ => none
  | .fetchFail n i =>
    match (s.threads n)[i]?, s.entry n with
    | some (.fetchWait w), some _ => if n = c.owner then some (n, w) else none
    | _, _ => none
  | _ => none

/-- A granted copy conflicts with no copy held elsewhere: nobody else holds the page when it is granted for writing,
and nobody else holds it `EXCLUSIVE` when it is granted for reading. -/
def NoConflict (c : Cluster) (s : Sys β) (e : Event) : Prop :=
  match grants c s e with
  | some (n, true) => ∀ m, m ≠ n → ¬ (stateOf (s.entry m)).Held
  | some (n, false) => ∀ m, m ≠ n → stateOf (s.entry m) ≠ .exclusive
  | none => True

/-- At most one node may write, and then no other node has a copy. -/
def SingleWriter (s : Sys β) : Prop :=
  ∀ n m, n ≠ m → stateOf (s.entry n) = .exclusive → ¬ (stateOf (s.entry m)).Held

theorem stepFault_entry (c : Cluster) (s : Sys β) (n : Nat) (w : Bool) (a : FaultAllocs) (b : Bool) (lost : List Nat) :
    (stepFault c s n w a b lost).entry =
      Function.update s.entry n (uckFaultEnter c.owner w a (s.entry n)).entry := by
  unfold stepFault
  cases uckFaultEnter c.owner w a (s.entry n) with
  | fetch e => cases b <;> rfl
  | _ => rfl

/-- Everything that changes is at `n`. -/
theorem update_other {α : Type} {f : Nat → α} {n m : Nat} {a : α} (h : m ≠ n) : Function.update f n a m = f m :=
  Function.update_of_ne h a f

/-- `t` is `s` with the copy granted that `g` names, or holds only what `s` held in the same state. -/
def GrantsAs (s t : Sys β) : Option (Nat × Bool) → Prop
  | some (n, w) => stateOf (t.entry n) = (if w then .exclusive else .shared) ∧ ∀ m, m ≠ n → t.entry m = s.entry m
  | none => ∀ m, (stateOf (t.entry m)).Held → stateOf (t.entry m) = stateOf (s.entry m)

section Effects

variable {c : Cluster} {s t : Sys β} {n : Nat} {e : Option (PageEntry β)}

/-- An update that grants the page to `n`. -/
theorem grantsAs_some {w : Bool} (ht : t.entry = Function.update s.entry n e)
    (h : stateOf e = if w then .exclusive else .shared) : GrantsAs s t (some (n, w)) := by
  refine ⟨?_, fun m hm => ?_⟩
  · rw [ht, Function.update_self]
    exact h
  · rw [ht, update_other hm]

/-- An update that holds at `n` only what was held there. -/
theorem grantsAs_none (ht : t.entry = Function.update s.entry n e)
    (h : (stateOf e).Held → stateOf e = stateOf (s.entry n)) : GrantsAs s t none := by
  intro m hm
  rw [ht] at hm ⊢
  by_cases hmn : m = n
  · subst hmn
    rw [Function.update_self] at hm ⊢
    exact h hm
  · rw [update_other hmn]

theorem grantsAs_of_eq (ht : t.entry = s.entry) : GrantsAs s t none := fun m _ => by rw [ht]

/-! One lemma for each event that may change the entry of a node. -/

theorem stepFault_grants (w : Bool) (a : FaultAllocs) (b : Bool) (lost : List Nat) :
    GrantsAs s (stepFault c s n w a b lost) (grants c s (.fault n w a b lost)) := by
  have he := stepFault_entry c s n w a b lost
  simp only [grants]
  by_cases hg : w = true ∧ stateOf (s.entry n) = .shared
  · rw [if_pos hg]
    obtain ⟨rfl, hsh⟩ := hg
    exact grantsAs_some he (uckFaultEnter_grant c.owner a hsh)
  · rw [if_neg hg]
    exact grantsAs_none he (uckFaultEnter_held hg)

variable [Zero β]

theorem batchPage_grants {i k : Nat} {alloc : Bool} (h : step c s (.batchPage n i k alloc) = some t) :
    GrantsAs s t (grants c s (.batchPage n i k alloc)) := by
  simp only [step] at h
  simp only [grants]
  split at h
  · rename_i f dst data hth hk
    split at h
    · cases h
    · rename_i hd
      simp only [if_neg hd]
      split at h
      · rename_i ha
        cases h
        rw [if_pos ha]
        exact grantsAs_of_eq rfl
      · rename_i ha
        cases h
        rw [if_neg ha]
        exact grantsAs_some rfl rfl
  · cases h

theorem batchReturn_grants {i : Nat} {positive : Bool} (h : step c s (.batchReturn n i positive) = some t) :
    GrantsAs s t none := by
  simp only [step] at h
  split at h
  · split at h
    · cases h; exact grantsAs_of_eq rfl
    · cases h; exact grantsAs_none rfl fun _ => rfl
  · cases h; exact grantsAs_of_eq rfl
  · cases h

theorem afterBatch_grants {i : Nat} {lost : List Nat} (h : step c s (.afterBatch n i lost) = some t) :
    GrantsAs s t (grants c s (.afterBatch n i lost)) := by
  simp only [step] at h
  simp only [grants]
  split at h
  · rename_i w hth
    rw [hth]
    cases he : s.entry n with
    | none =>
      simp only [he, uckFaultAfterBatch, Option.some.injEq] at h
      subst h
      have hnone : GrantsAs s ((s.thread n i [.fetchWait w]).put n none (fetchRequest c n)) none :=
        grantsAs_none rfl fun _ => by rw [he]
      cases w <;> exact hnone
    | some e =>
      by_cases hp : e.page.isSome = true
      · cases w with
        | true =>
          simp only [he, uckFaultAfterBatch, hp, if_true, Option.some.injEq] at h
          subst h
          simp only [hp, if_true]
          exact grantsAs_some rfl rfl
        | false =>
          simp only [he, uckFaultAfterBatch, hp, if_true, Bool.false_eq_true, if_false, Option.some.injEq] at h
          subst h
          exact grantsAs_none rfl fun _ => by rw [he]
      · simp only [he, uckFaultAfterBatch, hp, Bool.false_eq_true, if_false, Option.some.injEq] at h
        subst h
        have hnone : GrantsAs s ((s.thread n i [.fetchWait w]).put n (some e) (fetchRequest c n)) none :=
          grantsAs_none rfl fun _ => by rw [he]
        cases w
        · exact hnone
        · simp only [hp, Bool.false_eq_true, if_false]
          exact hnone
  · cases h

theorem fetched_grants {i k : Nat} (h : step c s (.fetched n i k) = some t) :
    GrantsAs s t (grants c s (.fetched n i k)) := by
  simp only [step] at h
  simp only [grants]
  split at h
  · rename_i w dst data e hth hk he
    split at h
    · cases h
    · rename_i hd
      cases h
      simp only [if_neg hd]
      exact grantsAs_some rfl (uckFaultInstall_state _ _ _)
  · cases h

theorem fetchFail_grants {i : Nat} (h : step c s (.fetchFail n i) = some t) :
    GrantsAs s t (grants c s (.fetchFail n i)) := by
  simp only [step] at h
  simp only [grants]
  split at h
  · rename_i w e hth he
    split at h
    · rename_i ho
      cases h
      rw [if_pos ho]
      exact grantsAs_some rfl (uckFaultInstall_state _ _ _)
    · rename_i ho
      cases h
      rw [if_neg ho]
      refine grantsAs_none rfl fun hh => ?_
      rw [he]
      exact trySetState_held (by decide) hh
  · cases h

theorem mkwrite_grants {lost : List Nat} (h : step c s (.mkwrite n lost) = some t) :
    GrantsAs s t (grants c s (.mkwrite n lost)) := by
  cases h
  simp only [grants]
  cases he : s.entry n with
  | none => exact grantsAs_none rfl fun _ => by rw [he]; rfl
  | some e =>
    by_cases hs : e.state = .shared
    · rw [stateOf_some, if_pos hs]
      exact grantsAs_some rfl (by simp [uckPageMkwrite, hs])
    · rw [stateOf_some, if_neg hs]
      exact grantsAs_none rfl fun _ => by simp [he, uckPageMkwrite, hs]

theorem invalidate_grants {k : Nat} (h : step c s (.invalidate k) = some t) : GrantsAs s t none := by
  simp only [step] at h
  split at h
  · rename_i src dst hk
    cases h
    refine grantsAs_none rfl fun hh => ?_
    cases he : s.entry dst with
    | none => rfl
    | some e => rw [he] at hh; rcases hh with hh | hh <;> cases hh
  · cases h

/-- **What one event does to the states of the page**: it grants a copy to one node, or every copy held afterwards was
held before in the same state. -/
theorem step_states {ev : Event} (h : step c s ev = some t) : GrantsAs s t (grants c s ev) := by
  cases ev with
  | fault n w a b lost => cases h; exact stepFault_grants w a b lost
  | neighbourFault n =>
    simp only [step] at h
    split at h
    · cases h; exact grantsAs_none rfl fun _ => rfl
    · cases h
  | serve k =>
    simp only [step] at h
    split at h
    · cases h; exact grantsAs_of_eq rfl
    · cases h; exact grantsAs_of_eq rfl
    · cases h
  | batchPage n i k alloc => exact batchPage_grants h
  | batchReturn n i positive => exact batchReturn_grants h
  | afterBatch n i lost => exact afterBatch_grants h
  | fetched n i k => exact fetched_grants h
  | fetchFail n i => exact fetchFail_grants h
  | mkwrite n lost => exact mkwrite_grants h
  | invalidate k => exact invalidate_grants h

end Effects

/-- A step from a single-writer state ends in one exactly when what it grants conflicts with nothing. -/
theorem step_singleWriter_iff [Zero β] {c : Cluster} {s t : Sys β} {e : Event} (hs : SingleWriter s)
    (h : step c s e = some t) : NoConflict c s e ↔ SingleWriter t := by
  unfold NoConflict
  have heff := step_states h
  cases hg : grants c s e with
  | some g =>
    obtain ⟨n, w⟩ := g
    rw [hg] at heff
    obtain ⟨hn, hother⟩ := heff
    cases w with
    | true =>
      simp only [if_true] at hn
      constructor
      · intro hc a b hab ha
        by_cases hbn : b = n
        · -- then `a` is another node, which held nothing
          have han : a ≠ n := fun e => hab (e.trans hbn.symm)
          rw [hother a han] at ha
          exact absurd (Or.inr ha) (hc a han)
        · rw [hother b hbn]; exact hc b hbn
      · intro ht m hm
        rw [← hother m hm]
        exact ht n m (Ne.symm hm) hn
    | false =>
      simp only [Bool.false_eq_true, if_false] at hn
      constructor
      · intro hc a b hab ha
        by_cases han : a = n
        · rw [han, hn] at ha; cases ha
        · rw [hother a han] at ha
          exact absurd ha (hc a han)
      · intro ht m hm hx
        rw [← hother m hm] at hx
        exact ht m n hm hx (by rw [hn]; exact Or.inl rfl)
  | none =>
    rw [hg] at heff
    refine ⟨fun _ a b hab ha hb => ?_, fun _ => trivial⟩
    have ha' := heff a (by rw [ha]; exact Or.inr rfl)
    have hb' := heff b hb
    exact hs a b hab (ha'.symm.trans ha) (hb' ▸ hb)

/-- Events that are not enabled grant nothing. -/
theorem noConflict_of_disabled [Zero β] {c : Cluster} {s : Sys β} {e : Event} (h : step c s e = none) :
    NoConflict c s e := by
  have hg : grants c s e = none := by
    cases e with
    | fault => cases h
    | mkwrite => cases h
    | batchPage n i k alloc =>
      simp only [step] at h
      simp only [grants]
      split
      · rename_i hth hk
        rw [hth, hk] at h
        split
        · rfl
        · rename_i hd
          simp only [if_neg hd] at h
          split at h <;> cases h
      · rfl
    | afterBatch n i lost =>
      simp only [step] at h
      simp only [grants]
      split
      · rename_i hth he
        rw [hth, he] at h
        simp only at h
        split at h <;> cases h
      · rfl
    | fetched n i k =>
      simp only [step] at h
      simp only [grants]
      split
      · rename_i hth hk he
        rw [hth, hk, he] at h
        split
        · rfl
        · rename_i hd
          simp only [if_neg hd] at h
          cases h
      · rfl
    | fetchFail n i =>
      simp only [step] at h
      simp only [grants]
      split
      · rename_i hth he
        rw [hth, he] at h
        simp only at h
        split at h <;> cases h
      · rfl
    | _ => rfl
  unfold NoConflict
  rw [hg]
  trivial

/-- **A single writer, exactly along the runs without conflicting grants.** -/
theorem singleWriter_iff [Zero β] (c : Cluster) (es : List Event) :
    Always (step (β := β) c) SingleWriter Sys.init es ↔ EachStep (step (β := β) c) (NoConflict c) Sys.init es :=
  always_iff_eachStep (fun _ _ _ hs h => step_singleWriter_iff hs h) (fun _ _ h => noConflict_of_disabled h)
    (fun _ _ _ h => by cases h)

end Grants

/-- A cluster of three nodes that know each other; node 0 owns the region. -/
def threeNodes : Cluster := ⟨0, fun n => ([0, 1, 2].filter (· ≠ n)).map fun m => ⟨m, true⟩⟩

/-- Nodes 1 and 2 each take a write fault on the only page of a region and fetch it singly. -/
def twoWriteFaults : List Event :=
  [.fault 1 true ⟨true, true, true⟩ false [], .serve 0, .fetched 1 0 0,
   .fault 2 true ⟨true, true, true⟩ false [], .serve 0, .fetched 2 0 0]

/-- Both nodes end up `EXCLUSIVE`, one after the other: a single-fetched write fault invalidates nobody. -/
theorem two_exclusive_writers :
    ¬ Always (step (β := Page) threeNodes) SingleWriter Sys.init twoWriteFaults := by
  intro h
  have hr : (run (step (β := Page) threeNodes) Sys.init twoWriteFaults).isSome := rfl
  obtain ⟨t, ht⟩ := Option.isSome_iff_exists.1 hr
  have hs := h.last ht
  cases ht
  exact hs 1 2 (by decide) rfl (Or.inr rfl)

end UckSmp.Memory
