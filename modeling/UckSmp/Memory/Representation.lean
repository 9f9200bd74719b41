import UckSmp.Memory.Accounting
import UckSmp.Memory.Exclusive

/-!
# What a cache entry stands for

An entry has a state, a page and a flag for a writable mapping. Faults go by the state, the handlers of page requests by
the page alone. `uck_handle_node_leave` changes the state and nothing else, `uck_handle_invalidate` leaves the flag.

* `coherent_of_step`: every other section keeps the three fields in agreement.
* `representation_iff`: the runs in which they agree are those in which no node leaves pages behind and no page is
  invalidated that was mapped for writing.
-/

namespace UckSmp.Memory

/-! ## Entries -/

section Entries

variable {π : Type} {e : PageEntry π}

/-- The three fields agree: the entry holds a page just if it is `SHARED` or `EXCLUSIVE`, and only an `EXCLUSIVE` page
is mapped for writing. -/
def PageEntry.Coherent (e : PageEntry π) : Prop :=
  (e.page.isSome = true ↔ e.state.Held) ∧ (e.writeMapped = true → e.state = .exclusive)

namespace PageEntry

theorem Coherent.of_page {g : π} (hp : e.page = some g) (hs : e.state.Held)
    (hw : e.writeMapped = true → e.state = .exclusive) : e.Coherent := by
  refine ⟨?_, hw⟩
  rw [hp]
  exact ⟨fun _ => hs, fun _ => rfl⟩

/-- An entry that nobody may read is coherent if it holds nothing. -/
theorem coherent_iff {p : PageState} (he : e.state = p) (hp : ¬ p.Held) :
    e.Coherent ↔ e.page = none ∧ e.writeMapped = false := by
  have hne : p ≠ .exclusive := fun h => hp (.inr h)
  simp [Coherent, he, hp, hne]

/-- A copy that may be read can be given to a writer. -/
theorem Coherent.grantWrite (h : e.Coherent) (hp : e.state = .shared ∨ e.page.isSome = true) :
    e.grantWrite.Coherent := by
  have hpage : e.page.isSome = true := hp.elim (fun hs => h.1.2 (.inl hs)) id
  obtain ⟨g, hg⟩ := Option.isSome_iff_exists.1 hpage
  exact .of_page (g := g) hg (.inr rfl) fun _ => rfl

/-- A fault that gives up. -/
theorem Coherent.uckFaultAbort (h : e.Coherent) : (uckFaultAbort e).Coherent := by
  unfold Memory.uckFaultAbort trySetState
  split
  · rename_i hs
    have hnothing := (coherent_iff hs (by decide)).1 h
    exact (coherent_iff (p := .invalid) rfl (by decide)).2 hnothing
  · exact h

end PageEntry

/-- A miss finds nothing in the entry, and leaves nothing. -/
theorem coherent_miss (owner : Nat) {e? : Option (PageEntry π)} (h : ∀ e ∈ e?, e.Coherent) (hi : stateOf e? = .invalid)
    {st : PageState} (hst : ¬ st.Held) : PageEntry.Coherent { e?.getD (uckPageAllocEntry owner) with state := st } := by
  refine (PageEntry.coherent_iff rfl hst).2 ?_
  cases e? with
  | none => exact ⟨rfl, rfl⟩
  | some e => exact (PageEntry.coherent_iff (e := e) hi (by decide)).1 (h e rfl)

end Entries

namespace Faults

open Lib.Transition

variable {c : Config} {s t : Sys} {e : Ev} {k : Key}

/-! ## Statement -/

/-- What `uck_handle_page_request` and `uck_handle_batch_page_req` send for a page, with the contents of the pages. -/
def Sys.served (s : Sys) (contents : Nat → Page) (k : Key) : Page :=
  servedPage ((s.node.cache.entry k).map fun e => { e with page := e.page.map contents })

/-- Every entry is coherent, and the bytes of an `INVALID` one are not sent: the answer is the zero page. -/
def Represented (s : Sys) : Prop :=
  (∀ k, ∀ e ∈ s.node.cache.entry k, e.Coherent) ∧
    ∀ contents k, stateOf (s.node.cache.entry k) = .invalid → s.served contents k = 0

/-- No page is invalidated that was mapped for writing, and no node leaves while an entry of a page that it owns holds
the page, or was mapped for writing. -/
def Clears (c : Config) (s : Sys) : Ev → Prop
  | .invalidate k => ∀ e ∈ s.node.cache.entry k, e.writeMapped = false
  | .leave n => ∀ k ∈ s.node.cache.tree, ∀ e ∈ s.node.cache.entry k, c.owner k.1 = n ∧ e.ownerNode = n →
      e.page = none ∧ e.writeMapped = false
  | _ => True

instance : Decidable (Clears c s e) :=
  match e with
  | .invalidate k => inferInstanceAs (Decidable (∀ e ∈ s.node.cache.entry k, _))
  | .leave _ => inferInstanceAs (Decidable (∀ k ∈ s.node.cache.tree, ∀ e ∈ s.node.cache.entry k, _ → _))
  | .fault .. | .thread .. | .mkwrite _ | .unmap _ | .quorum _ | .teardown => .isTrue trivial

/-! ## Proof -/

/-- An `INVALID` entry that is coherent has no bytes to send. -/
theorem represented_of_coherent (h : ∀ k, ∀ e ∈ s.node.cache.entry k, e.Coherent) : Represented s := by
  refine ⟨h, fun contents k hi => ?_⟩
  unfold Sys.served
  cases he : s.node.cache.entry k with
  | none => rfl
  | some e =>
    rw [he] at hi
    have hnone := ((PageEntry.coherent_iff (e := e) hi (by decide)).1 (h k e he)).1
    simp only [Option.map_some, servedPage, hnone]
    rfl

/-- An `INVALIDATE` takes the page and the state, and leaves the flag. -/
theorem coherent_uckHandleInvalidate_iff {π : Type} {e : PageEntry π} :
    (uckHandleInvalidate e).Coherent ↔ e.writeMapped = false := by
  rw [PageEntry.coherent_iff (p := .invalid) rfl (by decide)]
  exact ⟨fun h => h.2, fun h => ⟨rfl, h⟩⟩

/-- A departure takes the state only. -/
theorem coherent_leaveEntry_iff {n : Nat} {x : PageEntry Nat} (h : x.Coherent) :
    (Node.leaveEntry c n k x).Coherent ↔
      (c.owner k.1 = n ∧ x.ownerNode = n → x.page = none ∧ x.writeMapped = false) := by
  unfold Node.leaveEntry
  split
  · rename_i hn
    rw [PageEntry.coherent_iff (p := .invalid) rfl (by decide)]
    exact ⟨fun h _ => h, fun h => h hn⟩
  · rename_i hn
    exact ⟨fun _ hn' => absurd hn' hn, fun _ => h⟩

theorem leave_coherent_iff (h : ∀ k, ∀ e ∈ s.node.cache.entry k, e.Coherent) (n : Nat) :
    (∀ k, ∀ e ∈ (s.node.leave c n).cache.entry k, e.Coherent) ↔ Clears c s (.leave n) := by
  constructor
  · intro ht k _ x hx
    refine (coherent_leaveEntry_iff (h k x hx)).1 (ht k _ ?_)
    exact Option.map_eq_some_iff.2 ⟨x, hx, rfl⟩
  · intro hg k y hy
    obtain ⟨x, hx, rfl⟩ := Option.map_eq_some_iff.1 hy
    refine (coherent_leaveEntry_iff (h k x hx)).2 (hg k ?_ x hx)
    rw [s.node.cache.mem_tree, hx]
    rfl

/-- A step other than a departure, unless it invalidates a page mapped for writing. -/
theorem coherent_of_step (h : ∀ k, ∀ e ∈ s.node.cache.entry k, e.Coherent) (hg : Clears c s e)
    (hl : ∀ n, e ≠ .leave n) (ht : step c s e = some t) : ∀ k, ∀ e ∈ t.node.cache.entry k, e.Coherent := by
  intro k
  have htouch := step_touches ht k
  generalize t.node.cache.entry k = new at htouch
  cases htouch with
  | same => exact h k
  | grant hx hp _ =>
    rintro _ ⟨⟩
    exact (h k _ hx).grantWrite hp
  | miss w a hi hst =>
    rintro _ ⟨⟩
    refine coherent_miss _ (h k) hi ?_
    rcases hst with rfl | rfl <;> decide
  | batch =>
    rintro _ ⟨⟩
    exact .of_page rfl (.inl rfl) Bool.noConfusion
  | @single i act x own y hx hf hy hw =>
    rintro _ ⟨⟩
    refine .of_page (g := own) rfl ?_ fun hwm => ?_
    · rw [uckFaultInstall_state]
      cases x.isWrite <;> decide
    · have hwrite : x.isWrite = true := hwm
      rw [uckFaultInstall_state, if_pos hwrite]
  | abort i act hy =>
    rintro _ ⟨⟩
    exact (h k _ hy).uckFaultAbort
  | invalidate hy =>
    rintro _ ⟨⟩
    exact coherent_uckHandleInvalidate_iff.2 (hg _ hy)
  | leave => exact absurd rfl (hl _)
  | teardown =>
    rintro _ ⟨⟩

/-- The guard is what keeps the entries coherent. -/
theorem represented_step_iff (h : Represented s) (ht : step c s e = some t) : Clears c s e ↔ Represented t := by
  cases e with
  | leave n =>
    cases ht
    rw [← leave_coherent_iff h.1 n]
    exact ⟨fun hc => represented_of_coherent hc, fun hr => hr.1⟩
  | invalidate k =>
    refine ⟨fun hg => represented_of_coherent (coherent_of_step h.1 hg nofun ht), fun hr x hx => ?_⟩
    cases ht
    refine coherent_uckHandleInvalidate_iff.1 (hr.1 k _ ?_)
    rw [Node.invalidate_eq, hx]
    exact Cache.put_entry_self
  | _ => exact ⟨fun hg => represented_of_coherent (coherent_of_step h.1 hg nofun ht), fun _ => trivial⟩

/-- **Cache entries**: along a run the fields of the entries agree, and no bytes of `INVALID` entries are sent, exactly
if every page is cleared that becomes `INVALID`. -/
theorem representation_iff (c : Config) (m : Memctl) (es : List Ev) :
    Always (step c) Represented (afterInit m) es ↔ EachStep (step c) (Clears c) (afterInit m) es := by
  refine always_iff_eachStep (fun s e t h ht => represented_step_iff h ht) (fun s e hs => ?_) ?_
  · cases e with
    | leave n => cases hs
    | invalidate k => cases hs
    | _ => trivial
  · exact represented_of_coherent fun k e he => by cases he

/-- A page is fetched and read; its owner leaves. The entry is `INVALID`, holds the page, and a page request is answered
with its bytes. -/
theorem stale_page_served :
    EachStep (step (client 1)) OneByOne (afterInit {}) [.fault (0, 0) false ⟨true, true⟩, .thread 0 .request,
      .thread 0 (.complete true), .leave 2] ∧
    ∃ s, run (step (client 1)) (afterInit {}) [.fault (0, 0) false ⟨true, true⟩, .thread 0 .request,
        .thread 0 (.complete true), .leave 2] = some s ∧ s.threads = [] ∧
      s.node.cache.entry (0, 0) = some ⟨some 0, .invalid, 2, false⟩ ∧
      s.served (fun _ => Page.filled 1) (0, 0) = Page.filled 1 ∧ ¬ Represented s := by
  refine ⟨by decide, _, rfl, rfl, by decide, rfl, fun h => ?_⟩
  have hcoherent := h.1 (0, 0) ⟨some 0, .invalid, 2, false⟩ (by decide)
  have hheld := hcoherent.1.1 rfl
  exact absurd hheld (by decide)

end Faults

end UckSmp.Memory
