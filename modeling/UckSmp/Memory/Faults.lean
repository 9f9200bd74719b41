import UckSmp.Lib.Transition
import UckSmp.Membership.Quorum
import UckSmp.Memory.Node

/-!
# Concurrent faults on one node

Any number of threads fault on pages of the regions. A step is what one of them does between two points at which it
does not hold `region->lock`, or a section of another thread of the node: a write to a mapped page, an unmapping, a
received `INVALIDATE` or `NODE_LEAVE`, the quorum check, the teardown of the regions.

A thread whose fault has missed goes through the phases of `uck_fault`: it builds the list of pages and asks for them
(`request`), puts the pages it receives into the cache one by one (`receive`, until `batchEnd`), looks at the faulting
page again (`recheck`), and else fetches that page alone (`complete`).
-/

namespace UckSmp.Memory.Faults

open UckSmp.Membership (NodeEntry Quorum uckQuorumCheck)

/-! ## Model -/

/-- Where a fault is; `own` is the page that it allocated. -/
inductive Phase
  /-- In `wait_event`. -/
  | waiting
  | entered (own : Nat)
  /-- In `uck_net_fetch_pages_batch`, with the indices still to come and the number of pages installed. -/
  | batch (own : Nat) (rest : List Nat) (fetched : Nat)
  | batched (own : Nat)
  /-- In `uck_net_fetch_page` or `uck_rdma_fetch_page`. -/
  | fetching (own : Nat)
  deriving DecidableEq, Repr

/-- The page that a fault has in hand. -/
def Phase.own : Phase → Option Nat
  | .waiting => none
  | .entered own => some own
  | .batch own _ _ => some own
  | .batched own => some own
  | .fetching own => some own

/-- The index that a batch receives next. -/
def Phase.nextIndex : Phase → Option Nat
  | .batch _ (j :: _) _ => some j
  | _ => none

/-- A fault that has not returned. -/
structure Thread where
  key : Key
  isWrite : Bool
  phase : Phase
  deriving DecidableEq, Repr

/-- The node, its faults under way, and what happened so far: the pages that were asked for, the pages that a fetch put
into the cache, and what the faults that returned 0 returned. -/
structure Sys where
  node : Node := {}
  quorum : Quorum := {}
  threads : List Thread := []
  issued : List Key := []
  installs : List (Key × Nat) := []
  returned : List (Key × Option Nat) := []

/-- What a thread does next. -/
inductive Act
  | wake
  | request
  | receive (entryAlloc : Bool)
  | batchEnd
  | recheck
  | complete (ok : Bool)
  deriving DecidableEq, Repr

inductive Ev
  /-- A thread enters `uck_fault`. -/
  | fault (k : Key) (isWrite : Bool) (a : Allocs)
  | thread (i : Nat) (act : Act)
  | mkwrite (k : Key)
  | invalidate (k : Key)
  | leave (node : Nat)
  /-- A page that a fault returned is unmapped. -/
  | unmap (page : Nat)
  /-- `uck_quorum_check`, with the node table as it is then. -/
  | quorum (nodes : List NodeEntry)
  /-- `uck_cleanup_regions`, which no mapping outlives. -/
  | teardown
  deriving DecidableEq

namespace Sys

variable (s : Sys) (i : Nat) (t : Thread)

/-- A thread moves on. -/
def setPhase (p : Phase) : Sys := { s with threads := s.threads.set i { t with phase := p } }

/-- A fault returns a page. -/
def finish (r : Option Nat) (node : Node) : Sys :=
  { s with node, threads := s.threads.eraseIdx i, returned := (t.key, r) :: s.returned }

/-- A fault returns an error. -/
def fail (node : Node) : Sys := { s with node, threads := s.threads.eraseIdx i }

/-- The fetch of the faulting page alone begins. -/
def single (own : Nat) : Sys := { s.setPhase i t (.fetching own) with issued := t.key :: s.issued }

/-- The list of pages is built, and asked for if it is longer than the faulting page. -/
def request (c : Config) (own : Nat) : Sys :=
  if c.rdma then s.single i t own
  else
    let (list, statics) := s.node.prefetchList c t.key
    let s := { s with node := { s.node with statics } }
    if 1 < list.length then
      { s.setPhase i t (.batch own list 0) with issued := list.map (t.key.1, ·) ++ s.issued }
    else s.single i t own

/-- A page of the batch is received. -/
def receive (c : Config) (own j : Nat) (rest : List Nat) (fetched : Nat) (entryAlloc : Bool) : Sys :=
  match s.node.batchPage c (t.key.1, j) entryAlloc with
  | (true, node) => { s.setPhase i t (.batch own rest (fetched + 1)) with
      node, installs := ((t.key.1, j), s.node.next) :: s.installs }
  | (false, node) => { s.setPhase i t (.batch own rest fetched) with node }

/-- The faulting page is looked up after the batch. -/
def recheck (own : Nat) : Sys :=
  match s.node.afterBatch t.key t.isWrite own with
  | some (g, node) => s.finish i t (some g) node
  | none => s.single i t own

/-- The fetch of the faulting page ends; the owner goes on with the zero page when it fails. -/
def complete (c : Config) (own : Nat) (ok : Bool) : Sys :=
  if ok = true ∨ c.owner t.key.1 = c.self then
    { s.finish i t (some own) (s.node.install t.key t.isWrite own) with installs := (t.key, own) :: s.installs }
  else s.fail i (s.node.abort t.key own)

/-- One action of a thread in a phase. -/
def act (c : Config) : Phase → Act → Option Sys
  | .waiting, .wake =>
    if stateOf (s.node.cache.entry t.key) = .inTransit then none
    else match s.node.wake t.key with
      | some (g, node) => some (s.finish i t (some g) node)
      | none => some (s.fail i s.node)
  | .entered own, .request => some (s.request i t c own)
  | .batch own (j :: rest) n, .receive entryAlloc => some (s.receive i t c own j rest n entryAlloc)
  | .batch own _ n, .batchEnd => some (if 0 < n then s.setPhase i t (.batched own) else s.single i t own)
  | .batched own, .recheck => some (s.recheck i t own)
  | .fetching own, .complete ok => some (s.complete i t c own ok)
  | _, _ => none

/-- The first section of a fault. -/
def fault (c : Config) (k : Key) (isWrite : Bool) (a : Allocs) : Sys :=
  match s.node.enter c k isWrite a with
  | (.hit r, node) => { s with node, returned := (k, r) :: s.returned }
  | (.wait, node) => { s with node, threads := s.threads ++ [⟨k, isWrite, .waiting⟩] }
  | (.fetch own, node) => { s with node, threads := s.threads ++ [⟨k, isWrite, .entered own⟩] }
  | (_, node) => { s with node }

end Sys

/-- One step of the node. -/
def step (c : Config) (s : Sys) : Ev → Option Sys
  | .fault k w a => some (s.fault c k w a)
  | .thread i act => s.threads[i]?.bind fun t => s.act i t c t.phase act
  | .mkwrite k => some { s with node := s.node.mkwrite k }
  | .invalidate k => some { s with node := s.node.invalidate k }
  | .leave n => some { s with node := s.node.leave c n }
  | .unmap g => if g ∈ s.node.mapped then some { s with node := s.node.unmap g } else none
  | .quorum nodes => some { s with quorum := uckQuorumCheck nodes s.quorum }
  | .teardown => if s.threads = [] then some { s with node := s.node.cleanup } else none

/-- Node 1, with regions of some pages that belong to node 2. -/
def client (pages : Nat) : Config where
  self := 1
  owner _ := 2
  size _ := pages * pageSize
  totalram := 1000

/-! ## What a thread can do -/

/-- The actions of a thread, by its phase. -/
inductive Acts (c : Config) (s : Sys) (i : Nat) (x : Thread) : Phase → Act → Sys → Prop
  | wake {g : Nat} {node : Node} (h : s.node.wake x.key = some (g, node)) :
      Acts c s i x .waiting .wake (s.finish i x (some g) node)
  | sigbus : Acts c s i x .waiting .wake (s.fail i s.node)
  | request (own : Nat) : Acts c s i x (.entered own) .request (s.request i x c own)
  | receive (own j : Nat) (rest : List Nat) (n : Nat) (ea : Bool) :
      Acts c s i x (.batch own (j :: rest) n) (.receive ea) (s.receive i x c own j rest n ea)
  | batchEnd (own : Nat) (rest : List Nat) {n : Nat} (hn : 0 < n) :
      Acts c s i x (.batch own rest n) .batchEnd (s.setPhase i x (.batched own))
  | batchFailed (own : Nat) (rest : List Nat) : Acts c s i x (.batch own rest 0) .batchEnd (s.single i x own)
  | recheck (own : Nat) : Acts c s i x (.batched own) .recheck (s.recheck i x own)
  | complete (own : Nat) (ok : Bool) : Acts c s i x (.fetching own) (.complete ok) (s.complete i x c own ok)

variable {c : Config} {s t : Sys} {i : Nat} {x : Thread}

theorem Acts.of_act {p : Phase} {a : Act} (h : s.act i x c p a = some t) : Acts c s i x p a t := by
  cases p with
  | waiting =>
    cases a <;> try cases h
    simp only [Sys.act] at h
    split at h
    · cases h
    · cases hw : s.node.wake x.key with
      | none =>
        rw [hw] at h
        cases h
        exact .sigbus
      | some r =>
        rw [hw] at h
        cases h
        exact .wake hw
  | entered own =>
    cases a <;> cases h
    exact .request own
  | batch own rest n =>
    cases a with
    | receive ea =>
      cases rest with
      | nil => cases h
      | cons j rest =>
        cases h
        exact .receive own j rest n ea
    | batchEnd =>
      cases n with
      | zero =>
        have ht : s.single i x own = t := by cases rest <;> exact Option.some.inj h
        exact ht ▸ .batchFailed own rest
      | succ n =>
        have ht : s.setPhase i x (.batched own) = t := by cases rest <;> exact Option.some.inj h
        exact ht ▸ .batchEnd own rest n.succ_pos
    | _ => cases rest <;> cases h
  | batched own =>
    cases a <;> cases h
    exact .recheck own
  | fetching own =>
    cases a <;> cases h
    exact .complete own _

/-- A thread takes one of its actions. -/
theorem Acts.of_step {act : Act} (h : step c s (.thread i act) = some t) :
    ∃ x, s.threads[i]? = some x ∧ Acts c s i x x.phase act t := by
  obtain ⟨x, hx, h⟩ := Option.bind_eq_some_iff.1 h
  exact ⟨x, hx, .of_act h⟩

theorem of_step_unmap {g : Nat} (h : step c s (.unmap g) = some t) :
    g ∈ s.node.mapped ∧ t = { s with node := s.node.unmap g } := by
  simp only [step, Option.ite_none_right_eq_some, Option.some.injEq] at h
  exact ⟨h.1, h.2.symm⟩

theorem of_step_teardown (h : step c s .teardown = some t) :
    s.threads = [] ∧ t = { s with node := s.node.cleanup } := by
  simp only [step, Option.ite_none_right_eq_some, Option.some.injEq] at h
  exact ⟨h.1, h.2.symm⟩

theorem Sys.fault_node (k : Key) (w : Bool) (a : Allocs) : (s.fault c k w a).node = (s.node.enter c k w a).2 := by
  unfold Sys.fault
  rcases s.node.enter c k w a with ⟨r, node⟩
  cases r <;> rfl

/-- The request changes nothing of the node but the statics of the prefetch list. -/
theorem Sys.request_node (own : Nat) : ∃ statics, (s.request i x c own).node = { s.node with statics } := by
  simp only [Sys.request]
  split
  · exact ⟨_, rfl⟩
  · split <;> exact ⟨_, rfl⟩

theorem Sys.request_cache (own : Nat) : (s.request i x c own).node.cache = s.node.cache := by
  obtain ⟨statics, h⟩ := Sys.request_node (c := c) (s := s) (i := i) (x := x) own
  rw [h]

/-- The request moves the thread on, with its page. -/
theorem Sys.request_threads (own : Nat) : ∃ p : Phase, p.own = some own ∧
    (s.request i x c own).threads = s.threads.set i { x with phase := p } := by
  simp only [Sys.request]
  split
  · exact ⟨.fetching own, rfl, rfl⟩
  · split
    · exact ⟨.batch own _ 0, rfl, rfl⟩
    · exact ⟨.fetching own, rfl, rfl⟩

theorem Sys.receive_eq (own j : Nat) (rest : List Nat) (n : Nat) (ea : Bool) : s.receive i x c own j rest n ea =
    if (s.node.batchPage c (x.key.1, j) ea).1 = true then
      { s.setPhase i x (.batch own rest (n + 1)) with
        node := (s.node.batchPage c (x.key.1, j) ea).2, installs := ((x.key.1, j), s.node.next) :: s.installs }
    else { s.setPhase i x (.batch own rest n) with node := (s.node.batchPage c (x.key.1, j) ea).2 } := by
  unfold Sys.receive
  rcases s.node.batchPage c (x.key.1, j) ea with ⟨_ | _, node⟩ <;> rfl

theorem Sys.receive_node (own j : Nat) (rest : List Nat) (n : Nat) (ea : Bool) :
    (s.receive i x c own j rest n ea).node = (s.node.batchPage c (x.key.1, j) ea).2 := by
  rw [Sys.receive_eq]
  split <;> rfl

/-- The fetch has succeeded, or the owner goes on with the zero page. -/
theorem Sys.complete_of_ok {own : Nat} {ok : Bool} (h : ok = true ∨ c.owner x.key.1 = c.self) :
    s.complete i x c own ok = { s.finish i x (some own) (s.node.install x.key x.isWrite own) with
      installs := (x.key, own) :: s.installs } := if_pos h

theorem Sys.complete_of_not {own : Nat} {ok : Bool} (h : ¬ (ok = true ∨ c.owner x.key.1 = c.self)) :
    s.complete i x c own ok = s.fail i (s.node.abort x.key own) := if_neg h

/-- An action moves its thread on or ends it. -/
theorem Acts.threads {p : Phase} {a : Act} (h : Acts c s i x p a t) :
    (∃ p : Phase, t.threads = s.threads.set i { x with phase := p }) ∨ t.threads = s.threads.eraseIdx i := by
  cases h with
  | wake h => exact .inr rfl
  | sigbus => exact .inr rfl
  | request own =>
    obtain ⟨p, -, hts⟩ := Sys.request_threads (c := c) (s := s) (i := i) (x := x) own
    exact .inl ⟨p, hts⟩
  | receive own j rest n ea =>
    rw [Sys.receive_eq]
    split
    · exact .inl ⟨_, rfl⟩
    · exact .inl ⟨_, rfl⟩
  | batchEnd own rest hn => exact .inl ⟨_, rfl⟩
  | batchFailed own rest => exact .inl ⟨_, rfl⟩
  | recheck own =>
    unfold Sys.recheck
    split
    · exact .inr rfl
    · exact .inl ⟨_, rfl⟩
  | complete own ok =>
    unfold Sys.complete
    split
    · exact .inr rfl
    · exact .inr rfl

/-- No action starts a fault. -/
theorem Acts.mem_threads {p : Phase} {a : Act} (h : Acts c s i x p a t) (hx : x ∈ s.threads) {z : Thread}
    (hz : z ∈ t.threads) : ∃ y ∈ s.threads, y.key = z.key := by
  rcases h.threads with ⟨p, hts⟩ | hts
  · rcases List.mem_or_eq_of_mem_set (hts ▸ hz) with hz | rfl
    · exact ⟨z, hz, rfl⟩
    · exact ⟨x, hx, rfl⟩
  · exact ⟨z, List.mem_of_mem_eraseIdx (hts ▸ hz), rfl⟩

end UckSmp.Memory.Faults
