import UckSmp.Lib.SwapArray
import UckSmp.Lib.Transition

/-!
# The networking proxy

`uck_netd.c`: one loop around `poll` accepts connections into `fds`, reads from those that have data and closes those
that hung up. What `poll` and `accept` return is left open. A new connection gets the `revents` that its slot had
before.

* `Inv.step`: every descriptor that is open is in the table, or was accepted while the table was full.
* `descriptors_accounted`: after every run and the end of the daemon, only the latter are open.
* `deaf_after_hangup`: after the connection in the last slot hung up, every new connection is closed in the round that
  accepts it, as long as the others stay.
-/

namespace UckSmp.Netd

open Lib Lib.Transition

/-! ## Code -/

/-- `UCK_NETD_MAX_PEERS`. -/
def maxPeers : Nat := 16

/-- The bits of `revents` that the loop looks at. -/
structure Revents where
  pollin : Bool := false
  pollhup : Bool := false
  pollerr : Bool := false
  deriving DecidableEq, Repr

/-- `struct pollfd`; `events` is always `POLLIN`. -/
structure PollFd where
  fd : Nat
  revents : Revents := {}
  deriving DecidableEq, Repr

/-- The variables of `main`, with `nfds` as the size of `fds`, the descriptors of sockets that are open, those that data
was read from, and those that were read or closed while they were not open. -/
structure State where
  fds : SwapArray PollFd
  listenFd : Nat
  opened : List Nat
  relayed : List Nat := []
  bad : List Nat := []

/-- What `poll` reports for a slot, and what `accept` returns if it is called. -/
structure Round where
  revents : Nat → Revents
  accept : Option Nat

inductive Event
  /-- `poll` fails with `EINTR`. -/
  | interrupted
  | round (r : Round)

/-- `main` before its loop. -/
def init (listenFd : Nat) : State where
  fds := ⟨fun i => if i = 0 then { fd := listenFd } else { fd := 0 }, 1⟩
  listenFd := listenFd
  opened := [listenFd]

def State.close (s : State) (fd : Nat) : State :=
  if fd ∈ s.opened then { s with opened := s.opened.erase fd } else { s with bad := fd :: s.bad }

/-- `uck_netd_relay`. -/
def uckNetdRelay (s : State) (fd : Nat) : State :=
  if fd ∈ s.opened then { s with relayed := fd :: s.relayed } else { s with bad := fd :: s.bad }

def poll (s : State) (r : Round) : State := { s with fds := s.fds.modify fun i p => { p with revents := r.revents i } }

/-- The first half of a round. `revents` of the slot is not written. -/
def acceptPeer (s : State) (r : Round) : State :=
  if (s.fds.slots 0).revents.pollin then
    match r.accept with
    | none => s
    | some fd =>
      if s.fds.size < maxPeers + 1 then
        { s with opened := fd :: s.opened, fds := s.fds.push { s.fds.slots s.fds.size with fd } }
      else { s with opened := fd :: s.opened }
  else s

def Revents.gone (e : Revents) : Bool := e.pollhup || e.pollerr

/-- The body of the second half of a round, without the removal. -/
def readPeer (s : State) (i : Nat) : State :=
  if (s.fds.slots i).revents.pollin then uckNetdRelay s (s.fds.slots i).fd else s

/-- A connection is closed, and the last one takes its slot. -/
def dropPeer (s : State) (i : Nat) : State := { s.close (s.fds.slots i).fd with fds := s.fds.swapRemove i }

/-- The second half of a round, from slot `i` on. The first argument is the number of slots from there on. -/
def handlePeers : (left i : Nat) → State → State
  | 0, _, s => s
  | left + 1, i, s =>
    if (s.fds.slots i).revents.gone then handlePeers left i (dropPeer (readPeer s i) i)
    else handlePeers left (i + 1) (readPeer s i)

/-- A round of the loop. `accept` returns a descriptor that is not open. -/
def step (s : State) : Event → Option State
  | .interrupted => some s
  | .round r =>
    if ∀ fd ∈ r.accept, fd ∉ s.opened then
      let s' := acceptPeer (poll s r) r
      some (handlePeers (s'.fds.size - 1) 1 s')
    else none

/-- The descriptors of the connections in the table. -/
def peers (s : State) : List Nat := (List.range' 1 (s.fds.size - 1)).map fun i => (s.fds.slots i).fd

/-- The end of `main`. -/
def shutdown (s : State) : State := (peers s ++ [s.listenFd]).foldl State.close s

/-! ## Every descriptor is accounted for -/

/-- What a round accepts while the table is full. -/
def lostBy (s : State) : Event → List Nat
  | .interrupted => []
  | .round r => if (r.revents 0).pollin && decide (maxPeers < s.fds.size) then r.accept.toList else []

section Accounted

variable {s t : State} {lost : List Nat}

/-- What is open is in the table, or lost. -/
structure Inv (lost : List Nat) (s : State) : Prop where
  pos : 0 < s.fds.size
  le : s.fds.size ≤ maxPeers + 1
  listen : (s.fds.slots 0).fd = s.listenFd
  perm : (s.fds.toList.map PollFd.fd ++ lost).Perm s.opened
  nodup : s.opened.Nodup
  good : s.bad = []

theorem Inv.init (listenFd : Nat) : Inv [] (init listenFd) where
  pos := Nat.one_pos
  le := by simp [Netd.init, maxPeers]
  listen := rfl
  perm := List.Perm.refl _
  nodup := by simp [Netd.init]
  good := rfl

theorem Inv.mem (h : Inv lost s) {i : Nat} (hi : i < s.fds.size) : (s.fds.slots i).fd ∈ s.opened := by
  have hmem : s.fds.slots i ∈ s.fds.toList := (s.fds.mem_toList).2 ⟨i, hi, rfl⟩
  exact h.perm.mem_iff.1 (List.mem_append_left _ (List.mem_map_of_mem hmem))

theorem Inv.poll (h : Inv lost s) (r : Round) : Inv lost (poll s r) where
  pos := h.pos
  le := h.le
  listen := by
    have hslot := s.fds.slots_modify_of_lt h.pos fun i p => { p with revents := r.revents i }
    exact (congrArg PollFd.fd hslot).trans h.listen
  perm := by
    have hmap := s.fds.map_toList_modify (f := fun i p => { p with revents := r.revents i }) (g := PollFd.fd)
      fun _ _ => rfl
    exact (List.Perm.of_eq (congrArg (· ++ lost) hmap)).trans h.perm
  nodup := h.nodup
  good := h.good

theorem Inv.readPeer (h : Inv lost s) {i : Nat} (hi : i < s.fds.size) : Inv lost (readPeer s i) := by
  unfold Netd.readPeer
  split
  · rw [uckNetdRelay, if_pos (h.mem hi)]
    exact ⟨h.pos, h.le, h.listen, h.perm, h.nodup, h.good⟩
  · exact h

@[simp] theorem fds_readPeer (s : State) (i : Nat) : (readPeer s i).fds = s.fds := by
  unfold readPeer uckNetdRelay
  split
  · split
    · rfl
    · rfl
  · rfl

@[simp] theorem opened_readPeer (s : State) (i : Nat) : (readPeer s i).opened = s.opened := by
  unfold readPeer uckNetdRelay
  split
  · split
    · rfl
    · rfl
  · rfl

theorem Inv.dropPeer (h : Inv lost s) {i : Nat} (h0 : 0 < i) (hi : i < s.fds.size) : Inv lost (dropPeer s i) := by
  have hmem := h.mem hi
  have hclose : s.close (s.fds.slots i).fd = { s with opened := s.opened.erase (s.fds.slots i).fd } := if_pos hmem
  unfold Netd.dropPeer
  rw [hclose]
  refine ⟨?_, ?_, ?_, ?_, h.nodup.erase _, h.good⟩
  · show 0 < s.fds.size - 1
    omega
  · have hle := h.le
    show s.fds.size - 1 ≤ _
    omega
  · have hslot : (s.fds.swapRemove i).slots 0 = s.fds.slots 0 := s.fds.slots_swapRemove_of_ne (Nat.ne_of_lt h0)
    exact (congrArg PollFd.fd hslot).trans h.listen
  · have hsplit := (s.fds.toList_swapRemove hi).map PollFd.fd
    have hall := (hsplit.append_right lost).trans h.perm
    exact (List.cons_perm_iff_perm_erase.1 hall).2

/-- The loop over the slots keeps the account. -/
theorem Inv.handlePeers (left : Nat) {i : Nat} (h : Inv lost s) (h0 : 0 < i) (hi : i + left ≤ s.fds.size) :
    Inv lost (handlePeers left i s) := by
  induction left generalizing i s with
  | zero => exact h
  | succ left ih =>
    have hread := h.readPeer (show i < s.fds.size by omega)
    unfold Netd.handlePeers
    split
    · refine ih (hread.dropPeer h0 (by simp; omega)) h0 ?_
      simp [Netd.dropPeer]
      omega
    · exact ih hread (by omega) (by simp; omega)

theorem Inv.acceptPeer (h : Inv lost s) {r : Round} (hr : (s.fds.slots 0).revents = r.revents 0)
    (hfresh : ∀ fd ∈ r.accept, fd ∉ s.opened) : Inv (lost ++ lostBy s (.round r)) (acceptPeer s r) := by
  have hlost : lostBy s (.round r) =
      if (r.revents 0).pollin && decide (maxPeers < s.fds.size) then r.accept.toList else [] := rfl
  rw [hlost, Netd.acceptPeer, hr]
  cases hin : (r.revents 0).pollin with
  | false => simpa using h
  | true =>
    cases hacc : r.accept with
    | none => simpa using h
    | some fd =>
      have hnew : fd ∉ s.opened := hfresh fd hacc
      have hnodup : (fd :: s.opened).Nodup := List.nodup_cons.2 ⟨hnew, h.nodup⟩
      by_cases hfull : s.fds.size < maxPeers + 1
      · have hroom : ¬ maxPeers < s.fds.size := by omega
        simp only [if_true, if_pos hfull, Bool.true_and, decide_eq_false hroom, Bool.false_eq_true, if_false,
          List.append_nil]
        refine ⟨Nat.succ_pos _, hfull, ?_, ?_, hnodup, h.good⟩
        · exact (congrArg PollFd.fd (s.fds.slots_push_of_ne (Nat.ne_of_lt h.pos) _)).trans h.listen
        · show (List.map PollFd.fd (s.fds.push _).toList ++ lost).Perm (fd :: s.opened)
          rw [SwapArray.toList_push, List.map_append, List.map_singleton, List.append_assoc]
          exact List.perm_middle.trans (h.perm.cons fd)
      · have hover : maxPeers < s.fds.size := by omega
        simp only [if_true, if_neg hfull, Bool.true_and, decide_eq_true hover, Option.toList_some]
        refine ⟨h.pos, h.le, h.listen, ?_, hnodup, h.good⟩
        show (List.map PollFd.fd s.fds.toList ++ (lost ++ [fd])).Perm (fd :: s.opened)
        rw [← List.append_assoc]
        exact (List.perm_append_singleton _ _).trans (h.perm.cons fd)

theorem Inv.step (h : Inv lost s) {e : Event} (hs : Netd.step s e = some t) : Inv (lost ++ lostBy s e) t := by
  cases e with
  | interrupted =>
    cases hs
    simpa [lostBy] using h
  | round r =>
    simp only [Netd.step] at hs
    split at hs
    · rename_i hfresh
      cases hs
      have hslot := s.fds.slots_modify_of_lt h.pos fun i p => { p with revents := r.revents i }
      have hacc := (h.poll r).acceptPeer (congrArg PollFd.revents hslot) hfresh
      have hsize := hacc.pos
      exact hacc.handlePeers _ Nat.one_pos (by omega)
    · cases hs

/-- Closing descriptors that are open, each once. -/
theorem close_all {l : List Nat} (hperm : (l ++ lost).Perm s.opened) (hgood : s.bad = []) :
    (l.foldl State.close s).opened.Perm lost ∧ (l.foldl State.close s).bad = [] := by
  induction l generalizing s with
  | nil => exact ⟨hperm.symm, hgood⟩
  | cons fd l ih =>
    have hmem : fd ∈ s.opened := hperm.mem_iff.1 List.mem_cons_self
    have hclose : s.close fd = { s with opened := s.opened.erase fd } := if_pos hmem
    rw [List.foldl_cons, hclose]
    exact ih (List.cons_perm_iff_perm_erase.1 hperm).2 hgood

theorem Inv.fds_eq (h : Inv lost s) : s.fds.toList.map PollFd.fd = s.listenFd :: peers s := by
  obtain ⟨n, hn⟩ : ∃ n, s.fds.size = n + 1 := ⟨s.fds.size - 1, by have := h.pos; omega⟩
  have hrange : List.range s.fds.size = 0 :: List.range' 1 (s.fds.size - 1) := by
    rw [hn, List.range_eq_range', List.range'_succ]
    rfl
  rw [SwapArray.toList, hrange, List.map_map, List.map_cons, Function.comp_apply, h.listen]
  rfl

/-- At its end the daemon closes the table. -/
theorem Inv.shutdown (h : Inv lost s) : (shutdown s).opened.Perm lost ∧ (shutdown s).bad = [] := by
  refine close_all ?_ h.good
  have hfds := h.perm
  rw [h.fds_eq] at hfds
  exact ((List.perm_append_singleton _ _).append_right lost).trans hfds

/-- **Every descriptor is accounted for.** In every run, nothing is read or closed that is not open; at the end of the
daemon exactly the connections are left open that were accepted while the table was full. -/
theorem descriptors_accounted {listenFd : Nat} {es : List Event}
    (hrun : run (observe step fun s e _ lost => lost ++ lostBy s e) (init listenFd, []) es = some (s, lost)) :
    s.bad = [] ∧ (peers s).length ≤ maxPeers ∧ (shutdown s).opened.Perm lost ∧ (shutdown s).bad = [] := by
  have hinv : Inv lost s := by
    refine run_inv (fun p => Inv p.2 p.1) (fun p e q hp hq => ?_) (Inv.init listenFd) hrun
    obtain ⟨hstep, hlost⟩ := observe_eq_some hq
    rw [hlost]
    exact hp.step hstep
  have hle := hinv.le
  refine ⟨hinv.good, ?_, hinv.shutdown⟩
  simp only [peers, List.length_map, List.length_range']
  omega

/-- A round that accepts a connection. -/
def accepting (fd : Nat) : Event := .round ⟨fun i => if i = 0 then { pollin := true } else {}, some fd⟩

/-- The last of 17 connections finds the table full. -/
def crowded : State × List Nat :=
  (run (observe step fun s e _ lost => lost ++ lostBy s e) (init 3, []) ((List.range' 4 17).map accepting)).get
    (by decide)

theorem crowded_accounted : crowded.2 = [20] ∧ crowded.1.bad = [] ∧ (peers crowded.1).length ≤ maxPeers ∧
    (shutdown crowded.1).opened.Perm crowded.2 ∧ (shutdown crowded.1).bad = [] := by
  have hrun : run (observe step fun s e _ lost => lost ++ lostBy s e) (init 3, []) ((List.range' 4 17).map accepting) =
      some crowded := (Option.some_get _).symm
  exact ⟨by decide, descriptors_accounted hrun⟩

end Accounted

/-! ## A slot that remembers -/

section Stale

variable {s t : State}

theorem opened_close (s : State) (fd : Nat) : (s.close fd).opened = s.opened.erase fd := by
  unfold State.close
  split
  · rfl
  · rename_i hfd
    exact (List.erase_of_not_mem hfd).symm

/-- Slots without a connection that is gone are only read. -/
theorem handlePeers_quiet (left n : Nat) {i : Nat}
    (h : ∀ j, i ≤ j → j < i + left → (s.fds.slots j).revents.gone = false) :
    ∃ s', handlePeers (left + n) i s = handlePeers n (i + left) s' ∧ s'.fds = s.fds ∧ s'.opened = s.opened := by
  induction left generalizing i s with
  | zero => exact ⟨s, by simp, rfl, rfl⟩
  | succ left ih =>
    have hi : (s.fds.slots i).revents.gone = false := h i (Nat.le_refl i) (by omega)
    have hrest : ∀ j, i + 1 ≤ j → j < i + 1 + left → ((readPeer s i).fds.slots j).revents.gone = false := by
      intro j hj hlt
      rw [fds_readPeer]
      exact h j (by omega) (by omega)
    obtain ⟨s', hrun, hfds, hopened⟩ := ih hrest
    refine ⟨s', ?_, by simpa using hfds, by simpa using hopened⟩
    rw [Nat.succ_add, handlePeers, if_neg (by simp [hi]), hrun, Nat.add_right_comm, Nat.add_assoc]

/-- The slots are handled, and the connection in the last one is gone. Its `revents` stay in the slot. -/
theorem handlePeers_last {n : Nat} (hn : s.fds.size = n + 2) (hgone : (s.fds.slots (n + 1)).revents.gone = true)
    (hquiet : ∀ j, 0 < j → j < n + 1 → (s.fds.slots j).revents.gone = false) :
    (handlePeers (s.fds.size - 1) 1 s).fds = ⟨s.fds.slots, n + 1⟩ ∧
      (handlePeers (s.fds.size - 1) 1 s).opened = s.opened.erase (s.fds.slots (n + 1)).fd := by
  have hleft : s.fds.size - 1 = n + 1 := by omega
  obtain ⟨s', hrun, hfds, hopened⟩ := handlePeers_quiet n 1 (i := 1) (s := s) fun j hj hlt => hquiet j hj (by omega)
  have hlast : (s.fds.swapRemove (n + 1)).slots = s.fds.slots := by
    have hsame := s.fds.swapRemove_last
    rwa [hleft] at hsame
  rw [hleft, hrun, Nat.add_comm 1 n, handlePeers, hfds, if_pos hgone, handlePeers]
  refine ⟨?_, ?_⟩
  · show (readPeer s' (n + 1)).fds.swapRemove (n + 1) = _
    rw [fds_readPeer, hfds]
    exact SwapArray.ext hlast hleft
  · show (State.close _ _).opened = _
    rw [opened_close, opened_readPeer, fds_readPeer, hfds, hopened]

/-- No connection in the table is reported as gone. -/
def Quiet (s : State) : Event → Prop
  | .interrupted => True
  | .round r => ∀ i, 0 < i → i < s.fds.size → (r.revents i).gone = false

/-- The first free slot has the `revents` of a connection that is gone. -/
structure Stale (s : State) : Prop where
  pos : 0 < s.fds.size
  room : s.fds.size < maxPeers + 1
  gone : (s.fds.slots s.fds.size).revents.gone = true

theorem slots_poll_of_lt {i : Nat} (hi : i < s.fds.size) (r : Round) :
    (poll s r).fds.slots i = { s.fds.slots i with revents := r.revents i } :=
  s.fds.slots_modify_of_lt hi fun i p => { p with revents := r.revents i }

/-- A view of the slots in use. -/
theorem peers_congr (hsize : t.fds.size = s.fds.size)
    (hfd : ∀ i < s.fds.size, (t.fds.slots i).fd = (s.fds.slots i).fd) : peers t = peers s := by
  unfold peers
  rw [hsize]
  refine List.map_congr_left fun i hi => hfd i ?_
  have hrange := List.mem_range'_1.1 hi
  omega

theorem peers_poll (s : State) (r : Round) : peers (poll s r) = peers s :=
  peers_congr rfl fun i hi => by rw [slots_poll_of_lt hi]

theorem gone_poll (h : Stale s) (r : Round) : ((poll s r).fds.slots s.fds.size).revents.gone = true := by
  have hslot := s.fds.slots_modify_of_le (Nat.le_refl s.fds.size) fun i p => { p with revents := r.revents i }
  exact (congrArg (fun p => p.revents.gone) hslot).trans h.gone

/-- A round without a new connection leaves the slots alone. -/
theorem Stale.quiet_round (h : Stale s) {r : Round} (hq : Quiet s (.round r)) :
    let t := handlePeers ((poll s r).fds.size - 1) 1 (poll s r)
    Stale t ∧ peers t = peers s ∧ t.opened = s.opened := by
  have hquiet : ∀ j, 1 ≤ j → j < 1 + ((poll s r).fds.size - 1) → ((poll s r).fds.slots j).revents.gone = false := by
    intro j hj hlt
    have hpos := h.pos
    have hin : j < s.fds.size := by
      change j < 1 + (s.fds.size - 1) at hlt
      omega
    rw [slots_poll_of_lt hin]
    exact hq j hj hin
  obtain ⟨s', hrun, hfds, hopened⟩ := handlePeers_quiet ((poll s r).fds.size - 1) 0 hquiet
  rw [Nat.add_zero, handlePeers] at hrun
  simp only [hrun]
  refine ⟨⟨?_, ?_, ?_⟩, ?_, hopened⟩
  · rw [hfds]
    exact h.pos
  · rw [hfds]
    exact h.room
  · rw [hfds]
    exact gone_poll h r
  · exact (peers_congr (congrArg SwapArray.size hfds) fun i _ => by rw [hfds]).trans (peers_poll s r)

/-- A new connection goes into that slot and is closed at once. -/
theorem Stale.accept_round (h : Stale s) {r : Round} (hq : Quiet s (.round r)) (fd : Nat) :
    let u : State := { poll s r with
      opened := fd :: s.opened, fds := (poll s r).fds.push { (poll s r).fds.slots s.fds.size with fd } }
    let t := handlePeers (u.fds.size - 1) 1 u
    Stale t ∧ peers t = peers s ∧ t.opened = s.opened := by
  intro u t
  obtain ⟨n, hn⟩ : ∃ n, s.fds.size = n + 1 := ⟨s.fds.size - 1, by have := h.pos; omega⟩
  have hnew : u.fds.slots s.fds.size = { (poll s r).fds.slots s.fds.size with fd } :=
    (poll s r).fds.slots_push_self _
  have hold : ∀ i < s.fds.size, u.fds.slots i = (poll s r).fds.slots i := fun i hi =>
    (poll s r).fds.slots_push_of_ne (Nat.ne_of_lt hi) _
  have hgone : (u.fds.slots s.fds.size).revents.gone = true := by
    rw [hnew]
    exact gone_poll h r
  have hquiet : ∀ j, 0 < j → j < n + 1 → (u.fds.slots j).revents.gone = false := by
    intro j hj hlt
    have hin : j < s.fds.size := by omega
    rw [hold j hin, slots_poll_of_lt hin]
    exact hq j hj hin
  have hsize : u.fds.size = n + 2 := congrArg (· + 1) hn
  obtain ⟨hfds, hopened⟩ := handlePeers_last hsize (by rwa [← hn]) hquiet
  have htfds : t.fds = ⟨u.fds.slots, n + 1⟩ := hfds
  have htsize : t.fds.size = s.fds.size := by rw [htfds, hn]
  have htslots : t.fds.slots = u.fds.slots := by rw [htfds]
  refine ⟨⟨?_, ?_, ?_⟩, ?_, ?_⟩
  · rw [htsize]
    exact h.pos
  · rw [htsize]
    exact h.room
  · rw [htsize, htslots]
    exact hgone
  · refine peers_congr htsize fun i hi => ?_
    rw [htslots, hold i hi, slots_poll_of_lt hi]
  · refine hopened.trans ?_
    rw [← hn, hnew]
    exact List.erase_cons_head fd s.opened

theorem Stale.step (h : Stale s) {e : Event} (hq : Quiet s e) (hs : Netd.step s e = some t) :
    Stale t ∧ peers t = peers s ∧ t.opened = s.opened := by
  cases e with
  | interrupted =>
    cases hs
    exact ⟨h, rfl, rfl⟩
  | round r =>
    simp only [Netd.step] at hs
    split at hs
    swap
    · cases hs
    rename_i hfresh
    cases hs
    have hquiet := h.quiet_round hq
    unfold acceptPeer
    split
    · cases hacc : r.accept with
      | none => exact hquiet
      | some fd =>
        simp only [if_pos (show (poll s r).fds.size < maxPeers + 1 from h.room)]
        exact h.accept_round hq fd
    · exact hquiet

/-- A round in which nothing is accepted and only the connection in the last slot is gone. -/
structure Hangup (s : State) (r : Round) : Prop where
  peer : peers s ≠ []
  gone : (r.revents (s.fds.size - 1)).gone = true
  others : ∀ i, 0 < i → i < s.fds.size - 1 → (r.revents i).gone = false
  none : (r.revents 0).pollin = false ∨ r.accept = none

theorem Hangup.acceptPeer_eq {r : Round} (h : Hangup s r) (hpos : 0 < s.fds.size) :
    acceptPeer (poll s r) r = poll s r := by
  unfold acceptPeer
  rw [slots_poll_of_lt hpos]
  rcases h.none with hin | hnone
  · rw [if_neg (by simp [hin])]
  · rw [hnone, ite_self]

/-- Such a round removes the last slot, which keeps what was reported. -/
theorem Hangup.stale {lost : List Nat} {r : Round} (h : Hangup s r) (hinv : Inv lost s)
    (hs : Netd.step s (.round r) = some t) : Stale t ∧ ∃ fd, peers s = peers t ++ [fd] := by
  obtain ⟨n, hn⟩ : ∃ n, s.fds.size = n + 2 := by
    refine ⟨s.fds.size - 2, ?_⟩
    have hlen : (peers s).length ≠ 0 := fun h0 => h.peer (List.eq_nil_of_length_eq_zero h0)
    simp only [peers, List.length_map, List.length_range'] at hlen
    omega
  have hlast : s.fds.size - 1 = n + 1 := by omega
  have hround : handlePeers ((poll s r).fds.size - 1) 1 (poll s r) = t := by
    simp only [Netd.step] at hs
    split at hs
    · cases hs
      rw [h.acceptPeer_eq hinv.pos]
    · cases hs
  have hslot : ∀ i < n + 2, (poll s r).fds.slots i = { s.fds.slots i with revents := r.revents i } :=
    fun i hi => slots_poll_of_lt (by omega) r
  have hgone : ((poll s r).fds.slots (n + 1)).revents.gone = true := by
    rw [hslot _ (by omega), ← hlast]
    exact h.gone
  have hothers : ∀ j, 0 < j → j < n + 1 → ((poll s r).fds.slots j).revents.gone = false := by
    intro j hj hlt
    rw [hslot j (by omega)]
    exact h.others j hj (by omega)
  obtain ⟨hfds, -⟩ := handlePeers_last (s := poll s r) hn hgone hothers
  rw [hround] at hfds
  have hsize : t.fds.size = n + 1 := by rw [hfds]
  have hslots : t.fds.slots = (poll s r).fds.slots := by rw [hfds]
  refine ⟨⟨by omega, ?_, ?_⟩, (s.fds.slots (n + 1)).fd, ?_⟩
  · have hle := hinv.le
    omega
  · rw [hsize, hslots]
    exact hgone
  · have hpeers : peers t = (List.range' 1 n).map fun i => (s.fds.slots i).fd := by
      unfold peers
      rw [hsize]
      refine List.map_congr_left fun i hi => ?_
      have hrange := List.mem_range'_1.1 hi
      rw [hslots, hslot i (by omega)]
    rw [hpeers, peers, hlast, List.range'_1_concat, List.map_append, List.map_singleton, Nat.add_comm 1 n]

/-- **The daemon goes deaf.** After a round in which the connection in the last slot, and no other, is gone and none is
accepted, the table never grows again: as long as the other connections stay, every new one is closed in the round that
accepts it. -/
theorem deaf_after_hangup {listenFd : Nat} {es fs : List Event} {u : State} {r : Round}
    (hes : run step (init listenFd) es = some s) (hr : Hangup s r) (ht : step s (.round r) = some t)
    (hfs : EachStep step Quiet t fs) (hu : run step t fs = some u) :
    (∃ fd, peers s = peers t ++ [fd]) ∧ peers u = peers t ∧ u.opened = t.opened := by
  obtain ⟨lost, hinv⟩ : ∃ lost, Inv lost s :=
    run_inv (fun s => ∃ lost, Inv lost s) (fun s e t hs hst => ⟨_, hs.choose_spec.step hst⟩) ⟨[], Inv.init listenFd⟩ hes
  obtain ⟨hstale, hpeers⟩ := hr.stale hinv ht
  have halways := Always.of_eachStep (P := fun u => peers u = peers t ∧ u.opened = t.opened)
    (fun u => Stale u ∧ peers u = peers t ∧ u.opened = t.opened)
    (fun u e v hu hq hv => by
      obtain ⟨hst, hp, ho⟩ := hu.1.step hq hv
      exact ⟨hst, hp.trans hu.2.1, ho.trans hu.2.2⟩)
    (fun u hu => hu.2) ⟨hstale, rfl, rfl⟩ hfs
  exact ⟨hpeers, halways.last hu⟩

theorem quiet_accepting (s : State) (fd : Nat) : Quiet s (accepting fd) := by
  intro i h0 _
  simp [Nat.ne_of_gt h0, Revents.gone]

/-- The only connection, number 4, is gone. -/
def gone : Round := ⟨fun i => if i = 1 then { pollhup := true } else {}, none⟩

def onePeer : State := (step (init 3) (accepting 4)).get (by decide)

def noPeer : State := (step onePeer (.round gone)).get (by decide)

/-- Connections 5 and 6 are closed as soon as they are accepted. -/
theorem deaf_after_gone : ∃ u, run step noPeer [accepting 5, accepting 6] = some u ∧
    (∃ fd, peers onePeer = peers noPeer ++ [fd]) ∧ peers u = peers noPeer ∧ u.opened = noPeer.opened := by
  have hsome : (run step noPeer [accepting 5, accepting 6]).isSome = true := by decide
  have hes : run step (init 3) [accepting 4] = some onePeer := run_cons (Option.some_get _).symm []
  have hgone : Hangup onePeer gone := by
    have hsize : onePeer.fds.size = 2 := by decide
    refine ⟨by decide, ?_, ?_, .inr rfl⟩
    · rw [hsize]
      rfl
    · intro i h0 hi
      omega
  have hquiet : EachStep step Quiet noPeer [accepting 5, accepting 6] := by
    refine EachStep.of_forall fun s e he => ?_
    simp only [List.mem_cons, List.not_mem_nil, or_false] at he
    rcases he with rfl | rfl
    · exact quiet_accepting s 5
    · exact quiet_accepting s 6
  exact ⟨_, (Option.some_get hsome).symm,
    deaf_after_hangup hes hgone (Option.some_get _).symm hquiet (Option.some_get hsome).symm⟩

end Stale

end UckSmp.Netd
