import UckSmp.Lib.Transition
import UckSmp.Membership.Nodes

/-!
# The listener and the threads of the module

`UCK_IOC_SET_NODE` starts the listener, and after it the heartbeat and the load balancer; unloading the module stops
them. The call takes no lock around `uck_net_start_listener`, which tests `listen_sock` before it writes it, so several
calls can be inside at once. Every access to the shared state is a step, and so is every turn of a daemon's loop.

* `Step.of_step`: what a step can be.
* `Inv.step`: the invariant, which says of every phase of the call in charge, and of the unloading, what is there.
* `started_once_iff`: no socket and no thread is lost, and no call meets a socket that is not there, exactly while no
  call creates its socket over that of another call.
-/

namespace UckSmp.Threads

open Lib Lib.Transition UckSmp.Membership

/-! ## The shared state -/

abbrev Sock := Nat
abbrev Tid := Nat

inductive Daemon
  | listener
  | heartbeat
  | loadbal
  deriving DecidableEq, Repr

/-- The fields of `uck_state`, the sockets that are not released, and the threads that have not returned. -/
structure Globals where
  localNode : NodeInfo := {}
  initialized : Bool := false
  netRunning : Bool := false
  loadbalEnabled : Bool := false
  listenSock : Option Sock := none
  /-- `listen_thread`, `heartbeat_thread` and `loadbal_thread`. -/
  thread : Daemon → Option Tid := fun _ => none
  live : List Sock := []
  running : List (Daemon × Tid) := []
  fresh : Nat := 0
  /-- Connections that the listener handed to a thread. -/
  served : Nat := 0
  /-- The daemons that had returned when `kthread_stop` was called for them. -/
  stale : List Daemon := []

namespace Globals

variable (g : Globals)

def setThread (d : Daemon) (t : Option Tid) : Globals :=
  { g with thread := fun e => if e = d then t else g.thread e }

/-- `kthread_run`, whose result is stored in the daemon's field, and replaced by `NULL` when it is an error. -/
def kthreadRun (d : Daemon) (r : Int) : Globals :=
  if r < 0 then g.setThread d none
  else { g.setThread d (some g.fresh) with running := (d, g.fresh) :: g.running, fresh := g.fresh + 1 }

/-- `kthread_stop` for the thread in the daemon's field, if there is one. -/
def kthreadStop (d : Daemon) : Globals :=
  match g.thread d with
  | none => g
  | some t =>
    if (d, t) ∈ g.running then { g.setThread d none with running := g.running.erase (d, t) }
    else { g.setThread d none with stale := d :: g.stale }

/-- The socket in `listen_sock`, as long as it is not released. -/
def sock : Option Sock := g.listenSock.filter (· ∈ g.live)

end Globals

/-! ## Setting the node -/

def ebusy : Int := 16

/-- Where a call of `UCK_IOC_SET_NODE` is. An error that will be returned is kept. -/
inductive Phase
  | set
  | check
  | create
  | bind
  | listen
  | mark
  | spawn
  | unmark (ret : Int)
  | undo (ret : Int)
  | clear (ret : Int)
  | beat
  | balance
  | done (ret : Int)
  deriving DecidableEq, Repr

/-- One step of `UCK_IOC_SET_NODE` with `uck_net_start_listener`, `uck_heartbeat_init` and `uck_loadbal_init` in it, in
which the call of the kernel returns `r`. On a socket that is `NULL` or released there is no step. -/
def setNodeStep (g : Globals) (info : NodeInfo) (r : Int) : Phase → Option (Globals × Phase)
  | .set => some ({ g with localNode := info, initialized := true }, .check)
  | .check => some (g, if g.listenSock.isSome then .done (-ebusy) else .create)
  | .create =>
    if r < 0 then some (g, .done r)
    else some ({ g with listenSock := some g.fresh, live := g.fresh :: g.live, fresh := g.fresh + 1 }, .bind)
  | .bind => g.sock.map fun _ => (g, if r < 0 then .undo r else .listen)
  | .listen => g.sock.map fun _ => (g, if r < 0 then .undo r else .mark)
  | .mark => some ({ g with netRunning := true }, .spawn)
  | .spawn => some (g.kthreadRun .listener r, if r < 0 then .unmark r else .beat)
  | .unmark ret => some ({ g with netRunning := false }, .undo ret)
  | .undo ret => g.sock.map fun k => ({ g with live := g.live.erase k }, .clear ret)
  | .clear ret => some ({ g with listenSock := none }, .done ret)
  | .beat => some (g.kthreadRun .heartbeat r, .balance)
  | .balance => some ({ g with loadbalEnabled := true }.kthreadRun .loadbal r, .done 0)
  | .done _ => none

/-! ## Unloading -/

/-- Where `uck_exit` is, from `uck_loadbal_stop` to the end of `uck_net_stop`. -/
inductive Unload
  | loadbal
  | heartbeat
  | net
  | release
  | null
  | join
  | finished
  deriving DecidableEq, Repr

def unloadStep (g : Globals) : Unload → Option (Globals × Unload)
  | .loadbal => some ({ g with loadbalEnabled := false }.kthreadStop .loadbal, .heartbeat)
  | .heartbeat => some (g.kthreadStop .heartbeat, .net)
  | .net => some ({ g with netRunning := false }, .release)
  | .release => some ({ g with live := g.listenSock.elim g.live g.live.erase }, .null)
  | .null => some ({ g with listenSock := none }, .join)
  | .join => some (g.kthreadStop .listener, .finished)
  | .finished => none

/-! ## The system -/

structure Call where
  info : NodeInfo
  phase : Phase
  deriving DecidableEq, Repr

structure State where
  g : Globals := {}
  calls : List Call := []
  unload : Option Unload := none

/-- A call enters, or takes its next step; a daemon takes a turn, in which `kernel_accept` returns `r` to the listener;
`uck_exit` takes its next step. -/
inductive Event
  | call (info : NodeInfo)
  | go (i : Nat) (r : Int)
  | turn (d : Daemon) (t : Tid) (r : Int)
  | unload
  deriving DecidableEq, Repr

def Phase.isDone : Phase → Bool
  | .done _ => true
  | _ => false

/-- A turn of `uck_listener_thread`, `uck_heartbeat_thread` or `uck_loadbal_thread`. All three return when `net_running`
is false, and the listener when an accept fails. -/
def daemonTurn (g : Globals) (d : Daemon) (t : Tid) (r : Int) : Globals :=
  if g.netRunning = false ∨ (d = .listener ∧ r < 0) then { g with running := g.running.erase (d, t) }
  else if d = .listener then { g with served := g.served + 1 }
  else g

/-- An open device keeps the module loaded, so `uck_exit` begins when every call has returned. -/
def step (s : State) : Event → Option State
  | .call info => if s.unload = none then some { s with calls := s.calls ++ [⟨info, .set⟩] } else none
  | .go i r =>
    match s.calls[i]? with
    | none => none
    | some c => (setNodeStep s.g c.info r c.phase).map fun p =>
        { s with g := p.1, calls := s.calls.set i { c with phase := p.2 } }
  | .turn d t r => if (d, t) ∈ s.g.running then some { s with g := daemonTurn s.g d t r } else none
  | .unload =>
    match s.unload with
    | none => if s.calls.all fun c => c.phase.isDone then some { s with unload := some .loadbal } else none
    | some u => (unloadStep s.g u).map fun p => { s with g := p.1, unload := some p.2 }

/-- What a step does. -/
inductive Step (s : State) : Event → State → Prop
  | call (info : NodeInfo) (hup : s.unload = none) :
      Step s (.call info) { s with calls := s.calls ++ [⟨info, .set⟩] }
  | go {i : Nat} {r : Int} {c : Call} {g' : Globals} {ph' : Phase} (hi : s.calls[i]? = some c)
      (hstep : setNodeStep s.g c.info r c.phase = some (g', ph')) :
      Step s (.go i r) { s with g := g', calls := s.calls.set i { c with phase := ph' } }
  | turn {d : Daemon} {t : Tid} (r : Int) (ht : (d, t) ∈ s.g.running) :
      Step s (.turn d t r) { s with g := daemonTurn s.g d t r }
  | begin (hup : s.unload = none) (hdone : ∀ c ∈ s.calls, c.phase.isDone = true) :
      Step s .unload { s with unload := some .loadbal }
  | unload {u u' : Unload} {g' : Globals} (hdown : s.unload = some u) (hstep : unloadStep s.g u = some (g', u')) :
      Step s .unload { s with g := g', unload := some u' }

theorem Step.of_step {s t : State} {e : Event} (h : step s e = some t) : Step s e t := by
  cases e with
  | call info =>
    simp only [step] at h
    split at h
    · cases h
      exact .call info ‹_›
    · cases h
  | go i r =>
    simp only [step] at h
    split at h
    · cases h
    · rename_i c hi
      obtain ⟨⟨g', ph'⟩, hstep, rfl⟩ := Option.map_eq_some_iff.1 h
      exact .go hi hstep
  | turn d t r =>
    simp only [step] at h
    split at h
    · cases h
      exact .turn r ‹_›
    · cases h
  | unload =>
    simp only [step] at h
    split at h
    · split at h
      · rename_i hup hall
        cases h
        exact .begin hup fun c hc => List.all_eq_true.1 hall c hc
      · cases h
    · obtain ⟨⟨g', u'⟩, hstep, rfl⟩ := Option.map_eq_some_iff.1 h
      exact .unload ‹_› hstep

/-! ## What is wanted -/

/-- The call uses the socket in `listen_sock`. -/
def Phase.onSock : Phase → Bool
  | .bind | .listen | .undo _ => true
  | _ => false

/-- Nothing is lost: every socket that is not released and every thread that has not returned is found from `uck_state`.
A call that uses the socket finds it there, and one that is about to clear the field has released it. -/
structure Tracked (s : State) : Prop where
  socks : ∀ k ∈ s.g.live, s.g.listenSock = some k
  threads : ∀ p ∈ s.g.running, s.g.thread p.1 = some p.2
  uses : ∀ c ∈ s.calls, c.phase.onSock = true → s.g.sock.isSome = true
  clears : ∀ c ∈ s.calls, ∀ ret, c.phase = .clear ret → s.g.live = []

/-- A call that creates its socket finds none. -/
def Unraced (s : State) : Event → Prop
  | .go i r => ∀ c ∈ s.calls[i]?, c.phase = .create → 0 ≤ r → s.g.listenSock = none
  | _ => True

instance (s : State) : (e : Event) → Decidable (Unraced s e)
  | .call _ => .isTrue trivial
  | .go i _ => inferInstanceAs (Decidable (∀ c ∈ s.calls[i]?, _))
  | .turn _ _ _ => .isTrue trivial
  | .unload => .isTrue trivial

/-! ## Threads and their fields -/

/-- The fields lead to the threads. The heartbeat and the load balancer are there while `net_running` is true, so only
the listener returns by itself. -/
structure Kept (g : Globals) : Prop where
  tracked : ∀ p ∈ g.running, g.thread p.1 = some p.2
  alive : ∀ d t, d ≠ .listener → g.thread d = some t → (d, t) ∈ g.running ∧ g.netRunning = true
  nodup : g.running.Nodup
  stale : ∀ d ∈ g.stale, d = .listener

section Kept

variable {g : Globals} {d e : Daemon} {r : Int}

@[simp] theorem setThread_self (t : Option Tid) : (g.setThread d t).thread d = t := by
  simp [Globals.setThread]

theorem setThread_of_ne (t : Option Tid) (h : e ≠ d) : (g.setThread d t).thread e = g.thread e := by
  simp [Globals.setThread, h]

theorem kthreadRun_thread_of_ne (h : e ≠ d) : (g.kthreadRun d r).thread e = g.thread e := by
  unfold Globals.kthreadRun
  split
  · exact setThread_of_ne none h
  · exact setThread_of_ne (some g.fresh) h

@[simp] theorem kthreadRun_listenSock : (g.kthreadRun d r).listenSock = g.listenSock := by
  unfold Globals.kthreadRun
  split <;> rfl

@[simp] theorem kthreadRun_live : (g.kthreadRun d r).live = g.live := by
  unfold Globals.kthreadRun
  split <;> rfl

theorem le_kthreadRun_fresh : g.fresh ≤ (g.kthreadRun d r).fresh := by
  unfold Globals.kthreadRun
  split
  · exact Nat.le_refl _
  · exact Nat.le_succ _

theorem Kept.kthreadRun (h : Kept g) (hd : g.thread d = none) (hrun : d ≠ .listener → g.netRunning = true) :
    Kept (g.kthreadRun d r) := by
  have hfree : ∀ t, (d, t) ∉ g.running := by
    intro t ht
    rw [h.tracked _ ht] at hd
    cases hd
  unfold Globals.kthreadRun
  split
  · -- `kthread_run` failed: the field was `NULL` and is so again.
    have hsame : (g.setThread d none).thread = g.thread := by
      funext e
      by_cases hed : e = d
      · rw [hed, setThread_self, hd]
      · exact setThread_of_ne none hed
    refine ⟨?_, ?_, h.nodup, h.stale⟩
    · rw [hsame]
      exact h.tracked
    · rw [hsame]
      exact h.alive
  · refine ⟨?_, ?_, List.nodup_cons.2 ⟨hfree _, h.nodup⟩, h.stale⟩
    · intro p hp
      rcases List.mem_cons.1 hp with rfl | hold
      · exact setThread_self (some g.fresh)
      · have hne : p.1 ≠ d := by
          rintro rfl
          exact hfree p.2 hold
        exact (setThread_of_ne _ hne).trans (h.tracked p hold)
    · intro e t he ht
      by_cases hed : e = d
      · subst hed
        obtain rfl := Option.some.inj ((setThread_self (some g.fresh)).symm.trans ht)
        exact ⟨List.mem_cons_self, hrun he⟩
      · obtain ⟨hmem, hnet⟩ := h.alive e t he ((setThread_of_ne _ hed).symm.trans ht)
        exact ⟨List.mem_cons_of_mem _ hmem, hnet⟩

/-- `kthread_stop` leaves the field `NULL`, and the other daemons alone. -/
theorem kthreadStop_thread_self : (g.kthreadStop d).thread d = none := by
  unfold Globals.kthreadStop
  split
  · assumption
  · split
    · exact setThread_self none
    · exact setThread_self none

theorem kthreadStop_thread_of_ne (h : e ≠ d) : (g.kthreadStop d).thread e = g.thread e := by
  unfold Globals.kthreadStop
  split
  · rfl
  · split
    · exact setThread_of_ne none h
    · exact setThread_of_ne none h

@[simp] theorem kthreadStop_listenSock : (g.kthreadStop d).listenSock = g.listenSock := by
  unfold Globals.kthreadStop
  split
  · rfl
  · split <;> rfl

@[simp] theorem kthreadStop_live : (g.kthreadStop d).live = g.live := by
  unfold Globals.kthreadStop
  split
  · rfl
  · split <;> rfl

theorem Kept.kthreadStop (h : Kept g) (d : Daemon) : Kept (g.kthreadStop d) := by
  have hother : ∀ {t : Tid} {p : Daemon × Tid}, g.thread d = some t → p ∈ g.running → p ≠ (d, t) → p.1 ≠ d := by
    rintro t ⟨e, u⟩ ht hp hne rfl
    exact hne (congrArg _ (Option.some.inj ((h.tracked _ hp).symm.trans ht)))
  unfold Globals.kthreadStop
  split
  · exact h
  · rename_i t ht
    split
    · refine ⟨?_, ?_, h.nodup.erase _, h.stale⟩
      · intro p hp
        obtain ⟨hne, hp⟩ := (h.nodup.mem_erase_iff).1 hp
        exact (setThread_of_ne none (hother ht hp hne)).trans (h.tracked p hp)
      · intro e u he hu
        have hed : e ≠ d := by
          rintro rfl
          cases (setThread_self none).symm.trans hu
        obtain ⟨hmem, hnet⟩ := h.alive e u he ((setThread_of_ne none hed).symm.trans hu)
        exact ⟨(h.nodup.mem_erase_iff).2 ⟨fun heq => hed (congrArg Prod.fst heq), hmem⟩, hnet⟩
    · -- Only the listener can have returned.
      rename_i hgone
      have hd : d = .listener := by
        by_contra hne
        exact hgone (h.alive d t hne ht).1
      refine ⟨?_, ?_, h.nodup, ?_⟩
      · intro p hp
        have hne : p ≠ (d, t) := by
          rintro rfl
          exact hgone hp
        exact (setThread_of_ne none (hother ht hp hne)).trans (h.tracked p hp)
      · intro e u he hu
        have hed : e ≠ d := hd ▸ he
        exact h.alive e u he ((setThread_of_ne none hed).symm.trans hu)
      · intro e he
        rcases List.mem_cons.1 he with rfl | he
        · exact hd
        · exact h.stale e he

/-- A turn changes the threads that run and the connections served, and nothing else. -/
theorem daemonTurn_eq (t : Tid) :
    ∃ running served, daemonTurn g d t r = { g with running := running, served := served } := by
  unfold daemonTurn
  split
  · exact ⟨_, _, rfl⟩
  · split
    · exact ⟨_, _, rfl⟩
    · exact ⟨_, _, rfl⟩

theorem Kept.daemonTurn (h : Kept g) (t : Tid) : Kept (daemonTurn g d t r) := by
  unfold UckSmp.Threads.daemonTurn
  split
  · rename_i hend
    refine ⟨fun p hp => h.tracked p (List.mem_of_mem_erase hp), ?_, h.nodup.erase _, h.stale⟩
    intro e u he hu
    obtain ⟨hmem, hnet⟩ := h.alive e u he hu
    refine ⟨(h.nodup.mem_erase_iff).2 ⟨?_, hmem⟩, hnet⟩
    rintro heq
    rcases hend with hoff | ⟨hd, -⟩
    · cases hnet.symm.trans hoff
    · exact he ((congrArg Prod.fst heq).trans hd)
  · split
    · exact ⟨h.tracked, h.alive, h.nodup, h.stale⟩
    · exact h

end Kept

/-! ## The call that is in charge -/

/-- The call has put its socket in `listen_sock`, or has started the daemons. -/
def Phase.engaged : Phase → Bool
  | .set | .check | .create => false
  | .done ret => ret = 0
  | _ => true

/-- The phase of a call that is in charge. -/
def Call.charge (c : Call) : Option Phase := if c.phase.engaged then some c.phase else none

/-- The daemons that the call has still to start. -/
def Phase.unstarted : Phase → Daemon → Bool
  | .beat, d => d ≠ .listener
  | .balance, d => d = .loadbal
  | .done _, _ => false
  | _, _ => true

/-- The sockets that are not released, when `k` is in the field. -/
def Phase.holds : Phase → Sock → List Sock
  | .clear _, _ => []
  | _, k => [k]

/-- The error that the call will return. -/
def Phase.error : Phase → Option Int
  | .unmark ret | .undo ret | .clear ret => some ret
  | _ => none

/-- `net_running` is set. -/
def Phase.marked : Phase → Bool
  | .spawn | .beat | .balance | .done _ => true
  | _ => false

/-- The state while a call is in charge. -/
structure InCharge (g : Globals) (ph : Phase) : Prop where
  sock : ∃ k < g.fresh, g.listenSock = some k ∧ g.live = ph.holds k
  unstarted : ∀ d, ph.unstarted d = true → g.thread d = none
  error : ∀ ret ∈ ph.error, ret < 0
  marked : ph.marked = true → g.netRunning = true

/-- The state while a call is in charge, or none is. -/
def Fits (g : Globals) : Option Phase → Prop
  | none => g.listenSock = none ∧ g.live = [] ∧ ∀ d, g.thread d = none
  | some ph => InCharge g ph

section Charge

variable {g g' : Globals} {info : NodeInfo} {r : Int} {ph ph' : Phase} {o : Option Phase}

/-- Who is in charge after a step of a call. -/
def Phase.next (ph ph' : Phase) (o : Option Phase) : Option Phase :=
  if ph'.engaged then some ph' else if ph.engaged then none else o

theorem sock_of_fits {k : Sock} (hk : g.listenSock = some k) (hl : g.live = [k]) : g.sock = some k := by
  simp [Globals.sock, hk, hl]

/-- A phase that goes on with the same socket and the same daemons. -/
theorem InCharge.phase (h : InCharge g ph) (hholds : ph'.holds = ph.holds)
    (hstarted : ∀ d, ph'.unstarted d = true → ph.unstarted d = true) (hmarked : ph'.marked = true → ph.marked = true)
    (herr : ∀ ret ∈ ph'.error, ret < 0) : InCharge g ph' where
  sock := hholds ▸ h.sock
  unstarted d hd := h.unstarted d (hstarted d hd)
  error := herr
  marked hm := h.marked (hmarked hm)

@[simp] theorem kthreadRun_netRunning {d : Daemon} : (g.kthreadRun d r).netRunning = g.netRunning := by
  unfold Globals.kthreadRun
  split <;> rfl

/-- A daemon is started. -/
theorem InCharge.kthreadRun (h : InCharge g ph) (d : Daemon) (hholds : ph'.holds = ph.holds)
    (hstarted : ∀ e, ph'.unstarted e = true → e ≠ d ∧ ph.unstarted e = true)
    (hmarked : ph'.marked = true → ph.marked = true) (herr : ∀ ret ∈ ph'.error, ret < 0) :
    InCharge (g.kthreadRun d r) ph' where
  sock := by
    obtain ⟨k, hk, hsock, hlive⟩ := h.sock
    exact ⟨k, Nat.lt_of_lt_of_le hk le_kthreadRun_fresh, by simpa using hsock, by simpa [hholds] using hlive⟩
  unstarted e he := by
    obtain ⟨hed, hun⟩ := hstarted e he
    rw [kthreadRun_thread_of_ne hed]
    exact h.unstarted e hun
  error := herr
  marked hm := by simpa using h.marked (hmarked hm)

/-- A failed start of a daemon leaves its field `NULL`. -/
theorem InCharge.kthreadRun_fail (h : InCharge g ph) (d : Daemon) (hr : r < 0) :
    InCharge (g.kthreadRun d r) ph where
  sock := by
    obtain ⟨k, hk, hsock, hlive⟩ := h.sock
    exact ⟨k, Nat.lt_of_lt_of_le hk le_kthreadRun_fresh, by simpa using hsock, by simpa using hlive⟩
  unstarted e he := by
    by_cases hed : e = d
    · rw [Globals.kthreadRun, if_pos hr, hed, setThread_self]
    · rw [kthreadRun_thread_of_ne hed]
      exact h.unstarted e he
  error := h.error
  marked hm := by simpa using h.marked hm

theorem engaged_done_of_neg {ret : Int} (h : ret < 0) : (Phase.done ret).engaged = false := by
  simp only [Phase.engaged, decide_eq_false_iff_not]
  omega

/-! The phases of a call in which it creates its socket, is in charge and starts the daemons. -/

theorem create_fits (hg : Kept g) (hf : Fits g o) (hu : 0 ≤ r → g.listenSock = none)
    (hs : setNodeStep g info r .create = some (g', ph')) : Kept g' ∧ Fits g' (Phase.create.next ph' o) := by
  simp only [setNodeStep] at hs
  split at hs
  · rename_i hr
    cases hs
    rw [Phase.next, engaged_done_of_neg hr]
    exact ⟨hg, hf⟩
  · rename_i hr
    cases hs
    have hnone := hu (by omega)
    cases o with
    | some ph =>
      obtain ⟨k, -, hk, -⟩ := hf.sock
      cases hk.symm.trans hnone
    | none =>
      obtain ⟨-, hlive, hthread⟩ := hf
      refine ⟨⟨hg.tracked, hg.alive, hg.nodup, hg.stale⟩, ⟨g.fresh, Nat.lt_succ_self _, rfl, ?_⟩, ?_, nofun, nofun⟩
      · show g.fresh :: g.live = [g.fresh]
        rw [hlive]
      · exact fun d _ => hthread d

/-- The two calls on the socket that can fail. -/
theorem onSocket_fits (hph : ph = .bind ∨ ph = .listen) (hg : Kept g) (hf : InCharge g ph)
    (hs : setNodeStep g info r ph = some (g', ph')) : Kept g' ∧ Fits g' (ph.next ph' (some ph)) := by
  rcases hph with rfl | rfl
  all_goals
    obtain ⟨k, -, hs⟩ := Option.map_eq_some_iff.1 hs
    cases hs
    refine ⟨hg, ?_⟩
    split
    · rename_i hr
      exact hf.phase rfl (fun _ hd => hd) nofun (by simpa [Phase.error] using hr)
    · exact hf.phase rfl (fun _ hd => hd) nofun nofun

theorem mark_fits (hg : Kept g) (hf : InCharge g .mark) (hs : setNodeStep g info r .mark = some (g', ph')) :
    Kept g' ∧ Fits g' (Phase.mark.next ph' (some .mark)) := by
  cases hs
  exact ⟨⟨hg.tracked, fun d t hd ht => ⟨(hg.alive d t hd ht).1, rfl⟩, hg.nodup, hg.stale⟩,
    hf.sock, hf.unstarted, nofun, fun _ => rfl⟩

theorem spawn_fits (hg : Kept g) (hf : InCharge g .spawn) (hs : setNodeStep g info r .spawn = some (g', ph')) :
    Kept g' ∧ Fits g' (Phase.spawn.next ph' (some .spawn)) := by
  cases hs
  refine ⟨hg.kthreadRun (hf.unstarted .listener rfl) (absurd rfl), ?_⟩
  split
  · rename_i hr
    exact (hf.kthreadRun_fail .listener hr).phase rfl (fun _ hd => hd) nofun (by simpa [Phase.error] using hr)
  · exact hf.kthreadRun .listener rfl (fun e he => ⟨by simpa [Phase.unstarted] using he, rfl⟩) id nofun

/-- No daemon is there yet that would return. -/
theorem unmark_fits {ret : Int} (hg : Kept g) (hf : InCharge g (.unmark ret))
    (hs : setNodeStep g info r (.unmark ret) = some (g', ph')) :
    Kept g' ∧ Fits g' (Phase.next (.unmark ret) ph' (some (.unmark ret))) := by
  cases hs
  refine ⟨⟨hg.tracked, ?_, hg.nodup, hg.stale⟩, hf.sock, hf.unstarted, hf.error, nofun⟩
  intro d t _ ht
  cases (hf.unstarted d rfl).symm.trans ht

theorem undo_fits {ret : Int} (hg : Kept g) (hf : InCharge g (.undo ret))
    (hs : setNodeStep g info r (.undo ret) = some (g', ph')) :
    Kept g' ∧ Fits g' (Phase.next (.undo ret) ph' (some (.undo ret))) := by
  obtain ⟨k, hk, hsock, hlive⟩ := hf.sock
  obtain ⟨k', hk', hs⟩ := Option.map_eq_some_iff.1 hs
  cases (sock_of_fits hsock hlive).symm.trans hk'
  cases hs
  refine ⟨⟨hg.tracked, hg.alive, hg.nodup, hg.stale⟩, ⟨k, hk, hsock, ?_⟩, hf.unstarted, hf.error, nofun⟩
  show g.live.erase k = []
  rw [hlive]
  simp [Phase.holds]

theorem clear_fits {ret : Int} (hg : Kept g) (hf : InCharge g (.clear ret))
    (hs : setNodeStep g info r (.clear ret) = some (g', ph')) :
    Kept g' ∧ Fits g' (Phase.next (.clear ret) ph' (some (.clear ret))) := by
  cases hs
  obtain ⟨k, hk, hsock, hlive⟩ := hf.sock
  rw [Phase.next, engaged_done_of_neg (hf.error ret rfl)]
  exact ⟨⟨hg.tracked, hg.alive, hg.nodup, hg.stale⟩, rfl, hlive, fun d => hf.unstarted d rfl⟩

theorem beat_fits (hg : Kept g) (hf : InCharge g .beat) (hs : setNodeStep g info r .beat = some (g', ph')) :
    Kept g' ∧ Fits g' (Phase.beat.next ph' (some .beat)) := by
  cases hs
  refine ⟨hg.kthreadRun (hf.unstarted .heartbeat rfl) fun _ => hf.marked rfl, ?_⟩
  refine hf.kthreadRun .heartbeat rfl (fun e he => ?_) id nofun
  cases of_decide_eq_true he
  exact ⟨nofun, rfl⟩

theorem balance_fits (hg : Kept g) (hf : InCharge g .balance) (hs : setNodeStep g info r .balance = some (g', ph')) :
    Kept g' ∧ Fits g' (Phase.balance.next ph' (some .balance)) := by
  cases hs
  have hkept : Kept { g with loadbalEnabled := true } := ⟨hg.tracked, hg.alive, hg.nodup, hg.stale⟩
  have hcharge : InCharge { g with loadbalEnabled := true } .balance := ⟨hf.sock, hf.unstarted, hf.error, hf.marked⟩
  exact ⟨hkept.kthreadRun (hf.unstarted .loadbal rfl) fun _ => hf.marked rfl,
    hcharge.kthreadRun .loadbal rfl nofun id nofun⟩

/-- **One step of a call** keeps the threads found, and the state what the call in charge makes of it. -/
theorem setNodeStep_fits (hg : Kept g) (hf : Fits g o) (ho : ph.engaged = true → o = some ph)
    (hu : ph = .create → 0 ≤ r → g.listenSock = none) (hs : setNodeStep g info r ph = some (g', ph')) :
    Kept g' ∧ Fits g' (ph.next ph' o) := by
  cases ph with
  | set =>
    cases hs
    refine ⟨⟨hg.tracked, hg.alive, hg.nodup, hg.stale⟩, ?_⟩
    cases o with
    | none => exact hf
    | some ph => exact ⟨hf.sock, hf.unstarted, hf.error, hf.marked⟩
  | check =>
    cases hs
    refine ⟨hg, ?_⟩
    split <;> exact hf
  | create => exact create_fits hg hf (hu rfl) hs
  | done ret => cases hs
  -- in the other phases the call is in charge
  | bind => obtain rfl := ho rfl; exact onSocket_fits (.inl rfl) hg hf hs
  | listen => obtain rfl := ho rfl; exact onSocket_fits (.inr rfl) hg hf hs
  | mark => obtain rfl := ho rfl; exact mark_fits hg hf hs
  | spawn => obtain rfl := ho rfl; exact spawn_fits hg hf hs
  | unmark ret => obtain rfl := ho rfl; exact unmark_fits hg hf hs
  | undo ret => obtain rfl := ho rfl; exact undo_fits hg hf hs
  | clear ret => obtain rfl := ho rfl; exact clear_fits hg hf hs
  | beat => obtain rfl := ho rfl; exact beat_fits hg hf hs
  | balance => obtain rfl := ho rfl; exact balance_fits hg hf hs

/-- A call gets in charge when it creates its socket, and finds nobody there. -/
theorem none_of_engages (hf : Fits g o) (hu : ph = .create → 0 ≤ r → g.listenSock = none)
    (hs : setNodeStep g info r ph = some (g', ph')) (hph : ph.engaged = false) (hph' : ph'.engaged = true) :
    o = none := by
  cases ph with
  | set =>
    cases hs
    cases hph'
  | check =>
    cases hs
    split at hph'
    · cases hph'
    · cases hph'
  | create =>
    simp only [setNodeStep] at hs
    split at hs
    · rename_i hr
      cases hs
      rw [engaged_done_of_neg hr] at hph'
      cases hph'
    · rename_i hr
      have hnone := hu rfl (by omega)
      cases o with
      | none => rfl
      | some ph =>
        obtain ⟨k, -, hk, -⟩ := hf.sock
        cases hk.symm.trans hnone
  | done ret => cases hs
  | _ => cases hph

end Charge

section Calls

variable {calls : List Call} {i : Nat} {c c' : Call} {o : Option Phase}

theorem charge_of_engaged (h : c.phase.engaged = true) : c.charge = some c.phase := if_pos h

theorem charge_of_not_engaged (h : c.phase.engaged = false) : c.charge = none := if_neg (by simp [h])

theorem filterMap_charge (hi : calls[i]? = some c) :
    calls.filterMap Call.charge =
      (calls.take i).filterMap Call.charge ++ (c.charge.toList ++ (calls.drop (i + 1)).filterMap Call.charge) := by
  obtain ⟨hlt, rfl⟩ := List.getElem?_eq_some_iff.1 hi
  conv_lhs => rw [← List.take_append_drop i calls, List.drop_eq_getElem_cons hlt]
  rw [List.filterMap_append, List.filterMap_cons]
  cases calls[i].charge <;> rfl

theorem filterMap_charge_set (hi : calls[i]? = some c) :
    (calls.set i c').filterMap Call.charge =
      (calls.take i).filterMap Call.charge ++ (c'.charge.toList ++ (calls.drop (i + 1)).filterMap Call.charge) := by
  obtain ⟨hlt, -⟩ := List.getElem?_eq_some_iff.1 hi
  have hset : (calls.set i c')[i]? = some c' := by simp [hlt]
  have htake : (calls.set i c').take i = calls.take i := by simp [List.take_set_of_le]
  have hdrop : (calls.set i c').drop (i + 1) = calls.drop (i + 1) := by simp [List.drop_set_of_lt]
  rw [filterMap_charge hset, htake, hdrop]

/-- The call in charge is the only one. -/
theorem eq_of_engaged (hi : calls[i]? = some c) (ho : calls.filterMap Call.charge = o.toList)
    (hc : c.phase.engaged = true) : o = some c.phase ∧ (calls.take i).filterMap Call.charge = [] ∧
      (calls.drop (i + 1)).filterMap Call.charge = [] := by
  rw [filterMap_charge hi, charge_of_engaged hc] at ho
  cases o with
  | none => simp at ho
  | some ph =>
    have hlen := congrArg List.length ho
    simp only [List.length_append, Option.toList_some, List.length_singleton] at hlen
    have hpre := List.length_eq_zero_iff.1 (show ((calls.take i).filterMap Call.charge).length = 0 by omega)
    have hpost := List.length_eq_zero_iff.1 (show ((calls.drop (i + 1)).filterMap Call.charge).length = 0 by omega)
    rw [hpre, hpost] at ho
    simp only [Option.toList_some, List.nil_append, List.append_nil, List.cons.injEq, and_true] at ho
    exact ⟨congrArg some ho.symm, hpre, hpost⟩

/-- The call in charge after a step of one of the calls. -/
theorem charge_set (hi : calls[i]? = some c) (ho : calls.filterMap Call.charge = o.toList)
    (hnew : c.phase.engaged = false → c'.phase.engaged = true → o = none) :
    (calls.set i c').filterMap Call.charge = (c.phase.next c'.phase o).toList := by
  rw [filterMap_charge_set hi]
  cases hc : c.phase.engaged with
  | true =>
    obtain ⟨-, hpre, hpost⟩ := eq_of_engaged hi ho hc
    rw [hpre, hpost, List.nil_append, List.append_nil]
    simp only [Call.charge, Phase.next, hc, if_true]
  | false =>
    rw [filterMap_charge hi, charge_of_not_engaged hc] at ho
    cases hc' : c'.phase.engaged with
    | true =>
      obtain rfl := hnew hc hc'
      obtain ⟨hpre, hpost⟩ := List.append_eq_nil_iff.1 ho
      rw [hpre, List.nil_append, (List.append_eq_nil_iff.1 hpost).2, List.append_nil]
      simp [Call.charge, Phase.next, hc']
    | false =>
      rw [charge_of_not_engaged hc', ho]
      simp [Phase.next, hc, hc']

end Calls

/-! ## Unloading -/

/-- The daemons that are stopped. -/
def Unload.stopped : Unload → Daemon → Bool
  | .loadbal, _ => false
  | .heartbeat, d => d = .loadbal
  | .finished, _ => true
  | _, d => d ≠ .listener

/-- The sockets that are not released. -/
def Unload.holds : Unload → Option Sock → List Sock
  | .null, _ | .join, _ | .finished, _ => []
  | _, o => o.toList

def Unload.cleared : Unload → Bool
  | .join | .finished => true
  | _ => false

/-- The state while the module is unloaded. -/
structure Closing (g : Globals) (u : Unload) : Prop where
  live : g.live = u.holds g.listenSock
  cleared : u.cleared = true → g.listenSock = none
  stopped : ∀ d, u.stopped d = true → g.thread d = none

section Unload

variable {g g' : Globals} {u u' : Unload}

theorem Closing.kthreadStop (h : Closing g u) (d : Daemon) (hholds : u'.holds = u.holds)
    (hcleared : u'.cleared = true → u.cleared = true)
    (hstopped : ∀ e, u'.stopped e = true → e = d ∨ u.stopped e = true) : Closing (g.kthreadStop d) u' where
  live := by rw [kthreadStop_live, kthreadStop_listenSock, h.live, hholds]
  cleared hu := by rw [kthreadStop_listenSock, h.cleared (hcleared hu)]
  stopped e he := by
    by_cases hed : e = d
    · rw [hed, kthreadStop_thread_self]
    · rw [kthreadStop_thread_of_ne hed, h.stopped e ((hstopped e he).resolve_left hed)]

theorem unloadStep_closing (hg : Kept g) (h : Closing g u) (hs : unloadStep g u = some (g', u')) :
    Kept g' ∧ Closing g' u' := by
  cases u with
  | loadbal =>
    cases hs
    have hkept : Kept { g with loadbalEnabled := false } := ⟨hg.tracked, hg.alive, hg.nodup, hg.stale⟩
    have hclosing : Closing { g with loadbalEnabled := false } .loadbal := ⟨h.live, h.cleared, h.stopped⟩
    exact ⟨hkept.kthreadStop _, hclosing.kthreadStop _ rfl id fun e he => .inl (of_decide_eq_true he)⟩
  | heartbeat =>
    cases hs
    refine ⟨hg.kthreadStop _, h.kthreadStop _ rfl id fun e he => ?_⟩
    cases e with
    | listener => cases he
    | heartbeat => exact .inl rfl
    | loadbal => exact .inr rfl
  | net =>
    cases hs
    -- The daemons that would return are stopped.
    refine ⟨⟨hg.tracked, ?_, hg.nodup, hg.stale⟩, h.live, nofun, h.stopped⟩
    intro d t hd ht
    cases (h.stopped d (decide_eq_true hd)).symm.trans ht
  | release =>
    cases hs
    refine ⟨⟨hg.tracked, hg.alive, hg.nodup, hg.stale⟩, ?_, nofun, h.stopped⟩
    show g.listenSock.elim g.live g.live.erase = []
    rw [h.live]
    cases hk : g.listenSock with
    | none => rfl
    | some k => simp [Unload.holds]
  | null =>
    cases hs
    exact ⟨⟨hg.tracked, hg.alive, hg.nodup, hg.stale⟩, h.live, fun _ => rfl, h.stopped⟩
  | join =>
    cases hs
    refine ⟨hg.kthreadStop _, h.kthreadStop _ rfl id fun e _ => ?_⟩
    by_cases he : e = .listener
    · exact .inl he
    · exact .inr (decide_eq_true he)
  | finished => cases hs

end Unload

/-! ## Runs -/

/-- What the steps keep, while the module is up and while it is unloaded. -/
inductive Inv (s : State) : Prop
  | up {o : Option Phase} (hup : s.unload = none) (ho : s.calls.filterMap Call.charge = o.toList) (hg : Kept s.g)
      (hf : Fits s.g o)
  | down {u : Unload} (hdown : s.unload = some u) (hdone : ∀ c ∈ s.calls, c.phase.isDone = true) (hg : Kept s.g)
      (hc : Closing s.g u)

section Runs

variable {s t : State} {e : Event}

theorem Inv.init : Inv {} :=
  .up (o := none) rfl rfl ⟨nofun, nofun, List.nodup_nil, nofun⟩ ⟨rfl, rfl, fun _ => rfl⟩

theorem Inv.kept (h : Inv s) : Kept s.g := by
  cases h with
  | up _ _ hg _ => exact hg
  | down _ _ hg _ => exact hg

/-- A call that has returned takes no step. -/
theorem setNodeStep_of_isDone {g : Globals} {info : NodeInfo} {r : Int} {ph : Phase} (h : ph.isDone = true) :
    setNodeStep g info r ph = none := by
  cases ph with
  | done ret => rfl
  | _ => cases h

theorem Inv.go (h : Inv s) {i : Nat} {r : Int} {c : Call} {g' : Globals} {ph' : Phase} (hi : s.calls[i]? = some c)
    (hstep : setNodeStep s.g c.info r c.phase = some (g', ph'))
    (hu : c.phase = .create → 0 ≤ r → s.g.listenSock = none) :
    Inv { s with g := g', calls := s.calls.set i { c with phase := ph' } } := by
  cases h with
  | up hup ho hg hf =>
    obtain ⟨hg', hf'⟩ := setNodeStep_fits hg hf (fun hc => (eq_of_engaged hi ho hc).1) hu hstep
    exact .up hup (charge_set hi ho (none_of_engages hf hu hstep)) hg' hf'
  | down hdown hdone hg hc =>
    rw [setNodeStep_of_isDone (hdone c (List.mem_of_getElem? hi))] at hstep
    cases hstep

theorem Inv.turn (h : Inv s) (d : Daemon) (t : Tid) (r : Int) : Inv { s with g := daemonTurn s.g d t r } := by
  have hkept := h.kept.daemonTurn (d := d) (r := r) t
  obtain ⟨running, served, hturn⟩ := daemonTurn_eq (g := s.g) (d := d) (r := r) t
  rw [hturn] at hkept ⊢
  cases h with
  | @up o hup ho _ hf =>
    refine .up hup ho hkept ?_
    cases o with
    | none => exact hf
    | some ph => exact ⟨hf.sock, hf.unstarted, hf.error, hf.marked⟩
  | down hdown hdone _ hc => exact .down hdown hdone hkept ⟨hc.live, hc.cleared, hc.stopped⟩

/-- When every call has returned, the listener's socket is in its field. -/
theorem Inv.begin (h : Inv s) (hup : s.unload = none) (hdone : ∀ c ∈ s.calls, c.phase.isDone = true) :
    Inv { s with unload := some .loadbal } := by
  refine .down rfl hdone h.kept ⟨?_, nofun, nofun⟩
  cases h with
  | @up o _ ho _ hf =>
    cases o with
    | none =>
      obtain ⟨hsock, hlive, -⟩ := hf
      simp only [hsock, hlive, Unload.holds, Option.toList_none]
    | some ph =>
      obtain ⟨k, -, hsock, hlive⟩ := hf.sock
      have hmem : ph ∈ s.calls.filterMap Call.charge := by simp [ho]
      obtain ⟨c, hc, hph⟩ := List.mem_filterMap.1 hmem
      have hret := hdone c hc
      simp only [Call.charge, Option.ite_none_right_eq_some, Option.some.injEq] at hph
      rw [hph.2] at hret
      have hholds : ph.holds k = [k] := by
        cases ph with
        | clear ret => cases hret
        | _ => rfl
      simp only [hsock, hlive, hholds, Unload.holds, Option.toList_some]
  | down hdown _ _ _ =>
    rw [hup] at hdown
    cases hdown

/-- **One step** of the system. -/
theorem Inv.step (h : Inv s) (hu : Unraced s e) (hs : step s e = some t) : Inv t := by
  cases Step.of_step hs with
  | call info hup =>
    cases h with
    | up _ ho hg hf => exact .up hup (by simpa [Call.charge, Phase.engaged] using ho) hg hf
    | down hdown _ _ _ => cases hup.symm.trans hdown
  | go hi hstep => exact h.go hi hstep (hu _ hi)
  | turn r ht => exact h.turn _ _ r
  | begin hup hdone => exact h.begin hup hdone
  | unload hdown hstep =>
    cases h with
    | up hup _ _ _ => cases hup.symm.trans hdown
    | down hdown' hdone hg hc =>
      cases hdown.symm.trans hdown'
      obtain ⟨hg', hc'⟩ := unloadStep_closing hg hc hstep
      exact .down rfl hdone hg' hc'

theorem engaged_of_onSock {ph : Phase} (h : ph.onSock = true) : ph.engaged = true := by
  cases ph <;> first | rfl | cases h

theorem holds_of_onSock {ph : Phase} (h : ph.onSock = true) (k : Sock) : ph.holds k = [k] := by
  cases ph <;> first | rfl | cases h

theorem isDone_of_onSock {ph : Phase} (h : ph.onSock = true) : ph.isDone = false := by
  cases ph <;> first | rfl | cases h

theorem Inv.tracked (h : Inv s) : Tracked s := by
  cases h with
  | @up o hup ho hg hf =>
    have hcharge : ∀ c ∈ s.calls, c.phase.engaged = true → o = some c.phase := by
      intro c hc heng
      obtain ⟨i, hi⟩ := List.mem_iff_getElem?.1 hc
      exact (eq_of_engaged hi ho heng).1
    refine ⟨?_, hg.tracked, ?_, ?_⟩
    · intro k hk
      cases o with
      | none =>
        rw [hf.2.1] at hk
        cases hk
      | some ph =>
        obtain ⟨k', -, hsock, hlive⟩ := hf.sock
        rw [hlive] at hk
        cases ph with
        | clear ret => cases hk
        | _ => rw [hsock, List.mem_singleton.1 hk]
    · intro c hc hon
      obtain rfl := hcharge c hc (engaged_of_onSock hon)
      obtain ⟨k, -, hsock, hlive⟩ := hf.sock
      rw [sock_of_fits hsock (hlive.trans (holds_of_onSock hon k))]
      rfl
    · intro c hc ret hret
      have heng : c.phase.engaged = true := by rw [hret]; rfl
      obtain rfl := hcharge c hc heng
      obtain ⟨k, -, -, hlive⟩ := hf.sock
      rw [hlive, hret]
      rfl
  | @down u hdown hdone hg hc =>
    refine ⟨?_, hg.tracked, ?_, ?_⟩
    · intro k hk
      have hmem : k ∈ s.g.listenSock.toList := by
        rw [hc.live] at hk
        cases u <;> first | exact hk | cases hk
      exact Option.mem_toList.1 hmem
    · intro c hmem hon
      have hdn := hdone c hmem
      rw [isDone_of_onSock hon] at hdn
      cases hdn
    · intro c hmem ret hret
      have hdn := hdone c hmem
      rw [hret] at hdn
      cases hdn

/-- A socket that is created over another one is the end of the order. -/
theorem Inv.unraced_of_tracked (h : Inv s) (hs : UckSmp.Threads.step s e = some t) (ht : Tracked t) :
    Unraced s e := by
  cases e with
  | go i r =>
    intro c hi hcreate hr
    have hi : s.calls[i]? = some c := hi
    have hstep : UckSmp.Threads.step s (.go i r) = some { s with
        g := { s.g with listenSock := some s.g.fresh, live := s.g.fresh :: s.g.live, fresh := s.g.fresh + 1 },
        calls := s.calls.set i { c with phase := .bind } } := by
      have hneg : ¬ r < 0 := by omega
      simp only [UckSmp.Threads.step, hi, hcreate, setNodeStep, if_neg hneg, Option.map_some]
    cases hstep.symm.trans hs
    cases h with
    | @up o hup ho hg hf =>
      cases o with
      | none => exact hf.1
      | some ph =>
        obtain ⟨k, hk, hsock, hlive⟩ := hf.sock
        by_cases hclear : ∃ ret, ph = .clear ret
        · -- The call in charge will clear the new socket's field.
          obtain ⟨ret, rfl⟩ := hclear
          have hmem : .clear ret ∈ s.calls.filterMap Call.charge := by simp [ho]
          obtain ⟨c', hc', hph⟩ := List.mem_filterMap.1 hmem
          simp only [Call.charge, Option.ite_none_right_eq_some, Option.some.injEq] at hph
          obtain ⟨j, hj⟩ := List.mem_iff_getElem?.1 hc'
          have hij : i ≠ j := by
            rintro rfl
            cases hi.symm.trans hj
            rw [hcreate] at hph
            cases hph.2
          have hkept : (s.calls.set i { c with phase := .bind })[j]? = some c' := by
            rw [List.getElem?_set_ne hij, hj]
          cases ht.clears c' (List.mem_of_getElem? hkept) ret hph.2
        · -- The call in charge loses its socket.
          have hholds : ph.holds k = [k] := by
            cases ph with
            | clear ret => exact absurd ⟨ret, rfl⟩ hclear
            | _ => rfl
          have hmem : k ∈ s.g.fresh :: s.g.live := by simp [hlive, hholds]
          have hfresh : s.g.fresh = k := Option.some.inj (ht.socks k hmem)
          omega
    | down hdown hdone hg hc =>
      have hdn := hdone c (List.mem_of_getElem? hi)
      rw [hcreate] at hdn
      cases hdn
  | _ => trivial

/-- **Started once**: whatever calls set the node, in whatever interleaving and with whatever failures, with the
listener and the unloading of the module beside them, nothing is lost and no call meets a socket that is not there,
exactly if no call creates its socket while another one is in `listen_sock`. -/
theorem started_once_iff (es : List Event) : Always step Tracked {} es ↔ EachStep step Unraced {} es := by
  refine always_iff_of_inv Inv (H := fun _ _ => True) (fun s h => h.tracked) ?_ ?_ .init
    (.of_forall fun _ _ _ => trivial)
  · exact fun s e t h _ hs => ⟨fun hu => h.step hu hs, h.unraced_of_tracked hs⟩
  · intro s e hs
    cases e with
    | go i r =>
      intro c hi hcreate hr
      have hi : s.calls[i]? = some c := hi
      have hneg : ¬ r < 0 := by omega
      simp [step, hi, hcreate, setNodeStep, if_neg hneg] at hs
    | _ => trivial

/-- Two calls that have both found no listener: the first one's socket is lost, and the second one's is released by
the first. -/
example : (run step {} [.call { nodeId := 1 }, .call { nodeId := 1 }, .go 0 0, .go 1 0, .go 0 0, .go 1 0, .go 0 0,
    .go 1 0, .go 0 (-98), .go 0 0]).map (fun s => (s.g.listenSock, s.g.live)) = some (some 1, [0]) := by decide

theorem Inv.of_run {es : List Event} (hg : EachStep UckSmp.Threads.step Unraced {} es)
    (hr : run UckSmp.Threads.step {} es = some s) : Inv s :=
  (Always.of_eachStep Inv (fun _ _ _ h hu hs => h.step hu hs) (fun _ h => h) .init hg).last hr

end Runs

end UckSmp.Threads
