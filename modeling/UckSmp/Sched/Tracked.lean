import Mathlib.Data.List.Basic
import Mathlib.Logic.Function.Basic
import UckSmp.Lib.Slots
import UckSmp.Lib.Transition
import UckSmp.Sched.Place

/-!
# The processes that opted into SMP

The table of tracked pids (`uck_hyper.c`) beside the tasks of the machine. A task gets an entry when someone asks for
it, or when it is the child of a tracked one: the return probe of `kernel_clone` adds it, in the parent and at a time
when the child may have run already. The probe of `do_exit` takes an entry away. One step is one critical section under
`uck_tracked_lock`, or a fork. Which allocations succeed, whether a probe has a free instance and what the node table
holds is in the events.

The `serial` of a task tells the tasks apart that have a pid one after the other, and an entry keeps the one that had
its pid when it was made; no decision depends on either.

* `Exact`: the table has one entry for each pid, and no entry outlives its task.
* `exact_iff`: the runs along which it is so.
* `stale_entry`: one along which it is not.
-/

namespace UckSmp.Sched

open Lib Lib.Transition UckSmp.Membership

abbrev Pid := UInt32

/-! ## State -/

/-- A task of the machine. -/
structure Proc where
  tgid : Pid
  serial : Nat
  /-- The child of a fork whose return probe has not run yet. -/
  returning : Option Pid := none
  deriving DecidableEq, Repr

/-- `struct uck_tracked_proc`. -/
structure TrackedProc where
  pid : Pid
  tgid : Pid
  forkCount : Int32 := 0
  /-- The task that had the pid when the entry was made. -/
  since : Option Nat
  deriving DecidableEq, Repr

def TrackedProc.countFork (tp : TrackedProc) : TrackedProc := { tp with forkCount := tp.forkCount + 1 }

/-- The tasks, the table and the migrations that were queued. -/
structure Hyper where
  procs : Pid → Option Proc
  tracked : List TrackedProc := []
  migrations : List (Pid × UInt32) := []
  nextSerial : Nat

/-- What the return probe of a fork finds. -/
structure ForkEnv where
  initialized : Bool
  localNode : UInt32
  nodes : List RemoteNode
  maxTasksPerNode : UInt32
  /-- Whether there is memory for the entry of the child, and for the work. -/
  alloc : Bool
  allocWork : Bool
  deriving DecidableEq, Repr

inductive Event
  /-- The `UCK_IOC_ENABLE_SMP` ioctl of a task, for itself if `pid` is 0. -/
  | enable (caller pid : Pid) (alloc : Bool)
  /-- A new task, of the same group if it is a thread. `probed` says whether the return probe had a free instance. -/
  | fork (parent child : Pid) (thread probed : Bool)
  /-- The return probe of the parent. -/
  | forkReturn (parent : Pid) (env : ForkEnv)
  | exit (pid : Pid)
  deriving DecidableEq, Repr

namespace Hyper

/-! ## Code -/

/-- `uck_find_tracked`: the last one added, if there are several. -/
def uckFindTracked (s : Hyper) (pid : Pid) : Option Nat := Slots.slotOf TrackedProc.pid s.tracked pid

/-- The task that has a pid. -/
def holder (s : Hyper) (pid : Pid) : Option Nat := (s.procs pid).map (·.serial)

/-- `hash_add` of a new entry. -/
def hashAdd (s : Hyper) (pid : Pid) : Hyper :=
  { s with tracked := { pid, tgid := pid, since := s.holder pid } :: s.tracked }

/-- `uck_hyper_register_pid`. -/
def uckHyperRegisterPid (s : Hyper) (pid : Pid) (alloc : Bool) : Hyper :=
  match s.uckFindTracked pid with
  | some _ => s
  | none => if alloc then s.hashAdd pid else s

/-- `uck_hyper_unregister_pid`. -/
def uckHyperUnregisterPid (s : Hyper) (pid : Pid) : Hyper :=
  { s with tracked := s.tracked.eraseP fun tp => tp.pid = pid }

/-- The entry that makes a fork one of a tracked task: its own one, or the one of its thread group. -/
def forkEntry (s : Hyper) (parent : Pid) : Option Nat :=
  match s.uckFindTracked parent with
  | some i => some i
  | none => (s.procs parent).bind fun task => s.uckFindTracked task.tgid

/-- The fork is counted. -/
def countFork (s : Hyper) (i : Nat) : Hyper := { s with tracked := s.tracked.modify i TrackedProc.countFork }

/-- `uck_hyper_should_distribute`, with the state it leaves. -/
def uckHyperShouldDistribute (s : Hyper) (env : ForkEnv) (parent child : Pid) : Hyper × Bool :=
  if !env.initialized || env.nodes.length = 0 then (s, false)
  else
    match s.forkEntry parent with
    | none => (s, false)
    | some i =>
      let s := s.countFork i
      -- the first fork stays local
      let distribute := decide (∃ tp ∈ s.tracked[i]?, 1 < tp.forkCount)
      (if env.alloc then s.hashAdd child else s, distribute)

/-- `uck_hyper_schedule_migration`. -/
def uckHyperScheduleMigration (s : Hyper) (alloc : Bool) (child : Pid) (destNode : UInt32) : Hyper :=
  if alloc then { s with migrations := s.migrations ++ [(child, destNode)] } else s

/-- `uck_fork_handler`. -/
def uckForkHandler (s : Hyper) (env : ForkEnv) (parent child : Pid) : Hyper :=
  match s.uckHyperShouldDistribute env parent child with
  | (s, false) => s
  | (s, true) =>
    let destNode := uckHyperPickNode env.nodes env.maxTasksPerNode
    if destNode = 0 ∨ destNode = env.localNode then s
    else s.uckHyperScheduleMigration env.allocWork child destNode

def setProc (s : Hyper) (pid : Pid) (p : Option Proc) : Hyper := { s with procs := Function.update s.procs pid p }

/-- A new task. -/
def spawn (s : Hyper) (child tgid : Pid) : Hyper :=
  { s with
    procs := Function.update s.procs child (some { tgid, serial := s.nextSerial })
    nextSerial := s.nextSerial + 1 }

/-- There is a task with the pid, and it is not in a fork. -/
def Idle (s : Hyper) (pid : Pid) : Prop := ∃ p ∈ s.procs pid, p.returning = none

instance (s : Hyper) (pid : Pid) : Decidable (s.Idle pid) := inferInstanceAs (Decidable (∃ p ∈ s.procs pid, _))

/-- The pid that `UCK_IOC_ENABLE_SMP` is about. -/
def enabled (caller pid : Pid) : Pid := if pid = 0 then caller else pid

/-- A task whose fork has not returned takes no other step. -/
def step (s : Hyper) : Event → Option Hyper
  | .enable caller pid alloc =>
    if s.Idle caller then some (s.uckHyperRegisterPid (enabled caller pid) alloc) else none
  | .fork parent child thread probed =>
    match s.procs parent with
    | none => none
    | some p =>
      if p.returning = none ∧ s.procs child = none ∧ child ≠ 0 then
        let s := s.setProc parent (some { p with returning := if probed then some child else none })
        some (s.spawn child (if thread then p.tgid else child))
      else none
  | .forkReturn parent env =>
    match s.procs parent with
    | none => none
    | some p =>
      match p.returning with
      | none => none
      | some child => some ((s.uckForkHandler env parent child).setProc parent (some { p with returning := none }))
  | .exit pid => if s.Idle pid then some ((s.uckHyperUnregisterPid pid).setProc pid none) else none

/-! ## Statement -/

/-- The table has at most one entry for a pid, and the task that an entry was made for still has the pid. -/
structure Exact (s : Hyper) : Prop where
  unique : (s.tracked.map (·.pid)).Nodup
  live : ∀ tp ∈ s.tracked, tp.since.isSome ∧ s.holder tp.pid = tp.since

/-- The pid that an event makes an entry for. -/
def enrols (s : Hyper) : Event → Option Pid
  | .enable caller pid alloc =>
    if s.uckFindTracked (enabled caller pid) = none ∧ alloc then some (enabled caller pid) else none
  | .forkReturn parent env =>
    if env.initialized ∧ env.nodes.length ≠ 0 ∧ (s.forkEntry parent).isSome ∧ env.alloc then
      (s.procs parent).bind (·.returning)
    else none
  | .fork _ _ _ _ => none
  | .exit _ => none

/-- An event makes an entry for a task that is there and has none. -/
def EnrolsLive (s : Hyper) (ev : Event) : Prop :=
  (s.step ev).isSome → ∀ pid ∈ s.enrols ev, (s.holder pid).isSome ∧ s.uckFindTracked pid = none

instance (s : Hyper) (ev : Event) : Decidable (s.EnrolsLive ev) := inferInstanceAs (Decidable (_ → _))

/-! ## What a step does -/

/-- What an entry says about its task. -/
def entries (s : Hyper) : List (Pid × Option Nat) := s.tracked.map fun tp => (tp.pid, tp.since)

variable {s t : Hyper} {ev : Event} {pid : Pid}

theorem uckFindTracked_eq_none_iff : s.uckFindTracked pid = none ↔ pid ∉ s.entries.map (·.1) := by
  rw [uckFindTracked, Slots.slotOf_eq_none_iff, entries, List.map_map]
  rfl

theorem exact_iff_entries : s.Exact ↔
    (s.entries.map (·.1)).Nodup ∧ ∀ x ∈ s.entries, x.2.isSome ∧ s.holder x.1 = x.2 := by
  constructor
  · intro h
    refine ⟨?_, fun x hx => ?_⟩
    · rw [entries, List.map_map]
      exact h.unique
    · obtain ⟨tp, htp, rfl⟩ := List.mem_map.1 hx
      exact h.live tp htp
  · rintro ⟨hn, hl⟩
    rw [entries, List.map_map] at hn
    exact ⟨hn, fun tp htp => hl (tp.pid, tp.since) (List.mem_map_of_mem htp)⟩

@[simp] theorem holder_hashAdd (s : Hyper) (pid : Pid) : (s.hashAdd pid).holder = s.holder := rfl

@[simp] theorem holder_countFork (s : Hyper) (i : Nat) : (s.countFork i).holder = s.holder := rfl

@[simp] theorem entries_hashAdd (s : Hyper) (pid : Pid) :
    (s.hashAdd pid).entries = (pid, s.holder pid) :: s.entries := rfl

@[simp] theorem entries_countFork (s : Hyper) (i : Nat) : (s.countFork i).entries = s.entries :=
  (Slots.map_modify_eq_iff _ _).2 fun _ _ => rfl

theorem entries_unregister (s : Hyper) (pid : Pid) :
    (s.uckHyperUnregisterPid pid).entries = s.entries.eraseP fun x => x.1 = pid := by
  rw [entries, entries, List.eraseP_map]
  rfl

theorem holder_setProc (s : Hyper) (pid : Pid) (p : Option Proc) :
    (s.setProc pid p).holder = Function.update s.holder pid (p.map (·.serial)) := by
  funext q
  simp only [holder, setProc, Function.update_apply]
  split <;> rfl

theorem holder_spawn (s : Hyper) (child tgid : Pid) :
    (s.spawn child tgid).holder = Function.update s.holder child (some s.nextSerial) :=
  holder_setProc s child _

/-- What a step does to the entries and to the tasks. -/
inductive Effect (s : Hyper) (ev : Event) (t : Hyper) : Prop
  | enrol (hentries : t.entries = (s.enrols ev).toList.map (fun pid => (pid, s.holder pid)) ++ s.entries)
      (hholder : t.holder = s.holder)
  | fork (child : Pid) (serial : Nat) (hnone : s.enrols ev = none) (hentries : t.entries = s.entries)
      (hfree : s.holder child = none) (hholder : t.holder = Function.update s.holder child (some serial))
  | exit (pid : Pid) (hnone : s.enrols ev = none) (hentries : t.entries = s.entries.eraseP fun x => x.1 = pid)
      (hholder : t.holder = Function.update s.holder pid none)

theorem uckHyperRegisterPid_effect (s : Hyper) (caller pid : Pid) (alloc : Bool) :
    Effect s (.enable caller pid alloc) (s.uckHyperRegisterPid (enabled caller pid) alloc) := by
  unfold uckHyperRegisterPid
  cases hf : s.uckFindTracked (enabled caller pid) with
  | some i => exact .enrol (by simp [enrols, hf]) rfl
  | none =>
    cases alloc with
    | false => exact .enrol (by simp [enrols]) rfl
    | true => exact .enrol (by simp [enrols, hf, entries_hashAdd]) rfl

/-- `uck_hyper_should_distribute` makes an entry for the child of a tracked task, if it looks at all. -/
theorem uckHyperShouldDistribute_effect (s : Hyper) (env : ForkEnv) (parent child : Pid) :
    (s.uckHyperShouldDistribute env parent child).1.entries =
        (if env.initialized ∧ env.nodes.length ≠ 0 ∧ (s.forkEntry parent).isSome ∧ env.alloc
          then [(child, s.holder child)] else []) ++ s.entries ∧
      (s.uckHyperShouldDistribute env parent child).1.holder = s.holder := by
  unfold uckHyperShouldDistribute
  cases hi : env.initialized with
  | false => simp
  | true =>
    by_cases hn : env.nodes.length = 0
    · simp [hn]
    · cases hf : s.forkEntry parent with
      | none => simp [hn]
      | some i =>
        cases ha : env.alloc with
        | false => simp [hn]
        | true => simp [hn]

/-- The queue of migrations does not show. -/
theorem uckForkHandler_effect (s : Hyper) (env : ForkEnv) (parent child : Pid) :
    (s.uckForkHandler env parent child).entries = (s.uckHyperShouldDistribute env parent child).1.entries ∧
      (s.uckForkHandler env parent child).holder = (s.uckHyperShouldDistribute env parent child).1.holder := by
  unfold uckForkHandler uckHyperScheduleMigration
  rcases s.uckHyperShouldDistribute env parent child with ⟨u, _ | _⟩
  · exact ⟨rfl, rfl⟩
  · dsimp only
    split
    · exact ⟨rfl, rfl⟩
    · split <;> exact ⟨rfl, rfl⟩

theorem holder_update_self {p : Proc} {pid : Pid} (u : Hyper) (hu : u.holder = s.holder) (hp : s.procs pid = some p)
    (child : Option Pid) : (u.setProc pid (some { p with returning := child })).holder = s.holder := by
  rw [holder_setProc, hu, Option.map_some, Function.update_eq_self_iff]
  rw [holder, hp, Option.map_some]

theorem Effect.of_step (h : s.step ev = some t) : Effect s ev t := by
  cases ev with
  | enable caller pid alloc =>
    simp only [step, Option.ite_none_right_eq_some, Option.some.injEq] at h
    obtain ⟨-, rfl⟩ := h
    exact uckHyperRegisterPid_effect s caller pid alloc
  | fork parent child thread probed =>
    simp only [step] at h
    split at h
    · cases h
    next p hp =>
      simp only [Option.ite_none_right_eq_some, Option.some.injEq] at h
      obtain ⟨⟨-, hfree, -⟩, rfl⟩ := h
      refine .fork child s.nextSerial rfl rfl (by rw [holder, hfree]; rfl) ?_
      rw [holder_spawn, holder_update_self s rfl hp]
      rfl
  | forkReturn parent env =>
    simp only [step] at h
    split at h
    · cases h
    next p hp =>
      split at h
      · cases h
      next child hc =>
        obtain rfl := Option.some.inj h
        obtain ⟨hentries, hholder⟩ := uckForkHandler_effect s env parent child
        obtain ⟨hentries', hholder'⟩ := uckHyperShouldDistribute_effect s env parent child
        refine .enrol (hentries.trans (hentries'.trans ?_)) (holder_update_self _ (hholder.trans hholder') hp _)
        simp only [enrols, hp, Option.bind_some, hc]
        split <;> rfl
  | exit pid =>
    simp only [step, Option.ite_none_right_eq_some, Option.some.injEq] at h
    obtain ⟨-, rfl⟩ := h
    exact .exit pid rfl (entries_unregister s pid) (holder_setProc _ _ _)

/-! ## Runs -/

/-- A step keeps the table exact if and only if it enrols live tasks only. -/
theorem exact_step_iff (h : s.Exact) (hs : s.step ev = some t) : s.EnrolsLive ev ↔ t.Exact := by
  have hsome : (s.step ev).isSome := by rw [hs]; rfl
  simp only [EnrolsLive, hsome, true_imp_iff]
  rw [exact_iff_entries] at h ⊢
  obtain ⟨hnodup, hlive⟩ := h
  cases Effect.of_step hs with
  | enrol hentries hholder =>
    rw [hentries, hholder]
    cases s.enrols ev with
    | none => simpa using ⟨hnodup, fun a b => hlive (a, b)⟩
    | some pid =>
      simp only [Option.mem_some_iff, forall_eq', uckFindTracked_eq_none_iff, Option.toList_some, List.map_cons,
        List.map_nil, List.singleton_append, List.nodup_cons, List.forall_mem_cons]
      constructor
      · rintro ⟨hl, hnew⟩
        exact ⟨⟨hnew, hnodup⟩, ⟨hl, trivial⟩, hlive⟩
      · rintro ⟨⟨hnew, -⟩, ⟨hl, -⟩, -⟩
        exact ⟨hl, hnew⟩
  | fork child serial hnone hentries hfree hholder =>
    rw [hnone, hentries, hholder]
    refine iff_of_true nofun ⟨hnodup, fun x hx => ?_⟩
    obtain ⟨hl, heq⟩ := hlive x hx
    -- the pid of an entry has a task, the one of the child had none
    have hne : x.1 ≠ child := fun hc => by rw [← heq, hc, hfree] at hl; cases hl
    exact ⟨hl, (Function.update_of_ne hne _ _).trans heq⟩
  | exit pid hnone hentries hholder =>
    rw [hnone, hentries, hholder]
    have hkeys : (s.entries.eraseP fun x => x.1 = pid).map (·.1) = (s.entries.map (·.1)).erase pid := by
      rw [List.erase_eq_eraseP', List.eraseP_map]
      rfl
    refine iff_of_true nofun ⟨hkeys ▸ hnodup.erase pid, fun x hx => ?_⟩
    obtain ⟨hl, heq⟩ := hlive x (List.mem_of_mem_eraseP hx)
    have hne : x.1 ≠ pid := fun hc => by
      have hmem : x.1 ∈ (s.entries.map (·.1)).erase pid := hkeys ▸ List.mem_map_of_mem hx
      exact hnodup.not_mem_erase (hc ▸ hmem)
    exact ⟨hl, (Function.update_of_ne hne _ _).trans heq⟩

/-- The machine when the module is loaded: any tasks, none of them tracked. -/
def init (procs : Pid → Option Proc) (nextSerial : Nat) : Hyper := { procs, nextSerial }

/-- The runs along which the table is exact are those in which every entry is made for a task that is there and has
none: an ioctl names a live task, and the child of a tracked task is still there, and has no entry of its own, when the
fork returns. -/
theorem exact_iff (procs : Pid → Option Proc) (nextSerial : Nat) (es : List Event) :
    Always step Exact (init procs nextSerial) es ↔ EachStep step EnrolsLive (init procs nextSerial) es := by
  refine always_iff_eachStep (fun s ev t h hs => exact_step_iff h hs) (fun s ev hs => ?_) ⟨List.nodup_nil, nofun⟩
  intro hsome
  rw [hs] at hsome
  cases hsome

/-- Two tasks that have nothing to do with each other. -/
def twoTasks (pid : Pid) : Option Proc :=
  if pid = 10 then some { tgid := 10, serial := 0 } else if pid = 20 then some { tgid := 20, serial := 1 } else none

/-- An idle node to distribute to. -/
def idleEnv : ForkEnv := ⟨true, 1, [idleNode 2], 10, true, true⟩

/-- A tracked task forks, and its child exits before the fork has returned. -/
def shortLived : List Event :=
  [.enable 10 0 true, .fork 10 11 false true, .exit 11, .forkReturn 10 idleEnv]

/-- The other task has a child that gets the pid of the short-lived one and forks twice. -/
def reuse : List Event :=
  [.fork 20 11 false true, .forkReturn 20 idleEnv, .fork 11 12 false true, .forkReturn 11 idleEnv,
    .fork 11 13 false true, .forkReturn 11 idleEnv]

/-- The entry of the short-lived child is made after it is gone and stays. A task that never asked for it, nor descends
from one that did, has it then, and a fork of it is sent to another node. -/
theorem stale_entry : ¬ Always step Exact (init twoTasks 2) shortLived ∧
    ((run step (init twoTasks 2) (shortLived ++ reuse)).map (·.migrations)) = some [(13, 2)] := by
  refine ⟨fun h => ?_, by decide⟩
  have hlast := h.get (by decide)
  exact absurd (hlast.live ⟨11, 11, 0, none⟩ (by decide)).1 (by decide)

end Hyper

end UckSmp.Sched
