import Mathlib.Data.List.Perm.Basic
import Mathlib.Logic.Function.Basic
import UckSmp.Lib.Transition
import UckSmp.Sched.Place
import UckSmp.Sched.Tracked

/-!
# Forks that move to other nodes

The workqueue between the return probe of `kernel_clone` and `uck_migrate_process` (`uck_hyper.c`). The probe queues the
pid of the child, and 50 ms later or more a worker looks the pid up and moves the task it finds. There are four workers,
so the work is done in any order. All tasks are in one pid namespace.

The task that a fork made is in its work, beside the pid; no decision depends on it.

* `moves_children`: if no pid is given to a new task while a fork or a piece of work still names it, every task that
  a worker moves is the one that the fork made, and none is moved twice.
* `moves_stranger`: a run in which a pid is given away too early.
* `nothing_queued`: with `max_tasks_per_node` as `uck_init` leaves it, no run queues anything.
-/

namespace UckSmp.Sched

open Lib Lib.Transition

/-! ## State -/

/-- `struct uck_migration_work`. -/
structure MigrationWork where
  childPid : Pid
  destNode : UInt32
  /-- The task that the fork made. -/
  child : Nat
  deriving DecidableEq, Repr

/-- The tasks and the table of tracked ones, with the workqueue. -/
structure ForkQueue where
  hyper : Hyper
  /-- The task that the last fork of the task with a pid made. -/
  made : Pid → Nat
  queue : List MigrationWork := []
  /-- The work that was done, and the task that it found. -/
  moved : List (MigrationWork × Option Proc) := []

inductive ForkEvent
  | system (ev : Event)
  /-- `uck_hyper_do_migrate` has slept, and `uck_migrate_process` looks for the task. -/
  | migrate (i : Nat)
  deriving DecidableEq, Repr

namespace ForkQueue

/-! ## Code -/

/-- The work that a step of the probes queues. -/
def newWork (s : ForkQueue) (ev : Event) (t : Hyper) : List MigrationWork :=
  match ev with
  | .forkReturn parent _ =>
    (t.migrations.drop s.hyper.migrations.length).map fun x => ⟨x.1, x.2, s.made parent⟩
  | _ => []

/-- Who made whom, after a step. -/
def noteFork (s : ForkQueue) (ev : Event) : Pid → Nat :=
  match ev with
  | .fork parent _ _ _ => Function.update s.made parent s.hyper.nextSerial
  | _ => s.made

def step (s : ForkQueue) : ForkEvent → Option ForkQueue
  | .system ev =>
    match s.hyper.step ev with
    | none => none
    | some t => some { s with hyper := t, made := s.noteFork ev, queue := s.queue ++ s.newWork ev t }
  | .migrate i =>
    match s.queue[i]? with
    | none => none
    | some w =>
      some { s with queue := s.queue.eraseIdx i, moved := s.moved ++ [(w, s.hyper.procs w.childPid)] }

def init (procs : Pid → Option Proc) (nextSerial : Nat) : ForkQueue :=
  { hyper := Hyper.init procs nextSerial, made := fun _ => 0 }

/-! ## Statement -/

/-- A fork that has not returned has made a task. -/
def Returning (s : ForkQueue) (parent pid : Pid) : Prop := ∃ p ∈ s.hyper.procs parent, p.returning = some pid

/-- A pid stands for a task, in a fork that has not returned or in the queue. -/
inductive StandsFor (s : ForkQueue) (pid : Pid) (child : Nat) : Prop
  | returning (parent : Pid) (h : s.Returning parent pid) (hmade : s.made parent = child)
  | queued (w : MigrationWork) (h : w ∈ s.queue) (hpid : w.childPid = pid) (hchild : w.child = child)

/-- The pid that an event gives to a new task. -/
def forks : ForkEvent → Option Pid
  | .system (.fork _ child _ _) => some child
  | _ => none

/-- A new task gets a pid that stands for nobody. -/
def KeepsPids (s : ForkQueue) (e : ForkEvent) : Prop := ∀ pid ∈ forks e, ∀ n, ¬ s.StandsFor pid n

/-- The tasks that were queued for a migration. -/
def children (s : ForkQueue) : List Nat := s.queue.map (·.child) ++ s.moved.map (·.1.child)

/-- Every task that a worker found is the one that the fork made. -/
def MovesChildren (s : ForkQueue) : Prop := ∀ x ∈ s.moved, ∀ p ∈ x.2, p.serial = x.1.child

end ForkQueue

/-! ## What a step does -/

namespace Hyper

variable {s t : Hyper} {ev : Event}

/-- What a step does to the tasks and the migrations. -/
inductive TaskEffect (s : Hyper) : Event → Hyper → Prop
  | enable (caller pid : Pid) (alloc : Bool) {t : Hyper} (hprocs : t.procs = s.procs)
      (hserial : t.nextSerial = s.nextSerial) (hmigrations : t.migrations = s.migrations) :
      TaskEffect s (.enable caller pid alloc) t
  | fork {parent child : Pid} (thread probed : Bool) {p : Proc} (tgid : Pid) {t : Hyper}
      (hp : s.procs parent = some p) (hfree : s.procs child = none) (hidle : p.returning = none)
      (hprocs : t.procs = Function.update
        (Function.update s.procs parent (some { p with returning := if probed then some child else none })) child
        (some { tgid, serial := s.nextSerial }))
      (hserial : t.nextSerial = s.nextSerial + 1) (hmigrations : t.migrations = s.migrations) :
      TaskEffect s (.fork parent child thread probed) t
  | forkReturn {parent : Pid} {env : ForkEnv} {p : Proc} {child : Pid} {t : Hyper} (dest : Option UInt32)
      (hp : s.procs parent = some p) (hchild : p.returning = some child)
      (hdest : env.maxTasksPerNode = 0 → dest = none)
      (hprocs : t.procs = Function.update s.procs parent (some { p with returning := none }))
      (hserial : t.nextSerial = s.nextSerial)
      (hmigrations : t.migrations = s.migrations ++ dest.toList.map fun d => (child, d)) :
      TaskEffect s (.forkReturn parent env) t
  | exit (pid : Pid) {t : Hyper} (hprocs : t.procs = Function.update s.procs pid none)
      (hserial : t.nextSerial = s.nextSerial) (hmigrations : t.migrations = s.migrations) :
      TaskEffect s (.exit pid) t

theorem uckHyperRegisterPid_tasks (s : Hyper) (pid : Pid) (alloc : Bool) :
    (s.uckHyperRegisterPid pid alloc).procs = s.procs ∧
      (s.uckHyperRegisterPid pid alloc).nextSerial = s.nextSerial ∧
      (s.uckHyperRegisterPid pid alloc).migrations = s.migrations := by
  unfold uckHyperRegisterPid
  split
  · simp
  · split <;> simp [hashAdd]

theorem uckHyperShouldDistribute_tasks (s : Hyper) (env : ForkEnv) (parent child : Pid) :
    (s.uckHyperShouldDistribute env parent child).1.procs = s.procs ∧
      (s.uckHyperShouldDistribute env parent child).1.nextSerial = s.nextSerial ∧
      (s.uckHyperShouldDistribute env parent child).1.migrations = s.migrations := by
  unfold uckHyperShouldDistribute
  split
  · simp
  · split
    · simp
    · split <;> simp [hashAdd, countFork]

/-- The return probe queues at most one migration, and none without a limit on the tasks of a node. -/
theorem uckForkHandler_tasks (s : Hyper) (env : ForkEnv) (parent child : Pid) :
    (s.uckForkHandler env parent child).procs = s.procs ∧
      (s.uckForkHandler env parent child).nextSerial = s.nextSerial ∧
      ∃ dest : Option UInt32, (env.maxTasksPerNode = 0 → dest = none) ∧
        (s.uckForkHandler env parent child).migrations = s.migrations ++ dest.toList.map fun d => (child, d) := by
  obtain ⟨hprocs, hserial, hmigrations⟩ := uckHyperShouldDistribute_tasks s env parent child
  unfold uckForkHandler
  rcases hd : s.uckHyperShouldDistribute env parent child with ⟨u, distribute⟩
  rw [hd] at hprocs hserial hmigrations
  have hstays : ∃ dest : Option UInt32, (env.maxTasksPerNode = 0 → dest = none) ∧
      u.migrations = s.migrations ++ dest.toList.map fun d => (child, d) := ⟨none, by simp, by simpa using hmigrations⟩
  cases distribute with
  | false => exact ⟨hprocs, hserial, hstays⟩
  | true =>
    dsimp only
    split
    · exact ⟨hprocs, hserial, hstays⟩
    next hpick =>
      unfold uckHyperScheduleMigration
      split
      · refine ⟨hprocs, hserial, some (uckHyperPickNode env.nodes env.maxTasksPerNode), fun hzero => ?_, ?_⟩
        · rw [hzero, uckHyperPickNode_unlimited] at hpick
          exact absurd (.inl rfl) hpick
        · rw [Option.toList_some, List.map_cons, List.map_nil, ← hmigrations]
      · exact ⟨hprocs, hserial, hstays⟩

theorem TaskEffect.of_step (h : s.step ev = some t) : TaskEffect s ev t := by
  cases ev with
  | enable caller pid alloc =>
    simp only [step, Option.ite_none_right_eq_some, Option.some.injEq] at h
    obtain ⟨-, rfl⟩ := h
    obtain ⟨hprocs, hserial, hmigrations⟩ := uckHyperRegisterPid_tasks s (enabled caller pid) alloc
    exact .enable caller pid alloc hprocs hserial hmigrations
  | fork parent child thread probed =>
    simp only [step] at h
    split at h
    · cases h
    next p hp =>
      simp only [Option.ite_none_right_eq_some, Option.some.injEq] at h
      obtain ⟨⟨hidle, hfree, -⟩, rfl⟩ := h
      exact .fork thread probed _ hp hfree hidle rfl rfl rfl
  | forkReturn parent env =>
    simp only [step] at h
    split at h
    · cases h
    next p hp =>
      split at h
      · cases h
      next child hchild =>
        obtain rfl := Option.some.inj h
        obtain ⟨hprocs, hserial, dest, hdest, hmigrations⟩ := uckForkHandler_tasks s env parent child
        refine .forkReturn dest hp hchild hdest ?_ hserial hmigrations
        rw [setProc, hprocs]
  | exit pid =>
    simp only [step, Option.ite_none_right_eq_some, Option.some.injEq] at h
    obtain ⟨-, rfl⟩ := h
    exact .exit pid rfl rfl rfl

end Hyper

namespace ForkQueue

variable {s t : ForkQueue} {e : ForkEvent} {procs : Pid → Option Proc} {n : Nat} {es : List ForkEvent}

theorem step_system {ev : Event} (h : s.step (.system ev) = some t) : ∃ u, Hyper.TaskEffect s.hyper ev u ∧
    t = { s with hyper := u, made := s.noteFork ev, queue := s.queue ++ s.newWork ev u } := by
  simp only [step] at h
  split at h
  · cases h
  next u hu => exact ⟨u, .of_step hu, (Option.some.inj h).symm⟩

theorem step_migrate {i : Nat} (h : s.step (.migrate i) = some t) : ∃ w, s.queue[i]? = some w ∧
    t = { s with queue := s.queue.eraseIdx i, moved := s.moved ++ [(w, s.hyper.procs w.childPid)] } := by
  simp only [step] at h
  split at h
  · cases h
  next w hw => exact ⟨w, hw, (Option.some.inj h).symm⟩

theorem newWork_forkReturn {parent child : Pid} {env : ForkEnv} {u : Hyper} {dest : Option UInt32}
    (h : u.migrations = s.hyper.migrations ++ dest.toList.map fun d => (child, d)) :
    s.newWork (.forkReturn parent env) u = dest.toList.map fun d => ⟨child, d, s.made parent⟩ := by
  simp only [newWork, h, List.drop_left, List.map_map]
  rfl

/-! ## The tasks that are moved -/

/-- Forks that have not returned, as they were before a step that makes no task. -/
def OldForks (s t : ForkQueue) : Prop := ∀ q pid, t.Returning q pid → s.Returning q pid

theorem oldForks_of_eq (h : t.hyper.procs = s.hyper.procs) : OldForks s t := by
  intro q pid hq
  rwa [Returning, h] at hq

theorem returning_of_update {parent q pid : Pid} {p : Option Proc}
    (h : t.hyper.procs = Function.update s.hyper.procs parent p) (hq : t.Returning q pid) :
    (q = parent ∧ ∃ x ∈ p, x.returning = some pid) ∨ (q ≠ parent ∧ s.Returning q pid) := by
  obtain ⟨x, hx, hret⟩ := hq
  rw [h, Function.update_apply] at hx
  split at hx
  next heq => exact .inl ⟨heq, x, hx, hret⟩
  next hne => exact .inr ⟨hne, x, hx, hret⟩

theorem returning_of_probed (probed : Bool) {child : Pid} : ∀ c ∈ if probed then some child else none, c = child := by
  intro c hc
  cases probed with
  | true => exact (Option.mem_some_iff.1 hc).symm
  | false => cases hc

/-- A fork that has not returned is the new one, or it is an old one of another task. -/
theorem returning_of_fork {parent child q pid : Pid} {p : Proc} {tgid : Pid} {returning : Option Pid} {u : Hyper}
    {m : Nat} (hreturning : ∀ c ∈ returning, c = child)
    (hprocs : u.procs = Function.update (Function.update s.hyper.procs parent (some { p with returning }))
      child (some { tgid, serial := m })) (hu : t.hyper = u) (hq : t.Returning q pid) :
    (q = parent ∧ pid = child) ∨ (q ≠ parent ∧ s.Returning q pid) := by
  obtain ⟨x, hx, hret⟩ := hq
  simp only [hu, hprocs, Function.update_apply] at hx
  split at hx
  next =>
    obtain rfl := Option.mem_some_iff.1 hx
    cases hret
  next =>
    split at hx
    next heq =>
      obtain rfl := Option.mem_some_iff.1 hx
      exact .inl ⟨heq, hreturning pid hret⟩
    next hother => exact .inr ⟨hother, x, hx, hret⟩

/-- A pid stands for the same task as before a step, or for the one that the step makes. -/
theorem standsFor_step (hs : s.step e = some t) {pid : Pid} {m : Nat} (h : t.StandsFor pid m) :
    s.StandsFor pid m ∨ (forks e = some pid ∧ m = s.hyper.nextSerial) := by
  cases e with
  | migrate i =>
    obtain ⟨w, hw, rfl⟩ := step_migrate hs
    cases h with
    | returning q hq hmade => exact .inl (.returning q hq hmade)
    | queued v hv hpid hchild => exact .inl (.queued v (List.mem_of_mem_eraseIdx hv) hpid hchild)
  | system ev =>
    obtain ⟨u, heffect, rfl⟩ := step_system hs
    cases h with
    | returning q hq hmade =>
      cases heffect with
      | enable caller pid' alloc hprocs => exact .inl (.returning q (oldForks_of_eq hprocs q pid hq) hmade)
      | fork thread probed tgid hp hfree hidle hprocs =>
        rcases returning_of_fork (returning_of_probed probed) hprocs rfl hq with ⟨rfl, rfl⟩ | ⟨hother, hold⟩
        · refine .inr ⟨rfl, hmade.symm.trans ?_⟩
          simp [noteFork]
        · refine .inl (.returning q hold (Eq.trans ?_ hmade))
          simp [noteFork, hother]
      | forkReturn dest hp hchild hdest hprocs =>
        rcases returning_of_update hprocs hq with ⟨-, y, hy, hret⟩ | ⟨-, hold⟩
        · obtain rfl := Option.mem_some_iff.1 hy
          cases hret
        · exact .inl (.returning q hold hmade)
      | exit pid' hprocs =>
        rcases returning_of_update hprocs hq with ⟨-, y, hy, -⟩ | ⟨-, hold⟩
        · cases hy
        · exact .inl (.returning q hold hmade)
    | queued w hw hpid hchild =>
      rcases List.mem_append.1 hw with hw | hw
      · exact .inl (.queued w hw hpid hchild)
      · cases heffect with
        | enable | fork | exit => cases hw
        | forkReturn dest hp hret hdest hprocs hserial hmigrations =>
          rw [newWork_forkReturn hmigrations] at hw
          obtain ⟨d, -, rfl⟩ := List.mem_map.1 hw
          subst hpid hchild
          exact .inl (.returning _ ⟨_, hp, hret⟩ rfl)

/-- A task has its pid since before a step, or it is the one that the step makes. -/
theorem procs_step (hs : s.step e = some t) {pid : Pid} {p : Proc} (hp : p ∈ t.hyper.procs pid) :
    (∃ q ∈ s.hyper.procs pid, q.serial = p.serial ∧ forks e ≠ some pid) ∨
      (forks e = some pid ∧ p.serial = s.hyper.nextSerial) := by
  cases e with
  | migrate i =>
    obtain ⟨w, -, rfl⟩ := step_migrate hs
    exact .inl ⟨p, hp, rfl, by simp [forks]⟩
  | system ev =>
    obtain ⟨u, heffect, rfl⟩ := step_system hs
    cases heffect with
    | enable caller pid' alloc hprocs =>
      rw [hprocs] at hp
      exact .inl ⟨p, hp, rfl, by simp [forks]⟩
    | @fork parent child thread probed p' tgid _ hp' hfree hidle hprocs =>
      rw [hprocs, Function.update_apply] at hp
      split at hp
      next heq =>
        obtain rfl := Option.mem_some_iff.1 hp
        exact .inr ⟨by rw [heq]; rfl, rfl⟩
      next hne =>
        have hforks : forks (.system (.fork parent child thread probed)) ≠ some pid :=
          fun h => hne (Option.some.inj h).symm
        rw [Function.update_apply] at hp
        split at hp
        next heq =>
          obtain rfl := Option.mem_some_iff.1 hp
          exact .inl ⟨p', heq ▸ hp', rfl, hforks⟩
        next => exact .inl ⟨p, hp, rfl, hforks⟩
    | @forkReturn parent env p' child _ dest hp' hchild hdest hprocs =>
      rw [hprocs, Function.update_apply] at hp
      split at hp
      next heq =>
        obtain rfl := Option.mem_some_iff.1 hp
        exact .inl ⟨p', heq ▸ hp', rfl, by simp [forks]⟩
      next => exact .inl ⟨p, hp, rfl, by simp [forks]⟩
    | exit pid' hprocs =>
      rw [hprocs, Function.update_apply] at hp
      split at hp
      · cases hp
      · exact .inl ⟨p, hp, rfl, by simp [forks]⟩

/-- The pids of forks and of work stand for the tasks that have them, and so did those of the work that was done. -/
structure Inv (s : ForkQueue) : Prop where
  stands : ∀ pid m, s.StandsFor pid m → ∀ p ∈ s.hyper.procs pid, p.serial = m
  moved : s.MovesChildren

theorem movesChildren_step (h : s.Inv) (hs : s.step e = some t) : t.MovesChildren := by
  cases e with
  | migrate i =>
    obtain ⟨w, hw, rfl⟩ := step_migrate hs
    intro x hx
    rcases List.mem_append.1 hx with hx | hx
    · exact h.moved x hx
    · obtain rfl := List.mem_singleton.1 hx
      exact h.stands w.childPid w.child (.queued w (List.mem_of_getElem? hw) rfl rfl)
  | system ev =>
    obtain ⟨u, -, rfl⟩ := step_system hs
    exact h.moved

theorem inv_step (h : s.Inv) (hk : s.KeepsPids e) (hs : s.step e = some t) : t.Inv := by
  refine ⟨fun pid m hstands p hp => ?_, movesChildren_step h hs⟩
  rcases standsFor_step hs hstands with hold | ⟨hforks, rfl⟩
  · rcases procs_step hs hp with ⟨q, hq, hserial, -⟩ | ⟨hforks, -⟩
    · exact hserial.symm.trans (h.stands pid m hold q hq)
    · exact absurd hold (hk pid hforks m)
  · rcases procs_step hs hp with ⟨q, hq, -, hforks'⟩ | ⟨-, hserial⟩
    · exact absurd hforks hforks'
    · exact hserial

/-! ## No task is moved twice -/

/-- The tasks that forks have made and nobody has queued yet are new, and different from each other. -/
structure Once (s : ForkQueue) : Prop where
  fresh : ∀ q pid, s.Returning q pid → s.made q < s.hyper.nextSerial ∧ s.made q ∉ s.children
  apart : ∀ q pid q' pid', s.Returning q pid → s.Returning q' pid' → s.made q = s.made q' → q = q'
  nodup : s.children.Nodup
  bound : ∀ m ∈ s.children, m < s.hyper.nextSerial

/-- A step that makes no task and queues none. -/
theorem Once.of_old (h : s.Once) (hold : OldForks s t) (hmade : t.made = s.made)
    (hserial : t.hyper.nextSerial = s.hyper.nextSerial) (hchildren : t.children.Perm s.children) : t.Once := by
  refine ⟨fun q pid hq => ?_, fun q pid q' pid' hq hq' => ?_, hchildren.nodup_iff.2 h.nodup, fun m hm => ?_⟩
  · rw [hmade, hserial, hchildren.mem_iff]
    exact h.fresh q pid (hold q pid hq)
  · rw [hmade]
    exact h.apart q pid q' pid' (hold q pid hq) (hold q' pid' hq')
  · rw [hserial]
    exact h.bound m (hchildren.mem_iff.1 hm)

theorem children_perm (l : List MigrationWork) (u : Hyper) (made : Pid → Nat) :
    (children { s with hyper := u, made := made, queue := s.queue ++ l }).Perm (l.map (·.child) ++ s.children) := by
  simp only [children, List.map_append, ← List.append_assoc]
  exact List.perm_append_comm.append_right _

theorem once_fork (h : s.Once) {parent child : Pid} {p : Proc} {tgid : Pid} {returning : Option Pid} {u : Hyper}
    (hreturning : ∀ c ∈ returning, c = child)
    (hprocs : u.procs = Function.update (Function.update s.hyper.procs parent (some { p with returning }))
      child (some { tgid, serial := s.hyper.nextSerial })) (hserial : u.nextSerial = s.hyper.nextSerial + 1) :
    Once { s with hyper := u, made := Function.update s.made parent s.hyper.nextSerial } := by
  refine ⟨fun q pid hq => ?_, fun q pid q' pid' hq hq' hmade => ?_, h.nodup, fun m hm => ?_⟩
  · rw [hserial]
    rcases returning_of_fork hreturning hprocs rfl hq with ⟨rfl, -⟩ | ⟨hother, hold⟩
    · simp only [Function.update_self]
      exact ⟨Nat.lt_succ_self _, fun hmem => absurd (h.bound _ hmem) (Nat.lt_irrefl _)⟩
    · simp only [Function.update_of_ne hother]
      obtain ⟨hlt, hnew⟩ := h.fresh q pid hold
      exact ⟨Nat.lt_succ_of_lt hlt, hnew⟩
  · -- an old fork has made an older task than the new one
    rcases returning_of_fork hreturning hprocs rfl hq with ⟨rfl, -⟩ | ⟨hother, hold⟩
    · rcases returning_of_fork hreturning hprocs rfl hq' with ⟨rfl, -⟩ | ⟨hother', hold'⟩
      · rfl
      · simp only [Function.update_self, Function.update_of_ne hother'] at hmade
        exact absurd (h.fresh q' pid' hold').1 (by omega)
    · rcases returning_of_fork hreturning hprocs rfl hq' with ⟨rfl, -⟩ | ⟨hother', hold'⟩
      · simp only [Function.update_self, Function.update_of_ne hother] at hmade
        exact absurd (h.fresh q pid hold).1 (by omega)
      · simp only [Function.update_of_ne hother, Function.update_of_ne hother'] at hmade
        exact h.apart q pid q' pid' hold hold' hmade
  · rw [hserial]
    exact Nat.lt_succ_of_lt (h.bound m hm)

theorem once_forkReturn (h : s.Once) {parent child : Pid} {p : Proc} {dest : Option UInt32} {u : Hyper}
    (hreturning : s.Returning parent child)
    (hprocs : u.procs = Function.update s.hyper.procs parent (some { p with returning := none }))
    (hserial : u.nextSerial = s.hyper.nextSerial) :
    Once { s with hyper := u, queue := s.queue ++ dest.toList.map fun d => ⟨child, d, s.made parent⟩ } := by
  obtain ⟨hlt, hnew⟩ := h.fresh parent child hreturning
  have hforks : ∀ q pid, Returning { s with
        hyper := u, queue := s.queue ++ dest.toList.map fun d => ⟨child, d, s.made parent⟩ } q pid →
      q ≠ parent ∧ s.Returning q pid := by
    intro q pid hq
    rcases returning_of_update hprocs hq with ⟨-, y, hy, hret⟩ | hold
    · obtain rfl := Option.mem_some_iff.1 hy
      cases hret
    · exact hold
  have hchildren := children_perm (s := s) (dest.toList.map fun d => ⟨child, d, s.made parent⟩) u s.made
  cases dest with
  | none => exact h.of_old (fun q pid hq => (hforks q pid hq).2) rfl hserial hchildren
  | some d =>
    refine ⟨fun q pid hq => ?_, fun q pid q' pid' hq hq' => ?_, hchildren.nodup_iff.2 ?_, fun m hm => ?_⟩
    · obtain ⟨hother, hold⟩ := hforks q pid hq
      rw [hserial, hchildren.mem_iff]
      obtain ⟨hlt', hnew'⟩ := h.fresh q pid hold
      refine ⟨hlt', fun hmem => ?_⟩
      rcases List.mem_cons.1 hmem with heq | hmem
      · exact hother (h.apart q pid parent child hold hreturning heq)
      · exact hnew' hmem
    · exact h.apart q pid q' pid' (hforks q pid hq).2 (hforks q' pid' hq').2
    · exact List.nodup_cons.2 ⟨hnew, h.nodup⟩
    · rw [hserial]
      rcases List.mem_cons.1 (hchildren.mem_iff.1 hm) with rfl | hm
      · exact hlt
      · exact h.bound m hm

theorem once_step (h : s.Once) (hs : s.step e = some t) : t.Once := by
  cases e with
  | migrate i =>
    obtain ⟨w, hw, rfl⟩ := step_migrate hs
    obtain ⟨hi, rfl⟩ := List.getElem?_eq_some_iff.1 hw
    refine h.of_old (fun q pid hq => hq) rfl rfl ?_
    have hperm := (List.getElem_cons_eraseIdx_perm hi).map MigrationWork.child
    simp only [children, List.map_append, ← List.append_assoc]
    exact List.perm_append_comm.trans (hperm.append_right _)
  | system ev =>
    obtain ⟨u, heffect, rfl⟩ := step_system hs
    cases heffect with
    | enable caller pid alloc hprocs hserial =>
      exact h.of_old (oldForks_of_eq hprocs) rfl hserial (children_perm [] u s.made)
    | fork thread probed tgid hp hfree hidle hprocs hserial =>
      have hnew := once_fork h (returning_of_probed probed) hprocs hserial
      simpa [newWork, noteFork] using hnew
    | forkReturn dest hp hchild hdest hprocs hserial hmigrations =>
      rw [newWork_forkReturn hmigrations]
      exact once_forkReturn h ⟨_, hp, hchild⟩ hprocs hserial
    | exit pid hprocs hserial =>
      refine h.of_old (fun q pid' hq => ?_) rfl hserial (children_perm [] u s.made)
      rcases returning_of_update hprocs hq with ⟨-, y, hy, -⟩ | ⟨-, hold⟩
      · cases hy
      · exact hold

/-! ## Runs -/

theorem not_returning_init (hidle : ∀ pid, ∀ p ∈ procs pid, p.returning = none) (q pid : Pid) :
    ¬ (init procs n).Returning q pid := by
  rintro ⟨p, hp, hret⟩
  rw [hidle q p hp] at hret
  cases hret

/-- When the module is loaded nobody waits for a migration. If after that no pid is given to a new task while a fork or
a piece of work still names it, every task that a worker moves is the one that the fork made, and none is moved
twice. -/
theorem moves_children (hidle : ∀ pid, ∀ p ∈ procs pid, p.returning = none)
    (hg : EachStep step KeepsPids (init procs n) es) (hr : run step (init procs n) es = some t) :
    t.MovesChildren ∧ (t.moved.map (·.1.child)).Nodup := by
  have hinit : (init procs n).Inv := by
    refine ⟨fun pid m hstands => ?_, by simp [MovesChildren, init]⟩
    cases hstands with
    | returning q hq => exact absurd hq (not_returning_init hidle q pid)
    | queued w hw => cases hw
  have honce : (init procs n).Once :=
    ⟨fun q pid hq => absurd hq (not_returning_init hidle q pid),
      fun q pid _ _ hq => absurd hq (not_returning_init hidle q pid), List.nodup_nil, by simp [children, init]⟩
  have hmoves : Always step MovesChildren (init procs n) es :=
    Always.of_eachStep Inv (fun s e t h hk hs => inv_step h hk hs) (fun s h => h.moved) hinit hg
  have hend : t.Once := run_inv Once (fun s e t h hs => once_step h hs) honce hr
  exact ⟨hmoves.last hr, (List.nodup_append.1 hend.nodup).2.1⟩

/-- It is enough that every new task of the run gets a pid of its own. -/
theorem keepsPids_of_nodup (hidle : ∀ pid, ∀ p ∈ procs pid, p.returning = none) (hnodup : (es.filterMap forks).Nodup) :
    EachStep step KeepsPids (init procs n) es := by
  have hlater : ∀ s, (∀ pid ∈ es.filterMap forks, ∀ m, ¬ s.StandsFor pid m) → EachStep step KeepsPids s es := by
    induction es with
    | nil => exact fun _ _ => trivial
    | cons e es ih =>
      intro s hnone
      refine ⟨fun pid hpid => hnone pid ?_, fun t ht => ?_⟩
      · rw [List.filterMap_cons_some hpid]
        exact List.mem_cons_self
      · have htail : (es.filterMap forks).Nodup := by
          rw [List.filterMap_cons] at hnodup
          split at hnodup
          · exact hnodup
          · exact (List.nodup_cons.1 hnodup).2
        refine ih htail t fun pid hpid m hstands => ?_
        rcases standsFor_step ht hstands with hold | ⟨hforks, -⟩
        · refine hnone pid ?_ m hold
          rw [List.filterMap_cons]
          split
          · exact hpid
          · exact List.mem_cons_of_mem _ hpid
        · rw [List.filterMap_cons_some hforks] at hnodup
          exact (List.nodup_cons.1 hnodup).1 hpid
  refine hlater (init procs n) fun pid _ m hstands => ?_
  cases hstands with
  | returning q hq => exact not_returning_init hidle q pid hq
  | queued w hw => cases hw

theorem twoTasks_idle (pid : Pid) : ∀ p ∈ Hyper.twoTasks pid, p.returning = none := by
  intro p hp
  simp only [Hyper.twoTasks] at hp
  split at hp
  · obtain rfl := Option.mem_some_iff.1 hp
    rfl
  · split at hp
    · obtain rfl := Option.mem_some_iff.1 hp
      rfl
    · cases hp

/-- A task that asked for it forks twice, and the second child is queued. -/
def secondFork : List ForkEvent :=
  [.system (.enable 10 0 true), .system (.fork 10 11 false true), .system (.forkReturn 10 Hyper.idleEnv),
    .system (.fork 10 12 false true), .system (.forkReturn 10 Hyper.idleEnv)]

/-- The queued child is moved. -/
theorem secondFork_moves :
    (run step (init Hyper.twoTasks 2) (secondFork ++ [.migrate 0])).map (·.moved.length) = some 1 ∧
      ∀ t, run step (init Hyper.twoTasks 2) (secondFork ++ [.migrate 0]) = some t →
        t.MovesChildren ∧ (t.moved.map (·.1.child)).Nodup :=
  ⟨by decide, fun _ => moves_children twoTasks_idle (keepsPids_of_nodup twoTasks_idle (by decide))⟩

/-- The child exits before the work is done, and the other task has a child that gets its pid. -/
def reusedPid : List ForkEvent := secondFork ++ [.system (.exit 12), .system (.fork 20 12 false true), .migrate 0]

/-- A task is moved that never asked for it, nor does it descend from one that did. -/
theorem moves_stranger : (run step (init Hyper.twoTasks 2) reusedPid).map (·.moved) =
    some [(⟨12, 2, 3⟩, some ⟨12, 4, none⟩)] := by
  decide

/-! ## Nothing is queued without a limit -/

/-- The return probes of a step find no limit on the tasks of a node. -/
def Unlimited : ForkEvent → Prop
  | .system (.forkReturn _ env) => env.maxTasksPerNode = 0
  | _ => True

/-- The limit is 0 when the module is loaded and nothing writes it. A node at 0 of 0 tasks is full for the return probe,
so no fork is ever moved, whatever the nodes and whoever asked for it. -/
theorem nothing_queued (hlimit : ∀ e ∈ es, Unlimited e) (hr : run step (init procs n) es = some t) :
    t.queue = [] ∧ t.moved = [] := by
  have hempty : Always step (fun s => s.queue = [] ∧ s.moved = []) (init procs n) es := by
    refine Always.of_eachStep (G := fun _ e => Unlimited e) (fun s : ForkQueue => s.queue = [] ∧ s.moved = [])
      (fun s e t hs hlimit hstep => ?_) (fun _ h => h) ⟨rfl, rfl⟩ (EachStep.of_forall fun _ e he => hlimit e he)
    obtain ⟨hqueue, hmoved⟩ := hs
    cases e with
    | migrate i => simp [step, hqueue] at hstep
    | system ev =>
      obtain ⟨u, heffect, rfl⟩ := step_system hstep
      have hnew : s.newWork ev u = [] := by
        cases heffect with
        | forkReturn dest hp hchild hdest hprocs hserial hmigrations =>
          simp [newWork, hmigrations, hdest hlimit]
        | enable | fork | exit => rfl
      exact ⟨by simp [hqueue, hnew], hmoved⟩
  exact hempty.last hr

/-- What the return probe finds when the limit is as `uck_init` leaves it. -/
def loadedEnv : ForkEnv := { Hyper.idleEnv with maxTasksPerNode := 0 }

/-- The same two forks. -/
def loadedForks : List ForkEvent :=
  [.system (.enable 10 0 true), .system (.fork 10 11 false true), .system (.forkReturn 10 loadedEnv),
    .system (.fork 10 12 false true), .system (.forkReturn 10 loadedEnv)]

theorem loadedForks_stay : (run step (init Hyper.twoTasks 2) loadedForks).isSome ∧
    ∀ t, run step (init Hyper.twoTasks 2) loadedForks = some t → t.queue = [] ∧ t.moved = [] :=
  ⟨by decide, fun _ => nothing_queued (by simp [Unlimited, loadedForks, loadedEnv])⟩

end ForkQueue

end UckSmp.Sched
