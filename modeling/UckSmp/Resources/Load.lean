import UckSmp.Lib.Handles

/-!
# Loading and unloading the module

`uck_init` and `uck_exit`, by what they register with the kernel. `uck_init` unwinds when the device cannot be made, and
goes on when anything after that fails; `uck_exit` looks at the pointers that `uck_init` has left.

* `uckInit_run`: what is registered after `uck_init`.
* `uckExit_run`: what `uck_exit` takes back.
* `load_unload`: when the two agree.
-/

namespace UckSmp.Load

open Lib.Handles

/-- The entries under `/proc/uck`, with the directory itself. -/
inductive Entry
  | dir
  | nodes
  | cpuinfo
  | meminfo
  | status
  | jobs
  | latency
  | pages
  | errors
  | config
  | cgroup
  | audit
  deriving DecidableEq, Repr

inductive Registered
  | chrdev
  | cdev
  | cls
  | device
  | proc (x : Entry)
  | workqueue
  | forkProbe
  | exitProbe
  deriving DecidableEq, Repr

/-- What the calls of the kernel return. -/
structure Results where
  chrdevRet : Int
  cdevRet : Int
  classRet : Int
  deviceRet : Int
  created : Entry → Bool
  workqueue : Bool
  kernelCloneRet : Int
  doForkRet : Int
  doExitRet : Int

/-- The pointers to the entries in `uck_state`, and `uck_hyper_wq`: whether they are set. -/
structure Pointers where
  procDir : Bool := false
  procNodes : Bool := false
  procCpuinfo : Bool := false
  procMeminfo : Bool := false
  procStatus : Bool := false
  procJobs : Bool := false
  procCgroup : Bool := false
  procAudit : Bool := false
  hyperWq : Bool := false
  deriving DecidableEq, Repr

abbrev Code (α : Type) := Run Registered α

/-! ## Loading -/

section Init

variable (e : Results)

/-- `proc_mkdir`, `proc_create` and `proc_create_single`. -/
def procCreate (x : Entry) : Code Bool := do
  if e.created x then do
    acquire (.proc x)
    pure true
  else pure false

/-- `uck_sysinfo_init`. The pointers to the last four entries are not kept. -/
def uckSysinfoInit : Code Pointers := do
  let procDir ← procCreate e .dir
  if procDir then do
    let procNodes ← procCreate e .nodes
    let procCpuinfo ← procCreate e .cpuinfo
    let procMeminfo ← procCreate e .meminfo
    let procStatus ← procCreate e .status
    let procJobs ← procCreate e .jobs
    let _ ← procCreate e .latency
    let _ ← procCreate e .pages
    let _ ← procCreate e .errors
    let _ ← procCreate e .config
    pure { procDir, procNodes, procCpuinfo, procMeminfo, procStatus, procJobs }
  else pure {}

/-- `register_kretprobe(&uck_fork_probe)`, for `kernel_clone` and then for `_do_fork`. -/
def registerFork : Code Bool := do
  if e.kernelCloneRet < 0 then
    if e.doForkRet < 0 then pure false
    else do
      acquire .forkProbe
      pure true
  else do
    acquire .forkProbe
    pure true

/-- `uck_hyper_init`: whether `uck_hyper_wq` is set. -/
def uckHyperInit : Code Bool := do
  if e.workqueue then do
    acquire .workqueue
    let ok ← registerFork e
    if ok then
      if e.doExitRet < 0 then pure true
      else do
        acquire .exitProbe
        pure true
    else do
      release .workqueue
      pure false
  else pure false

/-- `uck_cgroup_init` and `uck_audit_init`. -/
def createIn (procDir : Bool) (x : Entry) : Code Bool := if procDir then procCreate e x else pure false

/-- `uck_init`: what it returns, and the pointers. -/
def uckInit : Code (Int × Pointers) := do
  if e.chrdevRet < 0 then pure (e.chrdevRet, {})
  else do
    acquire .chrdev
    if e.cdevRet < 0 then do
      release .chrdev
      pure (e.cdevRet, {})
    else do
      acquire .cdev
      if e.classRet < 0 then do
        release .cdev
        release .chrdev
        pure (e.classRet, {})
      else do
        acquire .cls
        if e.deviceRet < 0 then do
          release .cls
          release .cdev
          release .chrdev
          pure (e.deviceRet, {})
        else do
          acquire .device
          let p ← uckSysinfoInit e
          let hyperWq ← uckHyperInit e
          let procCgroup ← createIn e p.procDir .cgroup
          let procAudit ← createIn e p.procDir .audit
          pure (0, { p with hyperWq, procCgroup, procAudit })

end Init

/-! ## Unloading -/

section Exit

variable (p : Pointers)

/-- `if (ptr) proc_remove(ptr)`. -/
def procRemove (ptr : Bool) (x : Entry) : Code Unit := if ptr then release (.proc x) else pure ()

/-- `uck_hyper_stop`. -/
def uckHyperStop : Code Unit := do
  release .forkProbe
  release .exitProbe
  if p.hyperWq then release .workqueue else pure ()

/-- `uck_sysinfo_exit`. -/
def uckSysinfoExit : Code Unit := do
  release (.proc .latency)
  release (.proc .pages)
  release (.proc .errors)
  release (.proc .config)
  procRemove p.procJobs .jobs
  procRemove p.procStatus .status
  procRemove p.procMeminfo .meminfo
  procRemove p.procCpuinfo .cpuinfo
  procRemove p.procNodes .nodes
  procRemove p.procDir .dir

/-- `uck_exit`, without the threads and what they hold. -/
def uckExit : Code Unit := do
  procRemove p.procAudit .audit
  procRemove p.procCgroup .cgroup
  uckHyperStop p
  uckSysinfoExit p
  release .device
  release .cls
  release .cdev
  release .chrdev

end Exit

/-! ## What is registered -/

/-- At most one of a thing. -/
def opt (b : Bool) (r : Registered) : List Registered := if b then [r] else []

@[simp] theorem mem_opt {b : Bool} {r r' : Registered} : r' ∈ opt b r ↔ b = true ∧ r' = r := by
  cases b <;> simp [opt]

section Run

variable (e : Results) (l : List Registered)

/-- One of the two symbols can be probed. -/
def Results.forkRegistered : Bool := decide (0 ≤ e.kernelCloneRet) || decide (0 ≤ e.doForkRet)

/-- `uck_hyper_init` succeeds. -/
def Results.fork : Bool := e.workqueue && e.forkRegistered

/-- The pointers after `uck_init`. -/
def Results.pointers : Pointers where
  procDir := e.created .dir
  procNodes := e.created .dir && e.created .nodes
  procCpuinfo := e.created .dir && e.created .cpuinfo
  procMeminfo := e.created .dir && e.created .meminfo
  procStatus := e.created .dir && e.created .status
  procJobs := e.created .dir && e.created .jobs
  procCgroup := e.created .dir && e.created .cgroup
  procAudit := e.created .dir && e.created .audit
  hyperWq := e.fork

/-- What `uck_sysinfo_init` registers, the last first. -/
def Results.entries : List Registered :=
  [Entry.config, .errors, .pages, .latency, .jobs, .status, .meminfo, .cpuinfo, .nodes, .dir].flatMap fun x =>
    opt (e.created .dir && e.created x) (.proc x)

/-- What `uck_hyper_init` registers. -/
def Results.hooks : List Registered :=
  opt (e.fork && decide (0 ≤ e.doExitRet)) .exitProbe ++ opt e.fork .forkProbe ++ opt e.fork .workqueue

@[simp] theorem pure_run {α : Type} (a : α) (s : Multiset Registered) : (pure a : Code α) s = some (a, s) := rfl

@[simp] theorem acquire_run (r : Registered) : acquire r (.ofList l) = some ((), .ofList (r :: l)) := rfl

@[simp] theorem release_run (r : Registered) : release r (.ofList (r :: l)) = some ((), .ofList l) := by
  simp [release]

@[simp] theorem procCreate_run (x : Entry) :
    procCreate e x (.ofList l) = some (e.created x, .ofList (opt (e.created x) (.proc x) ++ l)) := by
  unfold procCreate opt
  cases e.created x with
  | true => rfl
  | false => rfl

@[simp] theorem createIn_run (procDir : Bool) (x : Entry) :
    createIn e procDir x (.ofList l) =
      some (procDir && e.created x, .ofList (opt (procDir && e.created x) (.proc x) ++ l)) := by
  cases procDir with
  | true => exact procCreate_run e l x
  | false => rfl

@[simp] theorem uckSysinfoInit_run :
    uckSysinfoInit e (.ofList l) = some
      ({ e.pointers with procCgroup := false, procAudit := false, hyperWq := false }, .ofList (e.entries ++ l)) := by
  cases hdir : e.created .dir with
  | true => simp [-bind_pure_comp, uckSysinfoInit, bind_apply, hdir, Results.pointers, Results.entries]
  | false => simp [uckSysinfoInit, bind_apply, hdir, Results.pointers, Results.entries, opt]

@[simp] theorem registerFork_run :
    registerFork e (.ofList l) = some (e.forkRegistered, .ofList (opt e.forkRegistered .forkProbe ++ l)) := by
  unfold registerFork Results.forkRegistered
  split
  · split
    · have hclone : ¬ 0 ≤ e.kernelCloneRet := by omega
      have hfork : ¬ 0 ≤ e.doForkRet := by omega
      simp [hclone, hfork, opt]
    · have hfork : 0 ≤ e.doForkRet := by omega
      simp [-bind_pure_comp, bind_apply, hfork, opt]
  · have hclone : 0 ≤ e.kernelCloneRet := by omega
    simp [-bind_pure_comp, bind_apply, hclone, opt]

@[simp] theorem uckHyperInit_run :
    uckHyperInit e (.ofList l) = some (e.fork, .ofList (e.hooks ++ l)) := by
  unfold uckHyperInit Results.hooks Results.fork
  cases e.workqueue with
  | false => simp [opt]
  | true =>
    cases hfork : e.forkRegistered with
    | false => simp [-bind_pure_comp, bind_apply, hfork, opt]
    | true =>
      by_cases hexit : e.doExitRet < 0
      · have hneg : ¬ 0 ≤ e.doExitRet := by omega
        simp [-bind_pure_comp, bind_apply, hfork, opt, hexit, hneg]
      · have hpos : 0 ≤ e.doExitRet := by omega
        simp [-bind_pure_comp, bind_apply, hfork, opt, hexit, hpos]

/-- What is registered after `uck_init`, the last first. -/
def Results.list : List Registered :=
  opt (e.created .dir && e.created .audit) (.proc .audit) ++
    opt (e.created .dir && e.created .cgroup) (.proc .cgroup) ++ e.hooks ++ e.entries ++
    [.device, .cls, .cdev, .chrdev]

/-- The device gets made. -/
def Results.DeviceMade : Prop := 0 ≤ e.chrdevRet ∧ 0 ≤ e.cdevRet ∧ 0 ≤ e.classRet ∧ 0 ≤ e.deviceRet

theorem uckInit_run_of_made (h : e.DeviceMade) :
    uckInit e (.ofList l) = some ((0, e.pointers), .ofList (e.list ++ l)) := by
  obtain ⟨hchrdev, hcdev, hclass, hdevice⟩ := h
  simp [-bind_pure_comp, uckInit, bind_apply, Int.not_lt.2, hchrdev, hcdev, hclass, hdevice, Results.list,
    Results.pointers]

/-- A module that is not loaded leaves nothing. -/
theorem uckInit_run_of_not_made (h : ¬ e.DeviceMade) :
    ∃ ret, ret < 0 ∧ uckInit e (.ofList l) = some ((ret, {}), .ofList l) := by
  by_cases hchrdev : e.chrdevRet < 0
  · exact ⟨_, hchrdev, by simp [uckInit, hchrdev]⟩
  · by_cases hcdev : e.cdevRet < 0
    · exact ⟨_, hcdev, by simp [-bind_pure_comp, uckInit, bind_apply, hchrdev, hcdev]⟩
    · by_cases hclass : e.classRet < 0
      · exact ⟨_, hclass, by simp [-bind_pure_comp, uckInit, bind_apply, hchrdev, hcdev, hclass]⟩
      · have hdevice : e.deviceRet < 0 := by
          unfold Results.DeviceMade at h
          omega
        exact ⟨_, hdevice, by simp [-bind_pure_comp, uckInit, bind_apply, hchrdev, hcdev, hclass, hdevice]⟩

end Run

/-! ## What is taken back -/

section TakeBack

variable (p : Pointers)

/-- The entries that `uck_sysinfo_exit` removes by their pointers. -/
def Pointers.entries : List Registered :=
  opt p.procJobs (.proc .jobs) ++ opt p.procStatus (.proc .status) ++ opt p.procMeminfo (.proc .meminfo) ++
    opt p.procCpuinfo (.proc .cpuinfo) ++ opt p.procNodes (.proc .nodes) ++ opt p.procDir (.proc .dir)

/-- What `uck_exit` takes back, in its order. -/
def Pointers.list : List Registered :=
  opt p.procAudit (.proc .audit) ++ opt p.procCgroup (.proc .cgroup) ++
    ([.forkProbe, .exitProbe] ++ opt p.hyperWq .workqueue) ++
    ([.proc .latency, .proc .pages, .proc .errors, .proc .config] ++ p.entries) ++ [.device, .cls, .cdev, .chrdev]

theorem each_opt (b : Bool) (r : Registered) : each release (opt b r) = if b then release r else pure () := by
  cases b with
  | true => simp [opt, each]
  | false => rfl

theorem uckExit_eq : uckExit p = each release p.list := by
  simp [uckExit, uckHyperStop, uckSysinfoExit, procRemove, Pointers.list, Pointers.entries, each_append, each_opt, each]

/-- What the module needs to be able to take everything back: both probes, the directory and the entries whose pointers
are not kept. -/
structure Results.Complete (e : Results) : Prop where
  fork : e.fork = true
  exit : 0 ≤ e.doExitRet
  dir : e.created .dir = true
  latency : e.created .latency = true
  pages : e.created .pages = true
  errors : e.created .errors = true
  config : e.created .config = true

theorem created_of_mem {e : Results} {x : Entry} (h : .proc x ∈ e.list) :
    e.created .dir = true ∧ e.created x = true := by
  have hopt : ∀ {y : Entry}, .proc x ∈ opt (e.created .dir && e.created y) (.proc y) →
      e.created .dir = true ∧ e.created x = true := by
    intro y hy
    obtain ⟨hb, heq⟩ := mem_opt.1 hy
    cases heq
    simpa using hb
  simp only [Results.list, List.mem_append] at h
  rcases h with (((h | h) | h) | h) | h
  · exact hopt h
  · exact hopt h
  · simp [Results.hooks] at h
  · obtain ⟨y, -, hy⟩ := List.mem_flatMap.1 h
    exact hopt hy
  · simp at h

theorem exitProbe_of_mem {e : Results} (h : .exitProbe ∈ e.list) : e.fork = true ∧ 0 ≤ e.doExitRet := by
  simpa [Results.list, Results.hooks, Results.entries] using h

/-- Without one of these, `uck_exit` takes back something that is not there. -/
theorem Results.Complete.of_le {e : Results}
    (h : (e.pointers.list : Multiset Registered) ≤ (e.list : Multiset Registered)) : e.Complete := by
  have hmem : ∀ r ∈ e.pointers.list, r ∈ e.list := fun r hr => by
    simpa using Multiset.subset_of_le h (Multiset.mem_coe.2 hr)
  obtain ⟨hfork, hexit⟩ := exitProbe_of_mem (hmem .exitProbe (by simp [Pointers.list]))
  obtain ⟨hdir, hlatency⟩ := created_of_mem (hmem (.proc .latency) (by simp [Pointers.list]))
  obtain ⟨-, hpages⟩ := created_of_mem (hmem (.proc .pages) (by simp [Pointers.list]))
  obtain ⟨-, herrors⟩ := created_of_mem (hmem (.proc .errors) (by simp [Pointers.list]))
  obtain ⟨-, hconfig⟩ := created_of_mem (hmem (.proc .config) (by simp [Pointers.list]))
  exact ⟨hfork, hexit, hdir, hlatency, hpages, herrors, hconfig⟩

/-- With all of these, `uck_exit` takes back what is there, in another order. -/
theorem Results.Complete.perm {e : Results} (h : e.Complete) : e.list.Perm e.pointers.list := by
  obtain ⟨hfork, hexit, hdir, hlatency, hpages, herrors, hconfig⟩ := h
  have hhooks : e.hooks.Perm ([.forkProbe, .exitProbe] ++ opt e.pointers.hyperWq .workqueue) := by
    simpa [hooks, pointers, hfork, hexit, opt] using List.Perm.swap _ _ _
  have hentries : e.entries =
      [.proc .config, .proc .errors, .proc .pages, .proc .latency] ++ e.pointers.entries := by
    simp [entries, Pointers.entries, pointers, opt, hdir, hlatency, hpages, herrors, hconfig]
  have hsingles : e.entries.Perm
      ([.proc .latency, .proc .pages, .proc .errors, .proc .config] ++ e.pointers.entries) := by
    rw [hentries]
    exact List.Perm.append_right _ (by decide)
  exact (((List.Perm.refl _).append hhooks).append hsingles).append_right _

end TakeBack

/-- **Loading and unloading.** If the device cannot be made, `uck_init` fails and leaves nothing registered. Otherwise
the module is loaded, and `uck_exit` takes back exactly what is registered if both probes, `/proc/uck` and its four
entries without a pointer are there; if one of them is missing, it takes back something that was never registered. -/
theorem load_unload (e : Results) :
    ∃ ret p H, uckInit e 0 = some ((ret, p), H) ∧ (ret < 0 ↔ ¬ e.DeviceMade) ∧ (ret < 0 → H = 0) ∧
      (¬ ret < 0 → (e.Complete → uckExit p H = some ((), 0)) ∧ (¬ e.Complete → uckExit p H = none)) := by
  by_cases hmade : e.DeviceMade
  · have hrun := uckInit_run_of_made e [] hmade
    refine ⟨0, e.pointers, .ofList e.list, by simpa using hrun, by simpa using hmade, by simp, fun _ => ?_⟩
    rw [uckExit_eq, each_release]
    refine ⟨fun hcomplete => ?_, fun hmissing => if_neg fun hle => hmissing (.of_le hle)⟩
    have hperm : (e.list : Multiset Registered) = e.pointers.list := Multiset.coe_eq_coe.2 hcomplete.perm
    rw [hperm, if_pos le_rfl, ← Multiset.eq_sub_of_add_eq (Multiset.zero_add _)]
  · obtain ⟨ret, hret, hrun⟩ := uckInit_run_of_not_made e [] hmade
    refine ⟨ret, {}, 0, by simpa using hrun, ?_, fun _ => rfl, fun hneg => absurd hret hneg⟩
    exact ⟨fun _ => hmade, fun _ => hret⟩

end UckSmp.Load
