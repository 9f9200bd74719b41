import UckSmp.Exec.Wrap
import UckSmp.Membership.Unique
import UckSmp.Sched.Place

/-!
# Load balancing

`uck_load.c`: the score that compares the loads of the nodes, the process that is worth moving, and one iteration of
the balancing thread. All numbers about other nodes are what these report; they are combined in 32 and 64 bits.

* `uckFindLeastLoaded_isSome_iff`: when the search divides by zero.
* `leastLoaded_iff`: when the parts of the scores are what they stand for and the node found has the least exact one.
* `uckFindLeastLoaded_leastLoaded`: in particular, where no computation wraps.
* `uckLoadbalIteration_triggers_iff`: when an iteration looks for a destination just on a load half again the average.
-/

namespace UckSmp.Sched

open Lib UckSmp.Membership
open UckSmp.Exec (ascii)

/-! ## The least loaded node -/

/-- The four parts of a node's score in `uck_find_least_loaded`. -/
structure Scores where
  cpu : Int32
  mem : Int32
  io : Int32
  task : Int32
  deriving DecidableEq, Repr

/-- Memory in use, in percent. -/
def memScore (stats : StatsBody) : Int32 :=
  if 0 < stats.totalMem then
    ((stats.totalMem - stats.freeMem) * 100 / stats.totalMem).toUInt32.toInt32
  else 0

/-- Tasks in percent of four for each processor, at most 100; `none` is a division by zero. -/
def taskScore (stats : StatsBody) : Option Int32 :=
  if 0 < stats.nrCpus then
    if stats.nrCpus * 4 = 0 then none
    else
      let taskScore := (stats.nrRunning * 100 / (stats.nrCpus * 4)).toInt32
      some (if 100 < taskScore then 100 else taskScore)
  else some 0

def scores (stats : StatsBody) : Option Scores :=
  (taskScore stats).map fun task => ⟨stats.loadAvg.toInt32, memScore stats, 0, task⟩

/-- One part with its weight. -/
def weigh (x weight : Int32) : Int32 := x * weight / 100

def Scores.total (s : Scores) : Int32 := weigh s.cpu 40 + weigh s.mem 30 + weigh s.io 20 + weigh s.task 10

/-- One round of the loop of `uck_find_least_loaded`. -/
def findRound (best : Int32 × Option RemoteNode) (node : RemoteNode) : Option (Int32 × Option RemoteNode) :=
  if !node.alive then some best
  else do
    let s ← scores node.stats.toStatsBody
    return if s.total < best.1 then (s.total, some node) else best

/-- `uck_find_least_loaded`; `none` is a division by zero, `some none` the null pointer. -/
def uckFindLeastLoaded (nodes : List RemoteNode) : Option (Option RemoteNode) :=
  (nodes.foldlM findRound (Int32.maxValue, none)).map (·.2)

/-! ## The process to move -/

/-- What `uck_pick_migratable` reads of a task. -/
structure Task where
  pid : Nat
  kthread : Bool
  nrThreads : Nat
  globalInit : Bool
  uid : UInt32
  comm : List Byte
  sumExecRuntime : UInt64
  deriving DecidableEq, Repr

/-- The names of the processes that stay. -/
def infrastructure : List (List Byte) :=
  ["bash", "sh", "login", "getty", "agetty", "sshd", "mosrun", "mosd"].map ascii

/-- The tasks that `uck_pick_migratable` does not skip. -/
def Task.migratable (task : Task) : Bool :=
  !(task.pid ≤ 2 || task.kthread || 1 < task.nrThreads || task.globalInit || task.uid == 0 ||
    task.comm.take 3 == ascii "uck" || task.comm.take 7 == ascii "systemd" || infrastructure.contains task.comm)

/-- `uck_pick_migratable`. -/
def uckPickMigratable (tasks : List Task) : Option Task :=
  (tasks.foldl (fun best task =>
    if task.migratable && best.1 < task.sumExecRuntime then (task.sumExecRuntime, some task) else best)
    ((0 : UInt64), none)).2

/-! ## The balancing thread -/

def loadThresholdPct : UInt32 := 150

/-- The sum of the loads in `uck_loadbal_thread`. -/
def totalLoad (localLoad : UInt32) (nodes : List RemoteNode) : UInt32 :=
  nodes.foldl (fun total node => if node.alive then total + node.stats.loadAvg else total) localLoad

/-- How an iteration of `uck_loadbal_thread` ends. -/
inductive Iteration
  /-- No destination is looked for. -/
  | idle
  /-- The search for a destination divides by zero. -/
  | fault
  | noNode
  | noTask
  | migrate (pid : Nat) (destNode : UInt32)
  deriving DecidableEq, Repr

/-- One iteration of `uck_loadbal_thread`, with the stats that `uck_update_local_stats` has written. -/
def uckLoadbalIteration (loadbalEnabled : Bool) (localStats : StatsBody) (nodes : List RemoteNode)
    (tasks : List Task) : Iteration :=
  if !loadbalEnabled then .idle
  else
    let cinfo := uckGetClusterInfo localStats nodes
    if cinfo.numNodes ≤ 1 then .idle
    else
      let avgLoad :=
        if 0 < cinfo.numNodes then totalLoad localStats.loadAvg nodes / cinfo.numNodes else localStats.loadAvg
      if avgLoad = 0 ∨ localStats.loadAvg * 100 / avgLoad < loadThresholdPct then .idle
      else
        match uckFindLeastLoaded nodes with
        | none => .fault
        | some none => .noNode
        | some (some dest) =>
          match uckPickMigratable tasks with
          | none => .noTask
          | some task => .migrate task.pid dest.info.nodeId

/-! ## Statement -/

/-- Memory in use over the integers. -/
def exactMem (stats : StatsBody) : ℤ :=
  if 0 < stats.totalMem then
    ((stats.totalMem.toNat : ℤ) - stats.freeMem.toNat) * 100 / stats.totalMem.toNat
  else 0

/-- Tasks over the integers. -/
def exactTask (stats : StatsBody) : ℤ :=
  if 0 < stats.nrCpus then
    min 100 ((stats.nrRunning.toNat : ℤ) * 100 / (stats.nrCpus.toNat * 4))
  else 0

/-- The weighted score over the integers. -/
def exactTotal (stats : StatsBody) : ℤ :=
  (stats.loadAvg.toNat : ℤ) * 40 / 100 + exactMem stats * 30 / 100 + exactTask stats * 10 / 100

/-- Every part of a score is what it stands for, the percentages are percentages. -/
structure Scores.Exact (s : Scores) (stats : StatsBody) : Prop where
  cpu : s.cpu.toInt = stats.loadAvg.toNat
  mem : s.mem.toInt = exactMem stats
  mem_le : 0 ≤ s.mem.toInt ∧ s.mem.toInt ≤ 100
  io : s.io.toInt = 0
  task : s.task.toInt = exactTask stats
  task_le : 0 ≤ s.task.toInt ∧ s.task.toInt ≤ 100

/-- The search for the least loaded node is safe and finds it. -/
structure LeastLoaded (nodes : List RemoteNode) : Prop where
  defined : uckFindLeastLoaded nodes ≠ none
  exact : ∀ x ∈ nodes, x.alive → ∃ s, scores x.stats.toStatsBody = some s ∧ s.Exact x.stats.toStatsBody
  minimal : ∀ node, uckFindLeastLoaded nodes = some (some node) → node ∈ nodes ∧ node.alive ∧
    ∀ x ∈ nodes, x.alive → exactTotal node.stats.toStatsBody ≤ exactTotal x.stats.toStatsBody
  null : uckFindLeastLoaded nodes = some none ↔ ∀ x ∈ nodes, x.alive = false

/-- Stats of which every part of the score is what it stands for. -/
structure PartsFit (stats : StatsBody) : Prop where
  load : stats.loadAvg.toNat < 2 ^ 31
  free : 0 < stats.totalMem → stats.freeMem ≤ stats.totalMem
  used : 0 < stats.totalMem → (stats.totalMem.toNat - stats.freeMem.toNat) * 100 < 2 ^ 64
  cpus : 0 < stats.nrCpus → stats.nrCpus * 4 ≠ 0
  running : 0 < stats.nrCpus →
    min 100 (stats.nrRunning.toNat * 100 % 2 ^ 32 / (stats.nrCpus.toNat * 4 % 2 ^ 32)) =
      min 100 (stats.nrRunning.toNat * 100 / (stats.nrCpus.toNat * 4))

/-- The weighted score of such stats: the load times its weight keeps 32 bits. -/
def intTotal (stats : StatsBody) : ℤ :=
  (((stats.loadAvg.toNat : ℤ) * 40).bmod (2 ^ 32)).tdiv 100 + exactMem stats * 30 / 100 + exactTask stats * 10 / 100

/-- The first of the nodes that are alive for which least is left of the weighted score. -/
def FirstLeast (nodes : List RemoteNode) (node : RemoteNode) : Prop :=
  ∃ pre post, nodes = pre ++ node :: post ∧ node.alive ∧
    (∀ x ∈ pre, x.alive → intTotal node.stats.toStatsBody < intTotal x.stats.toStatsBody) ∧
    ∀ x ∈ post, x.alive → intTotal node.stats.toStatsBody ≤ intTotal x.stats.toStatsBody

/-- Stats that the computation of the score does not wrap on. -/
structure Fits (stats : StatsBody) : Prop where
  load : stats.loadAvg.toNat * 40 < 2 ^ 31
  free : 0 < stats.totalMem → stats.freeMem ≤ stats.totalMem
  used : 0 < stats.totalMem → (stats.totalMem.toNat - stats.freeMem.toNat) * 100 < 2 ^ 64
  cpus : stats.nrCpus.toNat < 2 ^ 30
  running : 0 < stats.nrCpus → stats.nrRunning.toNat * 100 < 2 ^ 32

/-- The sum of the loads of the nodes that are alive. -/
def aliveLoad (nodes : List RemoteNode) : Nat := ((nodes.filter (·.alive)).map (·.stats.loadAvg.toNat)).sum

/-- The average load over the integers. -/
def exactAverage (localLoad : UInt32) (nodes : List RemoteNode) : Nat :=
  (localLoad.toNat + aliveLoad nodes) / (1 + nodes.countP (·.alive))

/-- The local load is at least half again the average, and there is any. -/
def Overloaded (localLoad : UInt32) (nodes : List RemoteNode) : Prop :=
  0 < exactAverage localLoad nodes ∧ 3 * exactAverage localLoad nodes ≤ 2 * localLoad.toNat

instance (localLoad : UInt32) (nodes : List RemoteNode) : Decidable (Overloaded localLoad nodes) :=
  inferInstanceAs (Decidable (_ ∧ _))

/-- The average of what is left of the sum of the loads in 32 bits. -/
def cutAverage (localLoad : UInt32) (nodes : List RemoteNode) : Nat :=
  (localLoad.toNat + aliveLoad nodes) % 2 ^ 32 / (1 + nodes.countP (·.alive))

/-! ## Parts of a score -/

theorem toInt_toInt32_of_lt {x : UInt32} (h : x.toNat < 2 ^ 31) : x.toInt32.toInt = x.toNat := by
  rw [toInt_toInt32]
  exact Int.bmod_eq_of_le (by omega) (by omega)

theorem taskScore_eq_none_iff (stats : StatsBody) :
    taskScore stats = none ↔ 0 < stats.nrCpus ∧ stats.nrCpus * 4 = 0 := by
  unfold taskScore
  split
  · split <;> simp_all
  · simp_all

theorem toNat_pos {x : UInt64} (h : 0 < x) : 0 < x.toNat := by
  rwa [UInt64.lt_iff_toNat_lt, UInt64.toNat_zero] at h

/-- As long as no more is free than there is, the memory in use loses nothing but the high bits of the product. -/
theorem toInt_memScore {stats : StatsBody} (hpos : 0 < stats.totalMem) (hfree : stats.freeMem ≤ stats.totalMem) :
    (memScore stats).toInt =
      ((stats.totalMem.toNat - stats.freeMem.toNat) * 100 % 2 ^ 64 / stats.totalMem.toNat : ℕ) := by
  have hquot : ((stats.totalMem - stats.freeMem) * 100 / stats.totalMem).toNat =
      (stats.totalMem.toNat - stats.freeMem.toNat) * 100 % 2 ^ 64 / stats.totalMem.toNat := by
    rw [UInt64.toNat_div, UInt64.toNat_mul, UInt64.toNat_sub_of_le _ _ hfree]
    rfl
  have hle : (stats.totalMem.toNat - stats.freeMem.toNat) * 100 % 2 ^ 64 / stats.totalMem.toNat ≤ 100 := by
    apply Nat.div_le_of_le_mul
    exact (Nat.mod_le _ _).trans (Nat.mul_le_mul_right 100 (Nat.sub_le _ _))
  have hnat : ((stats.totalMem - stats.freeMem) * 100 / stats.totalMem).toUInt32.toNat =
      (stats.totalMem.toNat - stats.freeMem.toNat) * 100 % 2 ^ 64 / stats.totalMem.toNat := by
    rw [UInt64.toNat_toUInt32, hquot]
    omega
  rw [memScore, if_pos hpos, toInt_toInt32_of_lt (by omega), hnat]

theorem exactMem_of_le {stats : StatsBody} (hpos : 0 < stats.totalMem) (hfree : stats.freeMem ≤ stats.totalMem) :
    exactMem stats = ((stats.totalMem.toNat - stats.freeMem.toNat) * 100 / stats.totalMem.toNat : ℕ) := by
  have hle := UInt64.le_iff_toNat_le.1 hfree
  rw [exactMem, if_pos hpos]
  push_cast [hle]
  rfl

/-- A product that wraps gives a smaller quotient. -/
theorem mod_div_eq_iff {x t : ℕ} (hpos : 0 < t) (ht : t < 2 ^ 64) : x % 2 ^ 64 / t = x / t ↔ x < 2 ^ 64 := by
  refine ⟨fun h => not_le.1 fun hle => ?_, fun h => by rw [Nat.mod_eq_of_lt h]⟩
  have hlt : x % 2 ^ 64 / t < x / t := by
    rw [Nat.lt_iff_add_one_le, ← Nat.add_div_right _ hpos]
    apply Nat.div_le_div_right
    omega
  omega

/-- The memory in use is the exact percentage exactly if no more is free than there is and the product does not wrap. -/
theorem memScore_exact_iff (stats : StatsBody) :
    ((memScore stats).toInt = exactMem stats ∧ 0 ≤ (memScore stats).toInt ∧ (memScore stats).toInt ≤ 100) ↔
      (0 < stats.totalMem → stats.freeMem ≤ stats.totalMem ∧
        (stats.totalMem.toNat - stats.freeMem.toNat) * 100 < 2 ^ 64) := by
  by_cases hpos : 0 < stats.totalMem
  · have hnat := toNat_pos hpos
    by_cases hfree : stats.freeMem ≤ stats.totalMem
    · have hle : (stats.totalMem.toNat - stats.freeMem.toNat) * 100 / stats.totalMem.toNat ≤ 100 := by
        apply Nat.div_le_of_le_mul
        exact Nat.mul_le_mul_right 100 (Nat.sub_le _ _)
      rw [toInt_memScore hpos hfree, exactMem_of_le hpos hfree, Int.natCast_inj,
        mod_div_eq_iff hnat stats.totalMem.toNat_lt]
      constructor
      · exact fun h _ => ⟨hfree, h.1⟩
      · intro h
        have hused := (h hpos).2
        rw [Nat.mod_eq_of_lt hused]
        exact ⟨hused, Int.natCast_nonneg _, by exact_mod_cast hle⟩
    · -- the exact value is negative
      have hlt := UInt64.lt_iff_toNat_lt.1 (UInt64.not_le.1 hfree)
      have hneg : exactMem stats < 0 := by
        rw [exactMem, if_pos hpos]
        exact Int.ediv_neg_of_neg_of_pos (by omega) (by omega)
      exact ⟨fun h => by omega, fun h => absurd (h hpos).1 hfree⟩
  · have hmem : memScore stats = 0 := if_neg hpos
    have hexact : exactMem stats = 0 := if_neg hpos
    rw [hmem, hexact]
    exact ⟨fun _ h => absurd h hpos, fun _ => ⟨by decide, by decide, by decide⟩⟩

/-- The tasks lose nothing but the high bits of the two products. -/
theorem toInt_taskScore {stats : StatsBody} (hpos : 0 < stats.nrCpus) (hne : stats.nrCpus * 4 ≠ 0) :
    ∃ v, taskScore stats = some v ∧ v.toInt =
      (min 100 (stats.nrRunning.toNat * 100 % 2 ^ 32 / (stats.nrCpus.toNat * 4 % 2 ^ 32)) : ℕ) := by
  have hdiv : (stats.nrCpus * 4).toNat = stats.nrCpus.toNat * 4 % 2 ^ 32 := UInt32.toNat_mul _ _
  -- a divisor that is not 0 is at least 4
  have hfour : 4 ≤ stats.nrCpus.toNat * 4 % 2 ^ 32 := by
    have h0 : (stats.nrCpus * 4).toNat ≠ 0 := fun h => hne (UInt32.toNat_inj.1 h)
    omega
  have hquot : (stats.nrRunning * 100 / (stats.nrCpus * 4)).toNat =
      stats.nrRunning.toNat * 100 % 2 ^ 32 / (stats.nrCpus.toNat * 4 % 2 ^ 32) := by
    rw [UInt32.toNat_div, hdiv, UInt32.toNat_mul]
    rfl
  have hlt : stats.nrRunning.toNat * 100 % 2 ^ 32 / (stats.nrCpus.toNat * 4 % 2 ^ 32) < 2 ^ 31 := by
    apply Nat.div_lt_of_lt_mul
    omega
  have hint := toInt_toInt32_of_lt (hquot.trans_lt hlt)
  have h100 : (100 : Int32).toInt = 100 := by decide
  rw [hquot] at hint
  refine ⟨_, by rw [taskScore, if_pos hpos, if_neg hne], ?_⟩
  split
  next hgt =>
    rw [Int32.lt_iff_toInt_lt, hint, h100] at hgt
    omega
  next hle =>
    rw [Int32.lt_iff_toInt_lt, hint, h100] at hle
    omega

theorem exactTask_of_pos {stats : StatsBody} (hpos : 0 < stats.nrCpus) :
    exactTask stats = (min 100 (stats.nrRunning.toNat * 100 / (stats.nrCpus.toNat * 4)) : ℕ) := by
  have hexact : (stats.nrRunning.toNat : ℤ) * 100 / (stats.nrCpus.toNat * 4) =
      (stats.nrRunning.toNat * 100 / (stats.nrCpus.toNat * 4) : ℕ) := by
    push_cast
    rfl
  rw [exactTask, if_pos hpos, hexact]
  omega

/-- The tasks are the exact percentage exactly if the divisor does not wrap to 0 and what wraps makes no difference. -/
theorem taskScore_exact_iff (stats : StatsBody) :
    (∃ v, taskScore stats = some v ∧ v.toInt = exactTask stats ∧ 0 ≤ v.toInt ∧ v.toInt ≤ 100) ↔
      (0 < stats.nrCpus → stats.nrCpus * 4 ≠ 0 ∧
        min 100 (stats.nrRunning.toNat * 100 % 2 ^ 32 / (stats.nrCpus.toNat * 4 % 2 ^ 32)) =
          min 100 (stats.nrRunning.toNat * 100 / (stats.nrCpus.toNat * 4))) := by
  by_cases hpos : 0 < stats.nrCpus
  · by_cases hne : stats.nrCpus * 4 = 0
    · rw [(taskScore_eq_none_iff stats).2 ⟨hpos, hne⟩]
      constructor
      · rintro ⟨v, hv, -⟩
        cases hv
      · exact fun h => absurd hne (h hpos).1
    · obtain ⟨v, hv, hint⟩ := toInt_taskScore hpos hne
      rw [exactTask_of_pos hpos]
      constructor
      · rintro ⟨w, hw, heq, -⟩ -
        obtain rfl := Option.some.inj (hv.symm.trans hw)
        exact ⟨hne, Int.natCast_inj.1 (hint.symm.trans heq)⟩
      · intro h
        have hle := Nat.min_le_left 100 (stats.nrRunning.toNat * 100 / (stats.nrCpus.toNat * 4))
        rw [(h hpos).2] at hint
        exact ⟨v, hv, hint, hint ▸ Int.natCast_nonneg _, hint ▸ by exact_mod_cast hle⟩
  · have htask : taskScore stats = some 0 := if_neg hpos
    have hexact : exactTask stats = 0 := if_neg hpos
    rw [htask, hexact]
    exact ⟨fun _ h => absurd h hpos, fun _ => ⟨0, rfl, by decide, by decide, by decide⟩⟩

theorem toInt_toInt32_eq_iff (x : UInt32) : x.toInt32.toInt = x.toNat ↔ x.toNat < 2 ^ 31 := by
  refine ⟨fun h => ?_, toInt_toInt32_of_lt⟩
  have hlt := x.toInt32.toInt_lt
  omega

/-- A score has the parts that it stands for exactly if these fit. -/
theorem scores_exact_iff (stats : StatsBody) : (∃ s, scores stats = some s ∧ s.Exact stats) ↔ PartsFit stats := by
  constructor
  · rintro ⟨s, hs, he⟩
    obtain ⟨task, htask, rfl⟩ := Option.map_eq_some_iff.1 hs
    have hmem := (memScore_exact_iff stats).1 ⟨he.mem, he.mem_le⟩
    have hrun := (taskScore_exact_iff stats).1 ⟨task, htask, he.task, he.task_le⟩
    exact {
      load := (toInt_toInt32_eq_iff _).1 he.cpu
      free := fun h => (hmem h).1
      used := fun h => (hmem h).2
      cpus := fun h => (hrun h).1
      running := fun h => (hrun h).2 }
  · intro h
    obtain ⟨task, htask, hexact, hbounds⟩ := (taskScore_exact_iff stats).2 fun hpos => ⟨h.cpus hpos, h.running hpos⟩
    obtain ⟨hmem, hmembounds⟩ := (memScore_exact_iff stats).2 fun hpos => ⟨h.free hpos, h.used hpos⟩
    refine ⟨_, by rw [scores, htask, Option.map_some], ?_⟩
    exact {
      cpu := toInt_toInt32_of_lt h.load
      mem := hmem
      mem_le := hmembounds
      io := rfl
      task := hexact
      task_le := hbounds }

theorem Fits.partsFit {stats : StatsBody} (h : Fits stats) : PartsFit stats where
  load := by have := h.load; omega
  free := h.free
  used := h.used
  cpus hpos h0 := by
    have hcpus := h.cpus
    have hdiv : (stats.nrCpus * 4).toNat = stats.nrCpus.toNat * 4 % 2 ^ 32 := UInt32.toNat_mul _ _
    have hc := UInt32.lt_iff_toNat_lt.1 hpos
    rw [h0, UInt32.toNat_zero] at hdiv
    rw [UInt32.toNat_zero] at hc
    omega
  running hpos := by
    have hcpus := h.cpus
    rw [Nat.mod_eq_of_lt (h.running hpos), Nat.mod_eq_of_lt (show stats.nrCpus.toNat * 4 < 2 ^ 32 by omega)]

/-! ## The weighted score -/

theorem tdiv_bounds (x : Int32) : -21474836 ≤ x.toInt.tdiv 100 ∧ x.toInt.tdiv 100 ≤ 21474836 := by
  have hlo := x.le_toInt
  have hhi := x.toInt_lt
  rw [Int.tdiv_eq_ediv, Int.sign_eq_one_of_pos (by decide)]
  split <;> omega

/-- A weighted part loses nothing but the high bits of the product. -/
theorem toInt_weigh (x w : Int32) : (weigh x w).toInt = ((x.toInt * w.toInt).bmod (2 ^ 32)).tdiv 100 := by
  have h100 : (100 : Int32).toInt = 100 := by decide
  have hbounds := tdiv_bounds (x * w)
  rw [weigh, Int32.toInt_div, h100, Int.bmod_eq_of_le (by omega) (by omega), Int32.toInt_mul]

/-- So it is small whatever it is computed from. -/
theorem weigh_bounds (x w : Int32) : -21474836 ≤ (weigh x w).toInt ∧ (weigh x w).toInt ≤ 21474836 := by
  have hmul : (x * w).toInt = (x.toInt * w.toInt).bmod (2 ^ 32) := Int32.toInt_mul x w
  rw [toInt_weigh, ← hmul]
  exact tdiv_bounds (x * w)

theorem toInt_weigh_of_small {x w : Int32} {n : ℤ} (hw : w.toInt = n) (h0 : 0 ≤ x.toInt * n)
    (h : x.toInt * n < 2 ^ 31) : (weigh x w).toInt = x.toInt * n / 100 := by
  rw [toInt_weigh, hw, Int.bmod_eq_of_le (by omega) (by omega), Int.tdiv_eq_ediv_of_nonneg h0]

theorem toInt_add_of_small {x y : Int32} (hlo : -2 ^ 31 ≤ x.toInt + y.toInt) (hhi : x.toInt + y.toInt < 2 ^ 31) :
    (x + y).toInt = x.toInt + y.toInt := by
  rw [Int32.toInt_add]
  exact Int.bmod_eq_of_le (by omega) (by omega)

/-- The sum of the weighted parts never wraps. -/
theorem Scores.toInt_total (s : Scores) : s.total.toInt =
    (weigh s.cpu 40).toInt + (weigh s.mem 30).toInt + (weigh s.io 20).toInt + (weigh s.task 10).toInt := by
  have hc := weigh_bounds s.cpu 40
  have hm := weigh_bounds s.mem 30
  have hi := weigh_bounds s.io 20
  have ht := weigh_bounds s.task 10
  have hcm := toInt_add_of_small (x := weigh s.cpu 40) (y := weigh s.mem 30) (by omega) (by omega)
  have hcmi := toInt_add_of_small (x := weigh s.cpu 40 + weigh s.mem 30) (y := weigh s.io 20) (by omega) (by omega)
  rw [Scores.total, toInt_add_of_small (by omega) (by omega), hcmi, hcm]

/-- So it stays below the start of the loop. -/
theorem Scores.total_lt (s : Scores) : s.total < Int32.maxValue := by
  have hc := weigh_bounds s.cpu 40
  have hm := weigh_bounds s.mem 30
  have hi := weigh_bounds s.io 20
  have ht := weigh_bounds s.task 10
  have hmax : Int32.maxValue.toInt = 2147483647 := by decide
  rw [Int32.lt_iff_toInt_lt, s.toInt_total, hmax]
  omega

theorem Scores.Exact.toInt_total {s : Scores} {stats : StatsBody} (h : s.Exact stats) :
    s.total.toInt = intTotal stats := by
  have hmem := h.mem_le
  have htask := h.task_le
  have hio := h.io
  have h40 : (40 : Int32).toInt = 40 := by decide
  have hm : (weigh s.mem 30).toInt = s.mem.toInt * 30 / 100 := toInt_weigh_of_small (by decide) (by omega) (by omega)
  have hi : (weigh s.io 20).toInt = 0 := by
    rw [toInt_weigh_of_small (n := 20) (by decide) (by omega) (by omega), hio]
    rfl
  have ht : (weigh s.task 10).toInt = s.task.toInt * 10 / 100 := toInt_weigh_of_small (by decide) (by omega) (by omega)
  unfold intTotal
  rw [s.toInt_total, toInt_weigh, hm, hi, ht, h40, h.cpu, h.mem, h.task, Int.add_zero]

theorem Fits.intTotal_eq {stats : StatsBody} (h : Fits stats) : intTotal stats = exactTotal stats := by
  have hload := h.load
  unfold intTotal exactTotal
  rw [Int.bmod_eq_of_le (by omega) (by omega), Int.tdiv_eq_ediv_of_nonneg (by omega)]

/-! ## The search -/

/-- The scores that the loop compares. -/
def loadScored (node : RemoteNode) : Option Int32 :=
  if node.alive then (scores node.stats.toStatsBody).map (·.total) else none

theorem findRound_eq (best : Int32 × Option RemoteNode) {node : RemoteNode}
    (h : node.alive → (scores node.stats.toStatsBody).isSome) :
    findRound best node = some (Best.keep (· < ·) loadScored best node) := by
  unfold findRound Best.keep loadScored
  cases ha : node.alive with
  | false => simp
  | true =>
    obtain ⟨s, hs⟩ := Option.isSome_iff_exists.1 (h ha)
    simp [hs]

/-- A search that does not divide by zero keeps the best score. -/
theorem foldlM_findRound {nodes : List RemoteNode} (best : Int32 × Option RemoteNode)
    (h : ∀ x ∈ nodes, x.alive → (scores x.stats.toStatsBody).isSome) :
    nodes.foldlM findRound best = some (nodes.foldl (Best.keep (· < ·) loadScored) best) := by
  induction nodes generalizing best with
  | nil => rfl
  | cons x nodes ih =>
    rw [List.foldlM_cons, findRound_eq best (h x List.mem_cons_self), Option.bind_eq_bind, Option.bind_some,
      ih _ fun y hy => h y (List.mem_cons_of_mem _ hy), List.foldl_cons]

theorem isSome_scores_iff (stats : StatsBody) :
    (scores stats).isSome ↔ (0 < stats.nrCpus → stats.nrCpus * 4 ≠ 0) := by
  rw [scores, Option.isSome_map, Option.isSome_iff_ne_none, Ne, taskScore_eq_none_iff, not_and]

/-- The search divides by zero exactly if a node that is alive reports a number of processors whose fourfold wraps
to 0. -/
theorem uckFindLeastLoaded_isSome_iff (nodes : List RemoteNode) : (uckFindLeastLoaded nodes).isSome ↔
    ∀ x ∈ nodes, x.alive → 0 < x.stats.nrCpus → x.stats.nrCpus * 4 ≠ 0 := by
  simp only [← isSome_scores_iff]
  constructor
  · intro h x hx ha
    rw [uckFindLeastLoaded, Option.isSome_map] at h
    -- the loop reaches `x` with some best score, and goes on from there
    obtain ⟨before, after, rfl⟩ := List.append_of_mem hx
    rw [List.foldlM_append] at h
    obtain ⟨best, -, hrest⟩ := Option.bind_eq_some_iff.1 (Option.eq_some_of_isSome h)
    obtain ⟨next, hround, -⟩ := Option.bind_eq_some_iff.1 (List.foldlM_cons.symm.trans hrest)
    rw [findRound, ha] at hround
    obtain ⟨s, hs, -⟩ := Option.bind_eq_some_iff.1 hround
    rw [hs]
    rfl
  · intro h
    rw [uckFindLeastLoaded, foldlM_findRound _ h]
    rfl

section Defined

variable {nodes : List RemoteNode} (hdef : ∀ x ∈ nodes, x.alive → (scores x.stats.toStatsBody).isSome)
include hdef

theorem searched : ∃ best : Int32 × Option RemoteNode, uckFindLeastLoaded nodes = some best.2 ∧
    Best.Scanned (· < ·) loadScored Int32.maxValue nodes best := by
  refine ⟨_, by rw [uckFindLeastLoaded, foldlM_findRound _ hdef, Option.map_some], ?_⟩
  exact Best.scanned_foldl (fun _ => Int32.lt_irrefl) (fun _ _ _ => Int32.lt_trans)
    (fun _ _ _ hab hcb => Int32.lt_of_lt_of_le hab (Int32.not_lt.1 hcb)) _ _

/-- The search finds nothing only if no node is alive. -/
theorem uckFindLeastLoaded_eq_null_iff : uckFindLeastLoaded nodes = some none ↔ ∀ x ∈ nodes, x.alive = false := by
  obtain ⟨best, hfind, hscan⟩ := searched hdef
  rw [hfind, Option.some.injEq, hscan.eq_none_iff]
  refine forall₂_congr fun x hx => ?_
  constructor
  · intro h
    by_contra ha
    obtain ⟨s, hs⟩ := Option.isSome_iff_exists.1 (hdef x hx (by simpa using ha))
    exact h s.total (by simp [loadScored, hs, ha]) s.total_lt
  · intro ha v hv
    simp [loadScored, ha] at hv

end Defined

section Parts

variable {nodes : List RemoteNode} (hparts : ∀ x ∈ nodes, x.alive → PartsFit x.stats.toStatsBody)
include hparts

theorem isSome_scores_of_partsFit (x : RemoteNode) (hx : x ∈ nodes) (ha : x.alive) :
    (scores x.stats.toStatsBody).isSome := (isSome_scores_iff _).2 (hparts x hx ha).cpus

/-- The scores that the loop compares are what is left of the exact ones. -/
theorem loadScored_eq_some {x : RemoteNode} (hx : x ∈ nodes) {v : Int32} (h : loadScored x = some v) :
    x.alive ∧ v.toInt = intTotal x.stats.toStatsBody := by
  unfold loadScored at h
  split at h
  next ha =>
    obtain ⟨s, hs, he⟩ := (scores_exact_iff _).2 (hparts x hx ha)
    rw [hs, Option.map_some] at h
    exact ⟨ha, Option.some.inj h ▸ he.toInt_total⟩
  next => cases h

theorem exists_loadScored {x : RemoteNode} (hx : x ∈ nodes) (ha : x.alive) :
    ∃ v, loadScored x = some v ∧ v < Int32.maxValue := by
  obtain ⟨s, hs⟩ := Option.isSome_iff_exists.1 (isSome_scores_of_partsFit hparts x hx ha)
  exact ⟨s.total, by rw [loadScored, if_pos ha, hs, Option.map_some], s.total_lt⟩

/-- The search finds the first node for which least is left of the score. -/
theorem uckFindLeastLoaded_eq_some_iff (node : RemoteNode) :
    uckFindLeastLoaded nodes = some (some node) ↔ FirstLeast nodes node := by
  obtain ⟨best, hfind, hscan⟩ := searched (isSome_scores_of_partsFit hparts)
  rw [hfind, Option.some.injEq, hscan.eq_some_iff]
  constructor
  · rintro ⟨pre, post, v, rfl, hv, -, hbefore, hafter⟩
    obtain ⟨ha, hint⟩ := loadScored_eq_some hparts (by simp) hv
    refine ⟨pre, post, rfl, ha, fun x hx hax => ?_, fun x hx hax => ?_⟩
    · obtain ⟨w, hw, -⟩ := exists_loadScored hparts (x := x) (by simp [hx]) hax
      rw [← hint, ← (loadScored_eq_some hparts (by simp [hx]) hw).2]
      exact Int32.lt_iff_toInt_lt.1 (hbefore x hx w hw)
    · obtain ⟨w, hw, -⟩ := exists_loadScored hparts (x := x) (by simp [hx]) hax
      rw [← hint, ← (loadScored_eq_some hparts (by simp [hx]) hw).2]
      exact Int32.le_iff_toInt_le.1 (Int32.not_lt.1 (hafter x hx w hw))
  · rintro ⟨pre, post, rfl, ha, hbefore, hafter⟩
    obtain ⟨v, hv, hmax⟩ := exists_loadScored hparts (x := node) (by simp) ha
    have hint := (loadScored_eq_some hparts (by simp) hv).2
    refine ⟨pre, post, v, rfl, hv, hmax, fun x hx w hw => ?_, fun x hx w hw hlt => ?_⟩
    · obtain ⟨hax, hxint⟩ := loadScored_eq_some hparts (by simp [hx]) hw
      rw [Int32.lt_iff_toInt_lt, hint, hxint]
      exact hbefore x hx hax
    · obtain ⟨hax, hxint⟩ := loadScored_eq_some hparts (by simp [hx]) hw
      have hlt' := Int32.lt_iff_toInt_lt.1 hlt
      rw [hint, hxint] at hlt'
      exact absurd (hafter x hx hax) (not_le.2 hlt')

end Parts

theorem FirstLeast.le {nodes : List RemoteNode} {node : RemoteNode} (h : FirstLeast nodes node) :
    node ∈ nodes ∧ node.alive ∧
      ∀ x ∈ nodes, x.alive → intTotal node.stats.toStatsBody ≤ intTotal x.stats.toStatsBody := by
  obtain ⟨pre, post, rfl, ha, hbefore, hafter⟩ := h
  refine ⟨by simp, ha, fun x hx hax => ?_⟩
  rcases List.mem_append.1 hx with hx | hx
  · exact le_of_lt (hbefore x hx hax)
  · rcases List.mem_cons.1 hx with rfl | hx
    · exact le_rfl
    · exact hafter x hx hax

/-- What the search is when every part of every score fits: all there is to ask is that what is left of the scores
gives no other node. -/
theorem leastLoaded_of_partsFit {nodes : List RemoteNode}
    (hparts : ∀ x ∈ nodes, x.alive → PartsFit x.stats.toStatsBody)
    (hleast : ∀ node, FirstLeast nodes node →
      ∀ x ∈ nodes, x.alive → exactTotal node.stats.toStatsBody ≤ exactTotal x.stats.toStatsBody) :
    LeastLoaded nodes := by
  have hdef := isSome_scores_of_partsFit hparts
  obtain ⟨best, hfind, -⟩ := searched hdef
  refine ⟨by rw [hfind]; simp, fun x hx ha => (scores_exact_iff _).2 (hparts x hx ha), fun node hnode => ?_,
    uckFindLeastLoaded_eq_null_iff hdef⟩
  have hfirst := (uckFindLeastLoaded_eq_some_iff hparts node).1 hnode
  exact ⟨hfirst.le.1, hfirst.le.2.1, hleast node hfirst⟩

/-- In particular on stats that the computation does not wrap on. -/
theorem uckFindLeastLoaded_leastLoaded (nodes : List RemoteNode)
    (hfits : ∀ x ∈ nodes, x.alive → Fits x.stats.toStatsBody) : LeastLoaded nodes := by
  refine leastLoaded_of_partsFit (fun x hx ha => (hfits x hx ha).partsFit) fun node hfirst x hx hax => ?_
  obtain ⟨hmem, ha, hle⟩ := hfirst.le
  rw [← (hfits node hmem ha).intTotal_eq, ← (hfits x hx hax).intTotal_eq]
  exact hle x hx hax

/-- A node with the given load. -/
def loadedNode (nodeId loadAvg : UInt32) : RemoteNode :=
  { info := { nodeId }, stats := { nrCpus := 4, loadAvg, totalMem := 8192, freeMem := 4096 }, alive := true }

/-- A node that reports 2 ^ 30 processors. -/
def manyCpus : RemoteNode := { info := { nodeId := 2 }, stats := { nrCpus := 1073741824 }, alive := true }

/-- A node that reports more free memory than it has. -/
def muchFree : RemoteNode :=
  { info := { nodeId := 2 }, stats := { nrCpus := 4, totalMem := 4096, freeMem := 8192 }, alive := true }

/-- The sum of the loads loses nothing but the high bits. -/
theorem toNat_totalLoad (localLoad : UInt32) (nodes : List RemoteNode) :
    (totalLoad localLoad nodes).toNat = (localLoad.toNat + aliveLoad nodes) % 2 ^ 32 := by
  induction nodes generalizing localLoad with
  | nil => exact (Nat.mod_eq_of_lt localLoad.toNat_lt).symm
  | cons x nodes ih =>
    rw [totalLoad, List.foldl_cons]
    refine (ih _).trans ?_
    cases hx : x.alive with
    | false => simp [aliveLoad, hx]
    | true =>
      simp only [aliveLoad, hx, if_true, List.filter_cons_of_pos, List.map_cons, List.sum_cons, UInt32.toNat_add]
      omega

/-- What an iteration compares, in 32 bits. -/
theorem uckLoadbalIteration_eq_idle_iff (localStats : StatsBody) {nodes : List RemoteNode} (tasks : List Task)
    (hn : 1 < (uckGetClusterInfo localStats nodes).numNodes) :
    uckLoadbalIteration true localStats nodes tasks = .idle ↔
      totalLoad localStats.loadAvg nodes / (uckGetClusterInfo localStats nodes).numNodes = 0 ∨
      localStats.loadAvg * 100 / (totalLoad localStats.loadAvg nodes / (uckGetClusterInfo localStats nodes).numNodes) <
        loadThresholdPct := by
  have hpos : 0 < (uckGetClusterInfo localStats nodes).numNodes := UInt32.lt_of_le_of_lt UInt32.zero_le hn
  simp only [uckLoadbalIteration, Bool.not_true, Bool.false_eq_true, if_false, if_neg (UInt32.not_le.2 hn), if_pos hpos]
  split
  next h => exact ⟨fun _ => h, fun _ => rfl⟩
  next h =>
    refine ⟨fun hidle => ?_, fun h' => absurd h' h⟩
    -- past the comparison every outcome is another one
    split at hidle
    · cases hidle
    · cases hidle
    · split at hidle <;> cases hidle

/-- What an iteration compares, over the integers. -/
theorem uckLoadbalIteration_ne_idle (localStats : StatsBody) {nodes : List RemoteNode} (tasks : List Task)
    (hlen : nodes.length ≤ uckMaxNodes) (halive : ∃ x ∈ nodes, x.alive) :
    uckLoadbalIteration true localStats nodes tasks ≠ .idle ↔
      0 < cutAverage localStats.loadAvg nodes ∧
        150 * cutAverage localStats.loadAvg nodes ≤ localStats.loadAvg.toNat * 100 % 2 ^ 32 := by
  have hnum := Registry.toNat_numNodes localStats hlen
  have hcount : 0 < nodes.countP (·.alive) := List.countP_pos_iff.2 halive
  have hn : 1 < (uckGetClusterInfo localStats nodes).numNodes := by
    rw [UInt32.lt_iff_toNat_lt, hnum, UInt32.toNat_one]
    omega
  have havg : (totalLoad localStats.loadAvg nodes / (uckGetClusterInfo localStats nodes).numNodes).toNat =
      cutAverage localStats.loadAvg nodes := by
    rw [UInt32.toNat_div, toNat_totalLoad, hnum, cutAverage]
  have hscaled : (localStats.loadAvg * 100).toNat = localStats.loadAvg.toNat * 100 % 2 ^ 32 := UInt32.toNat_mul _ _
  have hpct : loadThresholdPct.toNat = 150 := rfl
  rw [Ne, uckLoadbalIteration_eq_idle_iff localStats tasks hn, not_or, ← UInt32.toNat_inj, UInt32.lt_iff_toNat_lt,
    UInt32.toNat_div (localStats.loadAvg * 100), havg, hscaled, hpct, UInt32.toNat_zero, not_lt]
  refine and_congr_left' Nat.pos_iff_ne_zero.symm |>.trans (and_congr_right fun hpos => ?_)
  rw [Nat.le_div_iff_mul_le hpos]

/-- As long as neither the sum of the loads nor a hundred times the local load wraps, they do. -/
theorem uckLoadbalIteration_ne_idle_iff (localStats : StatsBody) (nodes : List RemoteNode) (tasks : List Task)
    (hlen : nodes.length ≤ uckMaxNodes) (halive : ∃ x ∈ nodes, x.alive)
    (hsum : localStats.loadAvg.toNat + aliveLoad nodes < 2 ^ 32) (hlocal : localStats.loadAvg.toNat * 100 < 2 ^ 32) :
    uckLoadbalIteration true localStats nodes tasks ≠ .idle ↔ Overloaded localStats.loadAvg nodes := by
  have havg : cutAverage localStats.loadAvg nodes = exactAverage localStats.loadAvg nodes := by
    rw [cutAverage, Nat.mod_eq_of_lt hsum, exactAverage]
  rw [uckLoadbalIteration_ne_idle localStats tasks hlen halive, havg, Nat.mod_eq_of_lt hlocal, Overloaded]
  omega

end UckSmp.Sched
