import UckSmp.Exec.Records

/-!
# What `DONE` says of a command

`uck_local_exec_thread` takes the exit code out of the wait status of the command; the result is written into the record
of the job on the same node, or sent to the node that the job came from and written there. A command that a signal has
ended has no exit code, but its wait status has a zero where one would be.

* `Recorded.eq`: what the submitter's record says, wherever the command ran.
* `done_iff_success_iff`: when `DONE` means success; `killed_is_done` is a command for which it does not.
-/

namespace UckSmp.Exec

open Lib Lib.Transition

/-! ## Outcomes of a command -/

/-- The signals of Linux. -/
abbrev Signal := { n : Nat // 1 ≤ n ∧ n ≤ 64 }

/-- How a command ends for `call_usermodehelper` with `UMH_WAIT_PROC`. -/
inductive Outcome
  /-- It is not run; the error is `-(errno + 1)`. -/
  | error (errno : Nat)
  | exited (code : UInt8)
  | signaled (sig : Signal) (core : Bool)
  deriving DecidableEq

/-- What `call_usermodehelper` returns: the error, or the wait status. -/
def Outcome.ret : Outcome → Int
  | .error errno => Int.negSucc errno
  | .exited code => ((code.toNat <<< 8 : Nat) : Int)
  | .signaled sig core => ((sig.1 ||| if core then 0x80 else 0 : Nat) : Int)

def Outcome.Signaled (o : Outcome) : Prop := ∃ sig core, o = .signaled sig core

/-- The submitter's record of a job when the outcome of its command has been written there. -/
inductive Recorded (o : Outcome) : JobInfo → Prop
  /-- The command has run on the node of the submitter. -/
  | here {s t : Cluster} {k : Job} {ctx : ExecCtx} {b : JobInfo}
      (hw : s.works k = some (.thread ctx.srcNode ctx true)) (ht : step s (.finish k o.ret) = some t)
      (hb : t.record ctx.srcNode ctx.slot = some b) : Recorded o b
  /-- It has run on another node; when the result comes, the tables are those of `u`. -/
  | there {s t u : Cluster} {k : Job} {n m : UInt32} {ctx : ExecCtx} {r : ExecResult} {i : Nat} {b : JobInfo}
      (hw : s.works k = some (.thread m ctx true)) (hm : ctx.srcNode ≠ m) (ht : step s (.finish k o.ret) = some t)
      (hr : t.works k = some (.result n r)) (hi : slotOfId (u.nodes n).jobs r.jobId = some i)
      (hb : (u.uckHandleExecDone n r).record n i = some b) : Recorded o b

/-! ## Exit codes -/

theorem exitCodeOf_error (errno : Nat) : exitCodeOf (Outcome.error errno).ret = Int.negSucc errno :=
  if_neg (Int.not_le.2 (Int.negSucc_lt_zero errno))

theorem exitCodeOf_natCast (n : Nat) : exitCodeOf n = ((n / 256 % 256 : Nat) : Int) := by
  rw [exitCodeOf, if_pos (Int.natCast_nonneg n), Int.toNat_natCast, Nat.shiftRight_eq_div_pow]
  exact congrArg _ (Nat.and_two_pow_sub_one_eq_mod _ 8)

theorem exitCodeOf_exited (code : UInt8) : exitCodeOf (Outcome.exited code).ret = code.toNat := by
  have hlt := code.toNat_lt
  rw [Outcome.ret, exitCodeOf_natCast, Nat.shiftLeft_eq]
  omega

/-- The bits of the exit code are not set. -/
theorem exitCodeOf_signaled (sig : Signal) (core : Bool) : exitCodeOf (Outcome.signaled sig core).ret = 0 := by
  have hsig : sig.1 < 2 ^ 8 := Nat.lt_of_le_of_lt sig.2.2 (by decide)
  have hcore : (if core then 0x80 else 0) < 2 ^ 8 := by cases core <;> decide
  have hlt := Nat.or_lt_two_pow hsig hcore
  rw [Outcome.ret, exitCodeOf_natCast, Nat.div_eq_of_lt hlt]
  rfl

/-! ## The record -/

/-- The step with which the thread of a job ends. -/
theorem step_finish {s t : Cluster} {k : Job} {m : UInt32} {ctx : ExecCtx} {ret : Int}
    (hw : s.works k = some (.thread m ctx true)) (ht : step s (.finish k ret) = some t) :
    t = s.threadFinish k m ctx ret := by
  simp only [step, hw] at ht
  exact (Option.some.inj ht).symm

/-- It settles the record in the slot of the job. -/
theorem record_finish {s t : Cluster} {k : Job} {m : UInt32} {ctx : ExecCtx} {ret : Int}
    (hw : s.works k = some (.thread m ctx true)) (ht : step s (.finish k ret) = some t) :
    t.record m ctx.slot = (s.record m ctx.slot).map (Update.settle (exitCodeOf ret)).apply := by
  have hwrites : s.writes (.own (.finish k ret)) = some ⟨m, ctx.slot, .settle (exitCodeOf ret)⟩ := by
    simp only [Cluster.writes, hw]
  rw [record_step (e := .own (.finish k ret)) ht, hwrites]
  exact if_pos ⟨rfl, rfl⟩

/-- **The record of the submitter** says the same wherever the command has run. -/
theorem Recorded.eq {o : Outcome} {b : JobInfo} (h : Recorded o b) :
    b.exitCode = exitCodeOf o.ret ∧ b.state = .ofExit (exitCodeOf o.ret) := by
  cases h with
  | here hw ht hb =>
    rw [record_finish hw ht] at hb
    obtain ⟨a, -, rfl⟩ := Option.map_eq_some_iff.1 hb
    exact ⟨rfl, rfl⟩
  | there hw hm ht hr hi hb =>
    rw [step_finish hw ht] at hr
    have hsent := (Cluster.works_advance_self _ _ (.produced (exitCodeOf o.ret))).symm.trans hr
    rw [if_pos hm] at hsent
    cases hsent
    rw [record_done, Cluster.found, hi, Option.map_some, Cluster.recordAfter, if_pos ⟨rfl, rfl⟩] at hb
    obtain ⟨a, -, rfl⟩ := Option.map_eq_some_iff.1 hb
    exact ⟨rfl, rfl⟩

theorem ofExit_eq_done_iff {code : Int} : JobState.ofExit code = .done ↔ code = 0 := by
  obtain ⟨hzero, hdone⟩ | ⟨hzero, hfailed⟩ := ofExit_cases code
  · exact iff_of_true hdone hzero
  · rw [hfailed]
    exact iff_of_false JobState.noConfusion hzero

/-- **`DONE` means that the command succeeded** exactly for the commands that no signal ends; and a record says the same
as any other one of that outcome. -/
theorem done_iff_success_iff {o : Outcome} {b : JobInfo} (h : Recorded o b) :
    ((b.state = .done ∧ b.exitCode = 0 ↔ o = .exited 0) ↔ ¬ o.Signaled) ∧
      ∀ b', Recorded o b' → b'.state = b.state ∧ b'.exitCode = b.exitCode := by
  obtain ⟨hcode, hstate⟩ := h.eq
  constructor
  · rw [hcode, hstate, ofExit_eq_done_iff, and_self_iff]
    cases o with
    | error errno =>
      rw [exitCodeOf_error]
      exact ⟨fun _ ⟨sig, core, h⟩ => Outcome.noConfusion h, fun _ => ⟨Int.noConfusion, Outcome.noConfusion⟩⟩
    | exited code =>
      rw [exitCodeOf_exited]
      refine ⟨fun _ ⟨sig, core, h⟩ => Outcome.noConfusion h, fun _ => ?_⟩
      rw [Outcome.exited.injEq, ← UInt8.toNat_inj]
      exact Int.natCast_eq_zero
    | signaled sig core =>
      rw [exitCodeOf_signaled]
      exact ⟨fun h => Outcome.noConfusion (h.1 rfl), fun h => absurd ⟨sig, core, rfl⟩ h⟩
  · intro b' h'
    rw [h'.eq.1, h'.eq.2]
    exact ⟨hstate.symm, hcode.symm⟩

/-- A job that node 1 submits to itself, up to the end of its command. -/
def ranHere : List Event :=
  [.submit 1 ⟨0, 0⟩ ⟨1, []⟩, .place ⟨1, 1, 0⟩ 0 [], .dispatch ⟨1, 1, 0⟩ 0, .begin ⟨1, 1, 0⟩]

/-- The command may end in any way. -/
theorem exists_recorded (o : Outcome) : ∃ b, Recorded o b := by
  have hworks : (run step init ranHere).bind (·.works ⟨1, 1, 0⟩) = some (.thread 1 ⟨1, 0, [], 1, 0, 0⟩ true) := by
    decide +kernel
  have hrecord : ((run step init ranHere).bind (·.record 1 0)).isSome = true := by decide +kernel
  obtain ⟨s, hs, hw⟩ := Option.bind_eq_some_iff.1 hworks
  obtain ⟨a, ha⟩ := Option.isSome_iff_exists.1 hrecord
  rw [hs, Option.bind_some] at ha
  obtain ⟨t, ht⟩ : ∃ t, step s (.finish ⟨1, 1, 0⟩ o.ret) = some t := ⟨_, by rw [step, hw]⟩
  have hb := (record_finish hw ht).trans (congrArg _ ha)
  exact ⟨_, @Recorded.here o s t ⟨1, 1, 0⟩ ⟨1, 0, [], 1, 0, 0⟩ _ hw ht hb⟩

theorem exit_zero_is_done : ∃ b, Recorded (.exited 0) b ∧ b.state = .done ∧ b.exitCode = 0 := by
  obtain ⟨b, hb⟩ := exists_recorded (.exited 0)
  have hnot : ¬ (Outcome.exited 0).Signaled := fun ⟨_, _, h⟩ => Outcome.noConfusion h
  exact ⟨b, hb, ((done_iff_success_iff hb).1.2 hnot).2 rfl⟩

/-- A command that `SIGKILL` ends is `DONE`, with the exit code 0. -/
theorem killed_is_done :
    ∃ b, Recorded (.signaled ⟨9, by decide⟩ false) b ∧ b.state = .done ∧ b.exitCode = 0 := by
  obtain ⟨b, hb⟩ := exists_recorded (.signaled ⟨9, by decide⟩ false)
  obtain ⟨hcode, hstate⟩ := hb.eq
  rw [exitCodeOf_signaled] at hcode hstate
  exact ⟨b, hb, hstate, hcode⟩

end UckSmp.Exec
