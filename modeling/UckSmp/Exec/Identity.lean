import UckSmp.Exec.Wrap

/-!
# Under whose identity a command runs

The credentials of the submitter reach the exec thread of the submitting node only: an `EXEC_REQ` carries none, and the
handler on the other node starts its thread with the credentials of a kernel thread. The thread of the submitting node
hands them to `runuser` as `#uid` and `#gid`, and `runuser` takes what it is given for names.

* `step_traced`: the context in which the thread of a job runs, on whichever node.
* `runsAs_line_iff`, `runsAs_wrapped_iff`: under which credentials the command of such a thread runs.
* `identity_iff`: when the submitted command is run under the submitter's credentials.
-/

namespace UckSmp.Exec

open Lib Lib.Shell Lib.Transition

/-! ## Shells -/

/-- A shell that is given a text to run, and its credentials. -/
structure Ran where
  text : List Byte
  cred : Cred
  deriving DecidableEq, Repr

/-- The users and the groups of a node, by their names. -/
structure Accounts where
  users : List Byte → Option UInt32
  groups : List Byte → Option UInt32

/-- The credentials that `runuser -u user -g group` runs a command under: it looks both up by name, and refuses a name
that it does not find. -/
def Accounts.runuser (accounts : Accounts) (user group : List Byte) : Option Cred :=
  (accounts.users user).bind fun uid => (accounts.groups group).map (Cred.mk uid)

/-- The shell that the `runuser` command with these words starts: the text and the credentials, when `runuser` accepts
the user and the group. -/
def runuserShell (accounts : Accounts) : List (List Byte) → Option Ran
  | [w₁, w₂, user, w₄, group, w₆, w₇, w₈, text] =>
    if w₁ = ascii "runuser" ∧ w₂ = ascii "-u" ∧ w₄ = ascii "-g" ∧ w₆ = ascii "--" ∧ w₇ = ascii "sh" ∧
        w₈ = ascii "-c" then
      (accounts.runuser user group).map (Ran.mk text)
    else none
  | _ => none

/-- The shells that `call_usermodehelper` brings about with a line: the root shell, and the one that `runuser` starts
if the line is such a command. -/
def shellsOf (accounts : Accounts) (line : List Byte) : List Ran :=
  ⟨line, ⟨0, 0⟩⟩ :: ((shellWords posix line).bind (runuserShell accounts)).toList

/-- The text is run under these credentials and under no others. -/
def RunsAs (shells : List Ran) (text : List Byte) (cred : Cred) : Prop :=
  ⟨text, cred⟩ ∈ shells ∧ ∀ r ∈ shells, r.text = text → r.cred = cred

/-! ## The context of a job -/

/-- The context of the thread that node `m` runs a job of node `n` in. -/
def ctxOn (n m : UInt32) (cred : Cred) (req : ExecReq) (jobId : UInt32) (slot : Nat) : ExecCtx :=
  if m = n then uckExecLocal cred slot jobId req.command n
  else uckExecLocal kthreadCred slot (execWire n jobId req).jobId (execWire n jobId req).command
    (execWire n jobId req).srcNode

/-- What is under way for a job belongs to this submission. -/
def TracedStage (n : UInt32) (cred : Cred) (req : ExecReq) (jobId : UInt32) : Stage → Prop
  | .submitted n' _ jobId' cred' req' => n' = n ∧ jobId' = jobId ∧ cred' = cred ∧ req' = req
  | .placed n' _ jobId' cred' req' _ => n' = n ∧ jobId' = jobId ∧ cred' = cred ∧ req' = req
  | .request dest wire => dest ≠ n ∧ wire = execWire n jobId req
  | .thread m ctx _ => ∃ slot, ctx = ctxOn n m cred req jobId slot
  | .result _ _ => True

/-- Job `k` is the given submission, and no job submitted later is taken for it. -/
def Traced (k : Job) (n : UInt32) (cred : Cred) (req : ExecReq) (jobId : UInt32) (s : Cluster) : Prop :=
  k.serial < s.serial ∧ ∀ st, s.works k = some st → TracedStage n cred req jobId st

section Traced

variable {s t : Cluster} {k : Job} {n : UInt32} {cred : Cred} {req : ExecReq} {jobId : UInt32}

theorem Traced.advance (h : Traced k n cred req jobId s) {k' : Job} {st : Option Stage} {φ : Fate}
    (hst : k' = k → ∀ st', st = some st' → TracedStage n cred req jobId st') :
    Traced k n cred req jobId (s.advance k' st φ) := by
  refine ⟨h.1, fun st' hw => ?_⟩
  by_cases hk : k' = k
  · subst hk
    rw [s.works_advance_self] at hw
    exact hst rfl st' hw
  · rw [s.works_advance_of_ne _ _ (Ne.symm hk)] at hw
    exact h.2 st' hw

/-- The tables do not matter. -/
theorem Traced.write (h : Traced k n cred req jobId s) (m : UInt32) (i : Nat) (f : Entry → Entry) :
    Traced k n cred req jobId (s.write m i f) := h

/-- A job that is run here gets the submitter's credentials; one that is sent away goes to another node. -/
theorem dispatch_traced (h : Traced k n cred req jobId s) {k' : Job} {n' : UInt32} {slot : Nat} {id : UInt32}
    {cred' : Cred} {req' : ExecReq} {dest : UInt32} (hw : s.works k' = some (.placed n' slot id cred' req' dest))
    (ret : Int) : Traced k n cred req jobId (s.dispatch k' n' slot id cred' req' dest ret) := by
  unfold Cluster.dispatch
  split
  · split
    · exact h.advance (by simp)
    · apply h.advance
      intro hk st hst
      cases hst
      obtain ⟨rfl, rfl, rfl, rfl⟩ := h.2 _ (hk ▸ hw)
      exact ⟨_, by rw [ctxOn, if_pos rfl]⟩
  · rename_i hdest
    split
    · exact Traced.write (h.advance (by simp)) _ _ _
    · apply h.advance
      intro hk st hst
      cases hst
      obtain ⟨rfl, rfl, rfl, rfl⟩ := h.2 _ (hk ▸ hw)
      exact ⟨hdest, rfl⟩

/-- A job that another node sent is run under the credentials of the kernel thread. -/
theorem uckHandleExecReq_traced (h : Traced k n cred req jobId s) {k' : Job} {dest : UInt32} {wire : ExecWire}
    (hw : s.works k' = some (.request dest wire)) (run : Bool) :
    Traced k n cred req jobId (s.uckHandleExecReq k' dest wire run) := by
  unfold Cluster.uckHandleExecReq
  split
  · exact h.advance (by simp)
  · rename_i i ha
    apply (h.write _ _ _).advance
    intro hk st hst
    obtain ⟨hne, rfl⟩ := h.2 _ (hk ▸ hw)
    cases run with
    | false => cases hst
    | true =>
      cases hst
      exact ⟨i, by rw [ctxOn, if_neg hne]⟩

theorem step_traced (h : Traced k n cred req jobId s) {e : Event} (hs : step s e = some t) :
    Traced k n cred req jobId t := by
  cases Step.of_step hs with
  | submit n' cred' req' =>
    unfold Cluster.submit
    split
    · exact h
    · apply Traced.advance
      · exact ⟨Nat.lt_succ_of_lt h.1, h.2⟩
      · intro hk
        exact absurd h.1 (by rw [← hk]; exact Nat.lt_irrefl _)
  | place hw localLoad peers =>
    apply (h.write _ _ _).advance
    intro hk st hst
    have htr := h.2 _ (hk ▸ hw)
    cases hst
    exact htr
  | dispatch hw ret => exact dispatch_traced h hw ret
  | unstarted hw => exact h.advance (by simp)
  | request hw run => exact uckHandleExecReq_traced h hw run
  | @result k' dest r hw run =>
    have hgone : Traced k n cred req jobId (s.advance k' none (s.fate k')) := h.advance (by simp)
    unfold Cluster.uckHandleExecDone
    split
    · exact hgone
    · exact hgone.write _ _ _
  | lose hw => exact h.advance (by simp)
  | begin hw =>
    apply (h.write _ _ _).advance
    intro hk st hst
    have htr := h.2 _ (hk ▸ hw)
    cases hst
    exact htr
  | finish hw ret =>
    apply Traced.write
    apply h.advance
    intro hk st hst
    split at hst
    · cases hst; trivial
    · cases hst
  | started n' r =>
    unfold Cluster.uckHandleExecStarted
    split
    · exact h
    · exact h.write _ _ _

theorem submit_traced {i : Nat} (ha : uckAllocJobSlot (s.nodes n).jobs = some i) :
    Traced ⟨n, (s.nodes n).nextJobId, s.serial⟩ n cred req (s.nodes n).nextJobId (s.submit n cred req) := by
  unfold Cluster.submit
  rw [ha]
  refine ⟨Nat.lt_succ_self _, fun st hst => ?_⟩
  rw [Cluster.works_advance_self] at hst
  cases hst
  exact ⟨rfl, rfl, rfl, rfl⟩

end Traced

/-! ## The shells of a context -/

section Shells

variable {accounts : Accounts}

theorem Accounts.runuser_eq_some_iff (user group : List Byte) (cred : Cred) :
    accounts.runuser user group = some cred ↔
      accounts.users user = some cred.uid ∧ accounts.groups group = some cred.gid := by
  obtain ⟨uid', gid'⟩ := cred
  unfold Accounts.runuser
  cases accounts.users user with
  | none => simp
  | some uid =>
    cases accounts.groups group with
    | none => simp
    | some gid => simp

theorem runuserShell_eq_some {ws : List (List Byte)} {r : Ran} (h : runuserShell accounts ws = some r) :
    ∃ user group,
      ws = [ascii "runuser", ascii "-u", user, ascii "-g", group, ascii "--", ascii "sh", ascii "-c", r.text] ∧
      accounts.runuser user group = some r.cred := by
  unfold runuserShell at h
  split at h
  · rename_i w₁ w₂ user w₄ group w₆ w₇ w₈ text
    split at h
    · rename_i hw
      obtain ⟨rfl, rfl, rfl, rfl, rfl, rfl⟩ := hw
      obtain ⟨cred, hc, rfl⟩ := Option.map_eq_some_iff.1 h
      exact ⟨user, group, rfl, hc⟩
    · cases h
  · cases h

/-- A shell that `runuser` starts gets less than the line. -/
theorem text_ne_line {line : List Byte} {r : Ran} (h : (shellWords posix line).bind (runuserShell accounts) = some r) :
    r.text ≠ line := by
  obtain ⟨ws, hws, hr⟩ := Option.bind_eq_some_iff.1 h
  obtain ⟨user, group, rfl, -⟩ := runuserShell_eq_some hr
  have hlen := length_scan_le hws
  have h7 : (ascii "runuser").length = 7 := by decide
  simp only [List.flatten_cons, List.length_append, h7, Option.getD_none, List.length_nil, Nat.zero_add] at hlen
  intro heq
  rw [heq] at hlen
  omega

/-- The root shell runs the whole line, under root's credentials. -/
theorem runsAs_line_iff (line : List Byte) (cred : Cred) :
    RunsAs (shellsOf accounts line) line cred ↔ cred = ⟨0, 0⟩ := by
  constructor
  · rintro ⟨-, h⟩
    exact (h ⟨line, ⟨0, 0⟩⟩ List.mem_cons_self rfl).symm
  · rintro rfl
    refine ⟨List.mem_cons_self, fun r hr ht => ?_⟩
    rcases List.mem_cons.1 hr with rfl | hr
    · rfl
    · exact absurd ht (text_ne_line (Option.mem_toList.1 hr))

/-- The shells of a thread that wraps its command. -/
theorem runsAs_wrapped_iff (accounts : Accounts) (ctx : ExecCtx) (hu : ctx.uid ≠ 0) :
    RunsAs (shellsOf accounts ctx.shellCommand) ctx.command ⟨ctx.uid, ctx.gid⟩ ↔
      (accounts.users (ascii "#" ++ decimal ctx.uid) = some ctx.uid ∧
        accounts.groups (ascii "#" ++ decimal ctx.gid) = some ctx.gid) ∧
      39 ∉ ctx.command ∧ (decimal ctx.uid).length + (decimal ctx.gid).length + ctx.command.length ≤ 478 := by
  rw [← shellWords_wrapped_iff ctx hu, ← Accounts.runuser_eq_some_iff _ _ ⟨ctx.uid, ctx.gid⟩]
  constructor
  · rintro ⟨hmem, -⟩
    rcases List.mem_cons.1 hmem with heq | hmem
    · exact absurd (congrArg (·.cred.uid) heq) hu
    · obtain ⟨ws, hws, hr⟩ := Option.bind_eq_some_iff.1 (Option.mem_toList.1 hmem)
      obtain ⟨user, group, rfl, hrun⟩ := runuserShell_eq_some hr
      rw [shellWords_wrapped hu] at hws ⊢
      obtain ⟨vs, hvs, heq⟩ := Option.map_eq_some_iff.1 hws
      simp only [runuserWords, List.dropLast_cons_cons, List.dropLast_singleton, List.cons_append, List.nil_append,
        List.cons.injEq, true_and] at heq
      obtain ⟨rfl, rfl, rfl⟩ := heq
      exact ⟨hrun, by rw [hvs]; rfl⟩
  · rintro ⟨hrun, hws⟩
    have hshells : shellsOf accounts ctx.shellCommand =
        [⟨ctx.shellCommand, ⟨0, 0⟩⟩, ⟨ctx.command, ⟨ctx.uid, ctx.gid⟩⟩] := by
      simp [shellsOf, hws, runuserWords, runuserShell, hrun]
    have hne : ctx.shellCommand ≠ ctx.command := by
      intro heq
      have hin : (39 : Byte) ∈ ctx.shellCommand := by
        rw [shellCommand_wrapped hu, runuserPrefix]
        simp only [List.mem_append]
        exact .inl (.inl (.inl (.inl (.inl (by decide)))))
      exact ((shellWords_wrapped_iff ctx hu).1 hws).1 (heq ▸ hin)
    rw [hshells]
    refine ⟨by simp, fun r hr ht => ?_⟩
    rcases List.mem_pair.1 hr with rfl | rfl
    · exact absurd ht hne
    · rfl

end Shells

/-! ## The identity -/

/-- **A command runs under the credentials of its submitter exactly if these are root's, or the submitting node itself
runs it for a user other than root, has a user with the name `#uid` and a group with the name `#gid` that are the
submitter's, the command has no single quote and its line fits into the buffer.** -/
theorem identity_iff (cmd : Command) (cred : Cred) (destNode n : UInt32) (accounts : Accounts) {s t : Cluster}
    {i : Nat} (ha : uckAllocJobSlot (s.nodes n).jobs = some i) (es : List Event)
    (hr : run step (s.submit n cred ⟨destNode, cmd.text⟩) es = some t) {m : UInt32} {ctx : ExecCtx} {running : Bool}
    (hw : t.works ⟨n, (s.nodes n).nextJobId, s.serial⟩ = some (.thread m ctx running)) :
    RunsAs (shellsOf accounts ctx.shellCommand) cmd.text cred ↔
      cred = ⟨0, 0⟩ ∨ (m = n ∧ cred.uid ≠ 0 ∧
        (accounts.users (ascii "#" ++ decimal cred.uid) = some cred.uid ∧
          accounts.groups (ascii "#" ++ decimal cred.gid) = some cred.gid) ∧
        39 ∉ cmd.text ∧ (decimal cred.uid).length + (decimal cred.gid).length + cmd.text.length ≤ 478) := by
  obtain ⟨slot, rfl⟩ := (run_inv _ (fun _ _ _ h hs => step_traced h hs) (submit_traced ha) hr).2 _ hw
  have hcmd := strscpy_command cmd
  by_cases hm : m = n
  · subst hm
    by_cases hu : cred.uid = 0
    · -- Root's commands are not wrapped, whatever the group.
      have hline : (ctxOn m m cred ⟨destNode, cmd.text⟩ (s.nodes m).nextJobId slot).shellCommand = cmd.text := by
        simp [ctxOn, uckExecLocal, ExecCtx.shellCommand, hu, hcmd]
      rw [hline, runsAs_line_iff]
      simp [hu]
    · have hctx : ctxOn m m cred ⟨destNode, cmd.text⟩ (s.nodes m).nextJobId slot =
          uckExecLocal cred slot (s.nodes m).nextJobId cmd.text m := by rw [ctxOn, if_pos rfl]
      have hiff := runsAs_wrapped_iff accounts (uckExecLocal cred slot (s.nodes m).nextJobId cmd.text m) hu
      simp only [uckExecLocal, hcmd] at hiff
      rw [hctx]
      simp only [uckExecLocal, hcmd]
      rw [hiff]
      have hne : cred ≠ ⟨0, 0⟩ := fun h => hu (congrArg Cred.uid h)
      simp [hne, hu]
  · have hline : (ctxOn n m cred ⟨destNode, cmd.text⟩ (s.nodes n).nextJobId slot).shellCommand = cmd.text := by
      simp [ctxOn, hm, uckExecLocal, kthreadCred, execWire, ExecCtx.shellCommand, hcmd]
    rw [hline, runsAs_line_iff]
    simp [hm]

/-- A node with root, a user 1000 and a group 100, under the names that such accounts have. -/
def usualAccounts : Accounts where
  users name := if name = ascii "root" then some 0 else if name = ascii "user" then some 1000 else none
  groups name := if name = ascii "root" then some 0 else if name = ascii "users" then some 100 else none

/-- Root of node 1 has `ls` run on node 2. -/
theorem root_ls_keeps_identity :
    RunsAs (shellsOf usualAccounts
      (uckExecLocal kthreadCred 0 1 (strscpy 512 lsCommand.text) 1).shellCommand) lsCommand.text ⟨0, 0⟩ :=
  (identity_iff lsCommand ⟨0, 0⟩ 2 1 usualAccounts (s := init) rfl
    [.place ⟨1, 1, 0⟩ 0 [], .dispatch ⟨1, 1, 0⟩ 0, .deliver ⟨1, 1, 0⟩ true] rfl rfl).2 (by decide)

/-- User 1000 of node 1 has `ls` run on node 2: it runs as root. -/
theorem remote_ls_runs_as_root :
    ∃ t ctx, run step (init.submit 1 ⟨1000, 100⟩ ⟨2, lsCommand.text⟩)
        [.place ⟨1, 1, 0⟩ 0 [], .dispatch ⟨1, 1, 0⟩ 0, .deliver ⟨1, 1, 0⟩ true] = some t ∧
      t.works ⟨1, 1, 0⟩ = some (.thread 2 ctx false) ∧
      shellsOf usualAccounts ctx.shellCommand = [⟨lsCommand.text, ⟨0, 0⟩⟩] ∧
      ¬ RunsAs (shellsOf usualAccounts ctx.shellCommand) lsCommand.text ⟨1000, 100⟩ := by
  refine ⟨_, _, rfl, rfl, by decide, fun h => ?_⟩
  exact absurd (h.2 ⟨lsCommand.text, ⟨0, 0⟩⟩ List.mem_cons_self rfl) (by decide)

end UckSmp.Exec
