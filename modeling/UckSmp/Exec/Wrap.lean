import UckSmp.Exec.Jobs
import UckSmp.Lib.ShellWords

/-!
# The command line of a job

`uck_local_exec_thread` wraps the command of a job that is not root's into a `runuser` command line and gives that to
the root shell. The command stands between single quotes, as it is, and the line is cut where the buffers end.

* `scan_runuserPrefix`: the words of the line, up to the quote that opens the command.
* `wrapped_iff`: when the shell sees the submitted command as the one last word.
-/

namespace UckSmp.Exec

open Lib Lib.Shell

/-! ## Text -/

def ascii (s : String) : List Byte := s.toList.map fun c => UInt8.ofNat c.toNat

/-- What `snprintf` leaves of a text in a buffer of `n` bytes. -/
def snprintf (n : Nat) (text : List Byte) : List Byte := text.take (n - 1)

/-- `%u`. -/
def decimal (n : UInt32) : List Byte := (Nat.toDigits 10 n.toNat).map fun c => UInt8.ofNat c.toNat

/-- Space and tab are blanks. -/
def posix : Lexicon Byte := ⟨fun c => c = 32 || c = 9, 39, rfl⟩

/-- A command as a submitter can pass it: a C string in a buffer of 512 bytes. -/
structure Command where
  text : List Byte
  noNul : 0 ∉ text
  short : text.length ≤ 511

theorem length_decimal (n : UInt32) : (decimal n).length ≤ 10 := by
  rw [decimal, List.length_map, Nat.length_toDigits_le_iff (by decide) (by decide)]
  exact n.toNat_lt.trans (by decide)

theorem quote_not_mem_decimal (n : UInt32) : (39 : Byte) ∉ decimal n := by
  intro h
  obtain ⟨c, hc, h39⟩ := List.mem_map.1 h
  have hd := Nat.isDigit_of_mem_toDigits (by decide) (by decide) hc
  simp only [Char.isDigit, Bool.and_eq_true, decide_eq_true_eq, UInt32.le_iff_toNat_le] at hd
  have hmod : c.toNat % 256 = 39 := congrArg UInt8.toNat h39
  have hlo : 48 ≤ c.toNat := hd.1
  have hhi : c.toNat ≤ 57 := hd.2
  omega

theorem snprintf_decimal (n : UInt32) : snprintf 16 (decimal n) = decimal n :=
  List.take_of_length_le ((length_decimal n).trans (by decide))

/-! ## The wrapper -/

/-- Everything before the command, up to its opening quote. -/
def runuserPrefix (uid gid : UInt32) : List Byte :=
  ascii "runuser -u '#" ++ snprintf 16 (decimal uid) ++ ascii "' -g '#" ++ snprintf 16 (decimal gid) ++
    ascii "' -- sh -c '"

/-- The string that `uck_local_exec_thread` passes to `/bin/sh -c`. -/
def ExecCtx.shellCommand (ctx : ExecCtx) : List Byte :=
  if ctx.uid ≠ 0 then
    strscpy 512 (snprintf 600 (runuserPrefix ctx.uid ctx.gid ++ ctx.command ++ ascii "'"))
  else ctx.command

/-- The simple command that drops the privileges. -/
def runuserWords (uid gid : UInt32) (command : List Byte) : List (List Byte) :=
  [ascii "runuser", ascii "-u", ascii "#" ++ decimal uid, ascii "-g", ascii "#" ++ decimal gid, ascii "--", ascii "sh",
    ascii "-c", command]

theorem length_runuserPrefix (uid gid : UInt32) :
    (runuserPrefix uid gid).length = 32 + (decimal uid).length + (decimal gid).length := by
  simp only [runuserPrefix, snprintf_decimal, List.length_append]
  have h₁ : (ascii "runuser -u '#").length = 13 := by decide
  have h₂ : (ascii "' -g '#").length = 7 := by decide
  have h₃ : (ascii "' -- sh -c '").length = 12 := by decide
  omega

/-- The root shell reads eight words and is then inside the quote that the command follows. -/
theorem scan_runuserPrefix (uid gid : UInt32) (rest : List Byte) :
    scan posix none false (runuserPrefix uid gid ++ rest) =
      (scan posix (some []) true rest).map ((runuserWords uid gid []).dropLast ++ ·) := by
  have hsplit : runuserPrefix uid gid ++ rest = ascii "runuser" ++ 32 :: (ascii "-u" ++ 32 :: (posix.quote ::
      ((ascii "#" ++ decimal uid) ++ posix.quote :: 32 :: (ascii "-g" ++ 32 :: (posix.quote ::
        ((ascii "#" ++ decimal gid) ++ posix.quote :: 32 :: (ascii "--" ++ 32 :: (ascii "sh" ++ 32 ::
          (ascii "-c" ++ 32 :: (posix.quote :: rest)))))))))) := by
    simp [runuserPrefix, snprintf_decimal, ascii, posix]
  have hq : ∀ n, posix.quote ∉ ascii "#" ++ decimal n := by
    intro n hn
    rcases List.mem_append.1 hn with hn | hn
    · exact absurd hn (by decide)
    · exact quote_not_mem_decimal n hn
  have hb : posix.blank 32 = true := rfl
  rw [hsplit, scan_word_blank (by decide) (by decide) hb, scan_word_blank (by decide) (by decide) hb,
    scan_quoted_blank (hq uid) hb, scan_word_blank (by decide) (by decide) hb, scan_quoted_blank (hq gid) hb,
    scan_word_blank (by decide) (by decide) hb, scan_word_blank (by decide) (by decide) hb,
    scan_word_blank (by decide) (by decide) hb, scan_open]
  simp only [Option.map_map]
  rfl

/-- The line is cut at 511 bytes, behind the opening quote. -/
theorem shellCommand_wrapped {ctx : ExecCtx} (hu : ctx.uid ≠ 0) :
    ctx.shellCommand = runuserPrefix ctx.uid ctx.gid ++
      (ctx.command ++ [posix.quote]).take (511 - (runuserPrefix ctx.uid ctx.gid).length) := by
  have hlen := length_runuserPrefix ctx.uid ctx.gid
  have hu' := length_decimal ctx.uid
  have hg := length_decimal ctx.gid
  rw [ExecCtx.shellCommand, if_pos hu, strscpy, snprintf, List.take_take, List.append_assoc, List.take_append,
    List.take_of_length_le (by omega)]
  rfl

/-- The words of the line are the fixed ones and those that follow from the command. -/
theorem shellWords_wrapped {ctx : ExecCtx} (hu : ctx.uid ≠ 0) :
    shellWords posix ctx.shellCommand =
      (scan posix (some []) true ((ctx.command ++ [posix.quote]).take
        (511 - (runuserPrefix ctx.uid ctx.gid).length))).map ((runuserWords ctx.uid ctx.gid []).dropLast ++ ·) := by
  rw [shellWords, shellCommand_wrapped hu, scan_runuserPrefix]

/-- What the command must be like for the words to be those of `runuser`, with some last word. -/
theorem shellWords_wrapped_iff (ctx : ExecCtx) (hu : ctx.uid ≠ 0) :
    shellWords posix ctx.shellCommand = some (runuserWords ctx.uid ctx.gid ctx.command) ↔
      39 ∉ ctx.command ∧ (decimal ctx.uid).length + (decimal ctx.gid).length + ctx.command.length ≤ 478 := by
  have hlen := length_runuserPrefix ctx.uid ctx.gid
  have hwords : runuserWords ctx.uid ctx.gid ctx.command =
      (runuserWords ctx.uid ctx.gid []).dropLast ++ [ctx.command] := rfl
  rw [shellWords_wrapped hu, hwords, Option.map_eq_some_iff]
  simp only [List.append_cancel_left_eq, exists_eq_right, scan_take_quoted_iff, hlen]
  exact and_congr_right fun _ => by omega

/-- The command as it stands in the context of the thread. -/
theorem strscpy_command (cmd : Command) : strscpy 512 cmd.text = cmd.text := List.take_of_length_le cmd.short

/-- **The root shell runs `runuser` with the submitted command as one word exactly if the command has no single quote
and the line fits into the buffer.** -/
theorem wrapped_iff (cmd : Command) (uid gid : UInt32) (hu : uid ≠ 0) (slot : Nat) (jobId srcNode : UInt32) :
    shellWords posix (uckExecLocal ⟨uid, gid⟩ slot jobId cmd.text srcNode).shellCommand =
        some (runuserWords uid gid cmd.text) ↔
      39 ∉ cmd.text ∧ (decimal uid).length + (decimal gid).length + cmd.text.length ≤ 478 := by
  have h := shellWords_wrapped_iff (uckExecLocal ⟨uid, gid⟩ slot jobId cmd.text srcNode) hu
  simp only [uckExecLocal, strscpy_command] at h ⊢
  exact h

/-- `ls` for user 1000 and group 100. -/
def lsCommand : Command := ⟨ascii "ls", by decide, by decide⟩

theorem ls_is_wrapped :
    shellWords posix (uckExecLocal ⟨1000, 100⟩ 0 1 lsCommand.text 1).shellCommand =
      some (runuserWords 1000 100 lsCommand.text) :=
  (wrapped_iff lsCommand 1000 100 (by decide) 0 1 1).2 (by decide)

/-- A command with quotes around what the submitter wants root to do. -/
def quotedCommand : Command := ⟨ascii "a'; id; echo 'b", by decide, by decide⟩

/-- The root shell sees more than `runuser` and its arguments: three further words, behind a semicolon each. -/
theorem command_reaches_root_shell :
    shellWords posix (uckExecLocal ⟨1000, 100⟩ 0 1 quotedCommand.text 1).shellCommand =
      some ([ascii "runuser", ascii "-u", ascii "#1000", ascii "-g", ascii "#100", ascii "--", ascii "sh", ascii "-c",
        ascii "a;", ascii "id;", ascii "echo", ascii "b"]) ∧
    shellWords posix (uckExecLocal ⟨1000, 100⟩ 0 1 quotedCommand.text 1).shellCommand ≠
      some (runuserWords 1000 100 quotedCommand.text) := by
  constructor
  · decide
  · decide

end UckSmp.Exec
