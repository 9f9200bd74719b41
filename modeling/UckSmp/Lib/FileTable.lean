import Mathlib.Data.List.Basic
import Mathlib.Logic.Function.Basic

/-!
# Descriptor tables

A process names its open files by numbers. Several numbers may refer to one open file, and a change of the file, such as
of its position, shows at all of them. A number never refers to a file that does not exist.

* `openAt_modify`: the change of a file that has just been opened shows nowhere else.
* `openAt_dup2_close`: a file that is opened at a number that was free, and then moved to another one.
-/

namespace Lib

/-- A table of descriptors for files of type `α`, with numbers of type `κ`. -/
@[ext]
structure FileTable (κ α : Type*) where
  /-- The file that a number refers to, by its place in `files`. -/
  fds : κ → Option Nat
  files : List α
  valid : ∀ n k, fds n = some k → k < files.length

namespace FileTable

variable {κ α : Type*} [DecidableEq κ]

/-- The file that a number refers to. -/
def get (t : FileTable κ α) (n : κ) : Option α := (t.fds n).bind fun k => t.files[k]?

/-- A file is opened, and gets the number `n`. -/
def openAt (t : FileTable κ α) (n : κ) (a : α) : FileTable κ α where
  fds := Function.update t.fds n (some t.files.length)
  files := t.files ++ [a]
  valid m k hk := by
    rw [List.length_append, List.length_singleton]
    rw [Function.update_apply] at hk
    split at hk
    · cases hk
      exact Nat.lt_succ_self _
    · exact Nat.lt_succ_of_lt (t.valid m k hk)

/-- The number `n` refers to the file of `m` from now on. -/
def dup2 (t : FileTable κ α) (m n : κ) : FileTable κ α where
  fds := Function.update t.fds n (t.fds m)
  files := t.files
  valid i k hk := by
    rw [Function.update_apply] at hk
    split at hk
    · exact t.valid m k hk
    · exact t.valid i k hk

/-- The number `n` is free again. -/
def close (t : FileTable κ α) (n : κ) : FileTable κ α where
  fds := Function.update t.fds n none
  files := t.files
  valid m k hk := by
    rw [Function.update_apply] at hk
    split at hk
    · cases hk
    · exact t.valid m k hk

/-- The file of the number `n` is changed. -/
def modify (t : FileTable κ α) (n : κ) (f : α → α) : FileTable κ α where
  fds := t.fds
  files := (t.fds n).elim t.files fun k => t.files.modify k f
  valid m k hk := by
    have hlt := t.valid m k hk
    cases t.fds n with
    | none => exact hlt
    | some i => rwa [Option.elim_some, List.length_modify]

variable {t : FileTable κ α} {m n : κ}

theorem fds_openAt (t : FileTable κ α) (n : κ) (a : α) : (t.openAt n a).fds n = some t.files.length :=
  Function.update_self ..

theorem fds_openAt_of_ne (a : α) (h : m ≠ n) : (t.openAt n a).fds m = t.fds m := Function.update_of_ne h ..

theorem fds_dup2 (t : FileTable κ α) (m n : κ) : (t.dup2 m n).fds n = t.fds m := Function.update_self ..

theorem fds_dup2_of_ne {i : κ} (m : κ) (h : i ≠ n) : (t.dup2 m n).fds i = t.fds i := Function.update_of_ne h ..

theorem fds_close (t : FileTable κ α) (n : κ) : (t.close n).fds n = none := Function.update_self ..

theorem fds_close_of_ne (h : m ≠ n) : (t.close n).fds m = t.fds m := Function.update_of_ne h ..

/-- A file that has just been opened. -/
theorem get_openAt (t : FileTable κ α) (n : κ) (a : α) : (t.openAt n a).get n = some a := by
  rw [get, fds_openAt, Option.bind_some]
  exact List.getElem?_concat_length

/-- The other numbers refer to files that existed before. -/
theorem get_openAt_of_ne (a : α) (h : m ≠ n) : (t.openAt n a).get m = t.get m := by
  rw [get, get, fds_openAt_of_ne a h]
  cases hk : t.fds m with
  | none => rfl
  | some k => exact List.getElem?_append_left (t.valid m k hk)

/-- The change of a file that has just been opened. -/
theorem openAt_modify (t : FileTable κ α) (n : κ) (a : α) (f : α → α) :
    (t.openAt n a).modify n f = t.openAt n (f a) := by
  refine FileTable.ext rfl ?_
  show ((t.openAt n a).fds n).elim (t.files ++ [a]) (fun k => (t.files ++ [a]).modify k f) = t.files ++ [f a]
  rw [fds_openAt, Option.elim_some, List.modify_eq_set_getElem?, List.getElem?_concat_length]
  simp

/-- The file is at the number `n` in the end, and the number it was opened at is as free as before. -/
theorem openAt_dup2_close (a : α) (hm : t.fds m = none) (hne : m ≠ n) :
    ((t.openAt m a).dup2 m n).close m = t.openAt n a := by
  refine FileTable.ext (funext fun i => ?_) rfl
  by_cases hi : i = m
  · subst hi
    rw [fds_close, fds_openAt_of_ne a hne, hm]
  · rw [fds_close_of_ne hi]
    by_cases hn : i = n
    · subst hn
      rw [fds_dup2, fds_openAt, fds_openAt]
    · rw [fds_dup2_of_ne m hn, fds_openAt_of_ne a hi, fds_openAt_of_ne a hn]

end FileTable

end Lib
