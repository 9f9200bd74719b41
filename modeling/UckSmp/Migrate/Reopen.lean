import UckSmp.Lib.FileTable
import UckSmp.Lib.Transition
import UckSmp.Migrate.Capture

/-!
# The file descriptors of a restored process

The loop of `main` of `uck_restore.c` over the file descriptors. `open` fails, or returns some number that is free,
which may be the one that is wanted, or one that a later descriptor wants; `dup2` and `lseek` do not fail.

* `restoreFd_cases`: a round puts the file at its number, or does nothing.
* `fds_restored`: the table after the loop.
* `captured_fds_restored`: the loop over the descriptors that `uck_serialize_fds` has written.
-/

namespace UckSmp.Migrate

open Lib Lib.Transition
open UckSmp.Exec (ascii)

/-! ## The loop -/

/-- What the kernel knows of an open file of the stub. -/
structure StubFile where
  path : List Byte
  accMode : UInt32
  pos : UInt64
  deriving DecidableEq, Repr

/-- A descriptor and the result of its `open`, if it is called: the number that it returns, or none. -/
abbrev Round := FdDesc × Option UInt32

/-- A round of the loop over the file descriptors; `none` if `open` cannot return the number, because it is in use. -/
def restoreFd (t : FileTable UInt32 StubFile) (round : Round) : Option (FileTable UInt32 StubFile) :=
  match round.1.reopenArgs, round.2 with
  | none, _ => some t
  | some _, none => some t
  | some f, some newfd =>
    if (t.fds newfd).isSome then none
    else
      let t := t.openAt newfd ⟨f.path, f.accMode, 0⟩
      let t := if newfd ≠ f.fdNum then (t.dup2 newfd f.fdNum).close newfd else t
      some (if 0 < f.pos then t.modify f.fdNum fun file => { file with pos := f.pos } else t)

/-! ## Statement -/

/-- The file that a descriptor describes. -/
def FdDesc.file (f : FdDesc) : StubFile := ⟨f.path.1.takeWhile (· ≠ 0), f.flags &&& 3, f.pos⟩

/-- The descriptor is not skipped, and its file can be opened. -/
def Round.Opened (round : Round) : Prop := round.1.reopenArgs.isSome ∧ round.2.isSome

instance (round : Round) : Decidable round.Opened := inferInstanceAs (Decidable (_ ∧ _))

/-- The table after the loop: what the numbers of the opened files refer to, and all other numbers. -/
structure FdsRestored (rounds : List Round) (s t : FileTable UInt32 StubFile) : Prop where
  opened : ∀ round ∈ rounds, round.Opened → t.get round.1.fdNum = some round.1.file
  others : ∀ n, (∀ round ∈ rounds, round.Opened → round.1.fdNum ≠ n) → t.fds n = s.fds n ∧ t.get n = s.get n

/-! ## The rounds -/

variable {s t : FileTable UInt32 StubFile} {round : Round} {rounds : List Round}

theorem FdDesc.reopenArgs_eq {f : FdDesc} {r : Reopen} (h : f.reopenArgs = some r) :
    r = ⟨f.file.path, f.file.accMode, f.fdNum, f.file.pos⟩ := by
  unfold reopenArgs at h
  split at h
  · cases h
  · split at h
    · cases h
    · exact (Option.some.inj h).symm

/-- **A round** puts the file at its number and changes nothing else, or it does nothing. -/
theorem restoreFd_cases (h : restoreFd s round = some t) :
    round.Opened ∧ t = s.openAt round.1.fdNum round.1.file ∨ ¬ round.Opened ∧ t = s := by
  obtain ⟨f, result⟩ := round
  unfold restoreFd at h
  cases hr : f.reopenArgs with
  | none =>
    rw [hr] at h
    refine .inr ⟨fun hop => ?_, (Option.some.inj h).symm⟩
    rw [Round.Opened, hr] at hop
    cases hop.1
  | some r =>
    cases result with
    | none =>
      rw [hr] at h
      exact .inr ⟨fun hop => Bool.noConfusion hop.2, (Option.some.inj h).symm⟩
    | some newfd =>
      rw [hr] at h
      obtain rfl := FdDesc.reopenArgs_eq hr
      dsimp only at h
      split at h
      next => cases h
      next hfree =>
        refine .inl ⟨⟨by rw [hr]; rfl, rfl⟩, ?_⟩
        -- wherever `open` has put it, the file is at its number, with its position at 0
        have hmoved : (if newfd ≠ f.fdNum then
            ((s.openAt newfd ⟨f.file.path, f.file.accMode, 0⟩).dup2 newfd f.fdNum).close newfd
            else s.openAt newfd ⟨f.file.path, f.file.accMode, 0⟩) =
              s.openAt f.fdNum ⟨f.file.path, f.file.accMode, 0⟩ := by
          split
          next hne => exact FileTable.openAt_dup2_close _ (Option.not_isSome_iff_eq_none.1 hfree) hne
          next heq => rw [not_not.1 heq]
        rw [hmoved] at h
        split at h
        next => rw [← Option.some.inj h, FileTable.openAt_modify]
        next hzero =>
          have hpos : f.file.pos = 0 := UInt64.le_zero_iff.1 (UInt64.not_lt.1 hzero)
          rw [← Option.some.inj h, ← hpos]

/-- The loop, if no two of the files that are opened have the same number. -/
theorem FdsRestored.of_run
    (hd : rounds.Pairwise fun d e => d.Opened → e.Opened → d.1.fdNum ≠ e.1.fdNum)
    (h : run restoreFd s rounds = some t) : FdsRestored rounds s t := by
  -- the rounds that follow leave the number of a restored file alone
  induction rounds generalizing s with
  | nil =>
    cases h
    exact ⟨fun _ hmem => absurd hmem List.not_mem_nil, fun _ _ => ⟨rfl, rfl⟩⟩
  | cons round rounds ih =>
    obtain ⟨u, hu, h⟩ := Option.bind_eq_some_iff.1 h
    obtain ⟨hfirst, hrest⟩ := List.pairwise_cons.1 hd
    have hlater := ih hrest h
    obtain ⟨hop, rfl⟩ | ⟨hskip, rfl⟩ := restoreFd_cases hu
    · refine ⟨fun e he heop => ?_, fun n hn => ?_⟩
      · obtain rfl | he := List.mem_cons.1 he
        · rw [(hlater.others _ fun d hd hdop => (hfirst d hd hop hdop).symm).2, FileTable.get_openAt]
        · exact hlater.opened e he heop
      · obtain ⟨hfds, hget⟩ := hlater.others n fun e he => hn e (List.mem_cons_of_mem _ he)
        have hne : n ≠ round.1.fdNum := (hn round List.mem_cons_self hop).symm
        rw [hfds, hget, FileTable.fds_openAt_of_ne _ hne, FileTable.get_openAt_of_ne _ hne]
        exact ⟨rfl, rfl⟩
    · refine ⟨fun e he heop => ?_, fun n hn => hlater.others n fun e he => hn e (List.mem_cons_of_mem _ he)⟩
      obtain rfl | he := List.mem_cons.1 he
      · exact absurd heop hskip
      · exact hlater.opened e he heop

/-- **The file descriptors are restored to their numbers**, whatever numbers the files are opened at. -/
theorem fds_restored (hd : (rounds.map fun round => round.1.fdNum).Nodup) (h : run restoreFd s rounds = some t) :
    FdsRestored rounds s t :=
  .of_run ((List.pairwise_map.1 hd).imp fun hne _ _ => hne) h

/-- A table whose first three numbers refer to one file. -/
def terminal : FileTable UInt32 StubFile where
  fds n := if n < 3 then some 0 else none
  files := [⟨ascii "/dev/pts/0", 2, 0⟩]
  valid n k hk := by
    split at hk
    · cases hk
      decide
    · cases hk

/-- A file for number 3 that is opened at 4, one for number 4 that is opened there, and a descriptor that is skipped. -/
def threeRounds : List Round :=
  [(⟨3, 0x8001, 10, pathOf (some (ascii "/var/log"))⟩, some 4), (⟨4, 0, 0, pathOf (some (ascii "/etc/motd"))⟩, some 4),
    (⟨1, 2, 0, pathOf (some (ascii "/dev/pts/3"))⟩, none)]

/-- They are at their numbers in the end, and number 1 is where it was. -/
theorem threeRounds_restored : ∃ t, run restoreFd terminal threeRounds = some t ∧
    t.get 3 = some ⟨ascii "/var/log", 1, 10⟩ ∧ t.get 4 = some ⟨ascii "/etc/motd", 0, 0⟩ ∧ t.fds 1 = some 0 := by
  obtain ⟨t, ht⟩ := Option.isSome_iff_exists.1 (by decide +kernel : (run restoreFd terminal threeRounds).isSome = true)
  have hrestored := fds_restored (by decide : (threeRounds.map fun round => round.1.fdNum).Nodup) ht
  have hfirst := hrestored.opened _ (List.mem_cons_self (l := threeRounds.tail)) (by decide +kernel)
  have hsecond := hrestored.opened _ (List.mem_cons_of_mem _ (List.mem_cons_self (l := threeRounds.tail.tail)))
    (by decide +kernel)
  refine ⟨t, ht, hfirst.trans (by decide +kernel), hsecond.trans (by decide +kernel), ?_⟩
  exact (hrestored.others 1 (by decide +kernel)).1

/-! ## The captured descriptors -/

/-- The numbers of the open files increase. -/
theorem fdDescs_increasing {fd : Nat} {fs : List (Option OpenFile)} (h : fd + fs.length ≤ 2 ^ 32) :
    (∀ f ∈ fdDescs fd fs, fd ≤ f.fdNum.toNat) ∧ (fdDescs fd fs).Pairwise fun f g => f.fdNum < g.fdNum := by
  induction fs generalizing fd with
  | nil => exact ⟨fun _ hmem => absurd hmem List.not_mem_nil, .nil⟩
  | cons file fs ih =>
    rw [List.length_cons] at h
    obtain ⟨hle, hlt⟩ := @ih (fd + 1) (by omega)
    cases file with
    | none => exact ⟨fun f hf => Nat.le_of_succ_le (hle f hf), hlt⟩
    | some file =>
      have hfd : (file.desc fd).fdNum.toNat = fd := UInt32.toNat_ofNat_of_lt' (by show _ < 2 ^ 32; omega)
      refine ⟨fun f hf => ?_, List.pairwise_cons.2 ⟨fun f hf => ?_, hlt⟩⟩
      · obtain rfl | hf := List.mem_cons.1 hf
        · exact hfd.ge
        · exact Nat.le_of_succ_le (hle f hf)
      · rw [UInt32.lt_iff_toNat_lt, hfd]
        exact hle f hf

/-- **What a checkpoint has captured** is restored, also where the table has shrunk meanwhile: the descriptors that were
left empty all have number 0, but are skipped. -/
theorem captured_fds_restored (l : Looks) (pages : List (UInt64 × Page))
    (hlen : (l.capturedFds.getD []).length ≤ 2 ^ 32) (hfds : rounds.map Prod.fst = (l.snapshot pages).fds)
    (h : run restoreFd s rounds = some t) : FdsRestored rounds s t := by
  have hdistinct : (l.snapshot pages).fds.Pairwise fun f g =>
      f.reopenArgs.isSome → g.reopenArgs.isSome → f.fdNum ≠ g.fdNum := by
    have hempty : ∀ {n : Nat} {f : FdDesc}, f ∈ List.replicate n zeroFd → ¬ f.reopenArgs.isSome := by
      intro n f hf
      rw [List.eq_of_mem_replicate hf, reopenArgs_zeroFd]
      exact Bool.noConfusion
    refine List.pairwise_append.2 ⟨?_, ?_, fun f _ g hg _ hgop => absurd hgop (hempty hg)⟩
    · have hlt := (fdDescs_increasing (by rwa [Nat.zero_add] : 0 + (l.capturedFds.getD []).length ≤ 2 ^ 32)).2
      exact (hlt.sublist (List.take_sublist _ _)).imp fun hlt _ _ => UInt32.ne_of_lt hlt
    · exact List.pairwise_of_forall_mem_list fun f hf _ _ hfop => absurd hfop (hempty hf)
  rw [← hfds, List.pairwise_map] at hdistinct
  exact .of_run (hdistinct.imp fun hne hdop heop => hne hdop.1 heop.1) h

end UckSmp.Migrate
