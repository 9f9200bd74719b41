import UckSmp.Lib.Bpf

/-!
# The filter of a restored process

`uck_apply_seccomp_filter` of `uck_restore.c`: before the stub jumps into the process, it puts a filter on its own
system calls. The filter looks at the number of a call and not at the architecture that the number belongs to, and
nothing looks at what `prctl` returns.

* `verdict_filter`: what the filter says to a system call, on any architecture.
* `filtered_calls`: which calls are refused, and through which entries into the kernel the five operations are.
-/

namespace UckSmp.Migrate

open Lib Lib.Bpf

/-! ## Code -/

/-- `struct seccomp_data`; the number is an `int`, read as it is stored. -/
structure SeccompData where
  nr : UInt32
  arch : UInt32
  instructionPointer : UInt64
  args : Fin 6 → UInt64

/-- The halves of a word of 64 bits, as they are stored. -/
def halves (x : UInt64) : List UInt32 := [x.toUInt32, (x >>> 32).toUInt32]

/-- The words of 32 bits that a filter can read. -/
def SeccompData.load (d : SeccompData) (off : UInt32) : Option UInt32 :=
  if off.toNat % 4 = 0 then
    (d.nr :: d.arch :: (halves d.instructionPointer ++ (List.ofFn d.args).flatMap halves))[off.toNat / 4]?
  else none

/-- `SECCOMP_RET_ERRNO | (EPERM & SECCOMP_RET_DATA)`. -/
def retEperm : UInt32 := 0x00050000 ||| (1 &&& 0x0000ffff)

/-- `SECCOMP_RET_ALLOW`. -/
def retAllow : UInt32 := 0x7fff0000

/-- The array `filter` of `uck_apply_seccomp_filter`, with the numbers of x86-64. -/
def filter : Program :=
  [.ldAbs 0,
    -- ptrace
    .jeq 101 0 1, .ret retEperm,
    -- mount
    .jeq 165 0 1, .ret retEperm,
    -- reboot
    .jeq 169 0 1, .ret retEperm,
    -- kexec_load
    .jeq 246 0 1, .ret retEperm,
    -- init_module
    .jeq 175 0 1, .ret retEperm,
    .ret retAllow]

/-- `uck_apply_seccomp_filter`: the filter that the stub has afterwards, if the kernel takes it. Whether there are
filters at all and memory for one is left open. -/
def uckApplySeccompFilter (granted : Bool) : Option Program := if granted ∧ Valid 64 filter then some filter else none

/-- What a process with this filter gets on a system call. -/
def seccomp (program : Option Program) (d : SeccompData) : Option UInt32 :=
  match program with
  | none => some retAllow
  | some program => verdict d.load program

/-! ## Statement -/

/-- The numbers that the filter looks for. -/
def blocked : List UInt32 := [101, 165, 169, 246, 175]

/-- What the filter is to keep a restored process from. -/
inductive Operation
  | ptrace
  | mount
  | reboot
  | kexecLoad
  | initModule
  deriving DecidableEq, Repr

/-- The entries into the kernel that a process on x86-64 can use. -/
inductive Abi
  | x64
  | i386
  | x32
  deriving DecidableEq, Repr

/-- What the kernel reports as the architecture of a call. -/
def Abi.arch : Abi → UInt32
  | .x64 | .x32 => 0xc000003e
  | .i386 => 0x40000003

/-- The number of an operation. The numbers of x32 have a bit of their own. -/
def Abi.number : Abi → Operation → UInt32
  | .x64, .ptrace => 101
  | .x64, .mount => 165
  | .x64, .reboot => 169
  | .x64, .kexecLoad => 246
  | .x64, .initModule => 175
  | .i386, .ptrace => 26
  | .i386, .mount => 21
  | .i386, .reboot => 88
  | .i386, .kexecLoad => 283
  | .i386, .initModule => 128
  | .x32, .ptrace => 0x40000000 ||| 521
  | .x32, .mount => 0x40000000 ||| 165
  | .x32, .reboot => 0x40000000 ||| 169
  | .x32, .kexecLoad => 0x40000000 ||| 528
  | .x32, .initModule => 0x40000000 ||| 175

/-- A system call for the operation. -/
def Abi.call (abi : Abi) (op : Operation) (instructionPointer : UInt64) (args : Fin 6 → UInt64) : SeccompData :=
  { nr := abi.number op, arch := abi.arch, instructionPointer, args }

/-! ## The filter -/

theorem filter_eq : filter = denyList 0 blocked retEperm retAllow := rfl

/-- The kernel finds nothing wrong with the filter. -/
theorem valid_filter : Valid 64 filter := by
  rw [filter_eq]
  exact valid_denyList (by decide) (by decide) _ _

/-- The number decides, whatever the architecture it is a number of. -/
theorem verdict_filter (d : SeccompData) :
    verdict d.load filter = some (if d.nr ∈ blocked then retEperm else retAllow) := by
  have hnr : d.load 0 = some d.nr := rfl
  rw [filter_eq]
  exact run_denyList hnr blocked retEperm retAllow

/-- `finit_module` does what `init_module` does. -/
example (d : SeccompData) (h : d.nr = 313) : verdict d.load filter = some retAllow := by
  rw [verdict_filter, h]
  rfl

theorem seccomp_uckApplySeccompFilter (granted : Bool) (d : SeccompData) :
    seccomp (uckApplySeccompFilter granted) d =
      some (if granted ∧ d.nr ∈ blocked then retEperm else retAllow) := by
  cases granted with
  | false => simp [uckApplySeccompFilter, seccomp]
  | true => simp [uckApplySeccompFilter, seccomp, valid_filter, verdict_filter]

/-- The numbers are those of one of the three entries. -/
theorem number_mem_blocked_iff (abi : Abi) (op : Operation) : abi.number op ∈ blocked ↔ abi = .x64 := by
  cases abi with
  | x64 => cases op <;> decide
  | i386 => cases op <;> decide
  | x32 => cases op <;> decide

/-- **What the filter refuses**: a call is refused exactly if the filter was taken and the number is one of the five,
on every architecture and with any arguments. So each of the five operations is refused to a 64-bit call, and to no call
of the other two kinds that the process can make. -/
theorem filtered_calls (granted : Bool) :
    (∀ d, seccomp (uckApplySeccompFilter granted) d =
      some (if granted ∧ d.nr ∈ blocked then retEperm else retAllow)) ∧
    ∀ abi op instructionPointer args,
      seccomp (uckApplySeccompFilter granted) (Abi.call abi op instructionPointer args) = some retEperm ↔
        granted ∧ abi = .x64 := by
  refine ⟨seccomp_uckApplySeccompFilter granted, fun abi op ip args => ?_⟩
  have hnr : (Abi.call abi op ip args).nr = abi.number op := rfl
  rw [seccomp_uckApplySeccompFilter, hnr]
  simp only [number_mem_blocked_iff]
  split
  next h => exact ⟨fun _ => h, fun _ => rfl⟩
  next h => exact ⟨fun hret => absurd hret (by decide), fun h' => absurd h' h⟩

end UckSmp.Migrate
