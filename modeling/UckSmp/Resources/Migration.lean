import UckSmp.Resources.Kernel

/-!
# What a migration holds

`uck_migrate_process` with `uck_checkpoint_process` and `uck_send_process`, by the handles that they acquire, use and
give up.

* `uckMigrateProcess_spec`: on every path what was acquired is given up, and nothing is used that is not held.
* `migration_handles`: it sleeps inside a spinlock exactly if it gets to serialise an open file.
-/

namespace UckSmp.Resources

open Lib.Handles

/-! ## The code -/

/-- An address of an anonymous mapping: whether `get_user_pages_remote` finds the page, and `kmalloc` memory for it. -/
structure PageTry where
  pinned : Bool
  buf : Bool
  deriving DecidableEq, Repr

/-- A mapping: of a file, with what `kmalloc` returns for the path, or anonymous. -/
inductive Vma
  | ofFile (buf : Bool)
  | anon (pages : List PageTry)
  deriving DecidableEq, Repr

/-- An entry of the descriptor table: a file is there with what `kmalloc` returns for the path. -/
abbrev Slot := Option Bool

/-- What `uck_migrate_process` finds. The mappings and descriptors are those at the time of the loops. -/
structure Migration where
  /-- The destination is the node itself. -/
  isLocal : Bool
  found : Bool
  /-- The destination has the processor's features. -/
  compatible : Bool
  hasMm : Bool
  nrVmas : Nat
  nrFds : Nat
  buf : Bool
  vmas : List Vma
  /-- The descriptor table, if the task has one. -/
  files : Option (List Slot)
  /-- The destination is in the table of nodes. -/
  known : Bool
  connected : Bool
  connect : Connect
  sendRet : Int
  hasMmStill : Bool
  vmasSent : List Vma
  deriving DecidableEq, Repr

section Sender

variable (atomic : Handle → Bool)

/-- The path of a file, for its descriptor. -/
def path (buf : Bool) : Code Unit := do
  let ok ← kmalloc atomic buf .pathBuf
  if ok then do
    use .pathBuf
    release .pathBuf
    pure ()
  else pure ()

/-- `uck_count_vmas`. -/
def uckCountVmas : Code Unit := do
  lock atomic .mmapLock
  use .mm
  release .mmapLock
  pure ()

/-- `uck_count_fds`. -/
def uckCountFds (files : Option (List Slot)) : Code Unit := do
  use .task
  match files with
  | none => pure ()
  | some _ => do
    acquire .fileLock
    release .fileLock
    pure ()

/-- The loop of `uck_serialize_vmas`. -/
def serializeVma (v : Vma) : Code Unit := do
  use .stateBuf
  match v with
  | .ofFile buf => path atomic buf
  | .anon _ => pure ()

/-- `uck_serialize_vmas`. -/
def uckSerializeVmas (vmas : List Vma) (max : Nat) : Code Unit := do
  lock atomic .mmapLock
  use .mm
  each (serializeVma atomic) (vmas.take max)
  release .mmapLock
  pure ()

/-- The loop of `uck_serialize_fds`. -/
def serializeFds : List Slot → Nat → Code Unit
  | [], _ => pure ()
  | _ :: _, 0 => pure ()
  | none :: slots, max + 1 => serializeFds slots (max + 1)
  | some buf :: slots, max + 1 => do
    use .stateBuf
    path atomic buf
    serializeFds slots max

/-- `uck_serialize_fds`. -/
def uckSerializeFds (files : Option (List Slot)) (max : Nat) : Code Unit := do
  use .task
  match files with
  | none => pure ()
  | some slots => do
    acquire .fileLock
    serializeFds atomic slots max
    release .fileLock
    pure ()

/-- A walk over the threads of the task. -/
def forEachThread : Code Unit := do
  acquire .rcu
  use .task
  release .rcu
  pure ()

/-- `mmput`, which may free the address space. -/
def mmput : Code Unit := do
  sleep atomic
  release .mm
  pure ()

/-- `uck_checkpoint_process`: whether it returns a buffer. -/
def uckCheckpointProcess (e : Migration) : Code Bool := do
  use .task
  if e.hasMm then do
    acquire .mm
    uckCountVmas atomic
    uckCountFds e.files
    forEachThread
    let ok ← kmalloc atomic e.buf .stateBuf
    if ok then do
      use .stateBuf
      uckSerializeVmas atomic e.vmas e.nrVmas
      uckSerializeFds atomic e.files e.nrFds
      use .stateBuf
      forEachThread
      mmput atomic
      use .stateBuf
      pure true
    else do
      mmput atomic
      pure false
  else pure false

/-- One address in the loop of `uck_send_process`. -/
def sendPage (p : PageTry) : Code Unit := do
  blocking atomic [.mm]
  if p.pinned then do
    acquire .page
    let ok ← kmalloc atomic p.buf .pageBuf
    if ok then do
      blocking atomic [.page]
      acquire .mapping
      use .pageBuf
      release .mapping
      release .page
      blocking atomic [.pageBuf, .sockLock]
      release .pageBuf
      pure ()
    else do
      release .page
      pure ()
  else pure ()

def sendVma : Vma → Code Unit
  | .ofFile _ => pure ()
  | .anon pages => each (sendPage atomic) pages

/-- The anonymous pages of the task, in `uck_send_process`. -/
def sendPages (e : Migration) : Code Unit := do
  use .task
  if e.hasMmStill then do
    acquire .mm
    lock atomic .mmapLock
    each (sendVma atomic) e.vmasSent
    release .mmapLock
    mmput atomic
  else pure ()

def enoent : Int := 2
def einval : Int := 22
def esrch : Int := 3
def enomem : Int := 12
def eopnotsupp : Int := 95

/-- `uck_send_process`, when the destination is connected. -/
def sendConnected (e : Migration) : Code Int := do
  lock atomic .sockLock
  blocking atomic [.stateBuf, .sockLock]
  if e.sendRet < 0 then do
    release .sockLock
    pure e.sendRet
  else do
    sendPages atomic e
    blocking atomic [.sockLock]
    release .sockLock
    pure 0

/-- `uck_send_process`. -/
def uckSendProcess (e : Migration) : Code Int := do
  if e.known then
    if e.connected then sendConnected atomic e
    else do
      let ret ← uckNetConnectNode atomic e.connect
      if ret < 0 then pure ret else sendConnected atomic e
  else pure (-enoent)

/-- `uck_migrate_process`. -/
def uckMigrateProcess (e : Migration) : Code Int := do
  if e.isLocal then pure (-einval)
  else do
    acquire .rcu
    if e.found then do
      acquire .task
      release .rcu
      if e.compatible then do
        forEachThread
        blocking atomic [.task]
        uckAuditLog
        let ok ← uckCheckpointProcess atomic e
        if ok then do
          let ret ← uckSendProcess atomic e
          release .stateBuf
          forEachThread
          release .task
          pure ret
        else do
          forEachThread
          release .task
          pure (-enomem)
      else do
        uckAuditLog
        release .task
        pure (-eopnotsupp)
    else do
      release .rcu
      pure (-esrch)

end Sender

/-! ## Specifications -/

section SenderSpec

variable {atomic : Handle → Bool} {P : Multiset Handle}

/-- The path's memory is given up again. -/
theorem path_spec (buf : Bool) (hP : Quiet atomic P) : Spec atomic P (path atomic buf) fun _ H => H = P := by
  refine Spec.kmalloc hP (fun _ => ?_) (fun _ => Spec.pure rfl)
  refine Spec.use (Multiset.mem_cons_self _ _) ?_
  exact Spec.releaseLast (Spec.pure rfl)

theorem uckCountVmas_spec (hP : Quiet atomic P) (hmm : .mm ∈ P) :
    Spec atomic P (uckCountVmas atomic) fun _ H => H = P := by
  refine Spec.lock hP ?_
  refine Spec.use (Multiset.mem_cons_of_mem hmm) ?_
  exact Spec.releaseLast (Spec.pure rfl)

theorem uckCountFds_spec (files : Option (List Slot)) (ht : .task ∈ P) :
    Spec atomic P (uckCountFds files) fun _ H => H = P := by
  refine Spec.use ht ?_
  cases files with
  | none => exact Spec.pure rfl
  | some slots => exact Spec.acquire _ (Spec.releaseLast (Spec.pure rfl))

theorem forEachThread_spec (ht : .task ∈ P) : Spec atomic P forEachThread fun _ H => H = P := by
  refine Spec.acquire _ ?_
  refine Spec.use (Multiset.mem_cons_of_mem ht) ?_
  exact Spec.releaseLast (Spec.pure rfl)

theorem uckSerializeVmas_spec (hl : Lax atomic) (vmas : List Vma) (max : Nat) (hP : Quiet atomic P) (hmm : .mm ∈ P)
    (hbuf : .stateBuf ∈ P) : Spec atomic P (uckSerializeVmas atomic vmas max) fun _ H => H = P := by
  refine Spec.lock hP ?_
  refine Spec.use (Multiset.mem_cons_of_mem hmm) ?_
  have hquiet : Quiet atomic (.mmapLock ::ₘ P) := quiet_cons.2 ⟨hl.eq_false rfl, hP⟩
  refine Spec.andThen (Spec.each fun v _ => ?_) fun _ => Spec.releaseLast (Spec.pure rfl)
  refine Spec.use (Multiset.mem_cons_of_mem hbuf) ?_
  cases v with
  | ofFile buf => exact path_spec buf hquiet
  | anon pages => exact Spec.pure rfl

/-- No file is serialised. -/
def NoFile (slots : List Slot) (max : Nat) : Prop := max = 0 ∨ ∀ slot ∈ slots, slot = none

theorem serializeFds_of_noFile {slots : List Slot} {max : Nat} (h : NoFile slots max) :
    serializeFds atomic slots max = pure () := by
  induction slots with
  | nil => rfl
  | cons slot slots ih =>
    rcases h with rfl | h
    · rfl
    · cases max with
      | zero => rfl
      | succ max =>
        obtain rfl := h slot List.mem_cons_self
        exact ih (.inr fun s hs => h s (List.mem_cons_of_mem _ hs))

theorem serializeFds_spec (slots : List Slot) (max : Nat) (hP : Quiet atomic P) (hbuf : .stateBuf ∈ P) :
    Spec atomic P (serializeFds atomic slots max) fun _ H => H = P := by
  induction slots generalizing max with
  | nil => exact Spec.pure rfl
  | cons slot slots ih =>
    cases max with
    | zero => exact Spec.pure rfl
    | succ max =>
      cases slot with
      | none => exact ih (max + 1)
      | some buf => exact Spec.use hbuf ((path_spec buf hP).andThen fun _ => ih max)

/-- The descriptors that `uck_serialize_fds` serialises. -/
def Migration.Fileless (e : Migration) : Prop := ∀ slots ∈ e.files, NoFile slots e.nrFds

/-- Either sleeping is allowed inside the spinlock, or there is no file to serialise. -/
theorem uckSerializeFds_spec {e : Migration} (hsleep : atomic .fileLock = false ∨ e.Fileless) (hP : Quiet atomic P)
    (ht : .task ∈ P) (hbuf : .stateBuf ∈ P) :
    Spec atomic P (uckSerializeFds atomic e.files e.nrFds) fun _ H => H = P := by
  refine Spec.use ht ?_
  cases hfiles : e.files with
  | none => exact Spec.pure rfl
  | some slots =>
    refine Spec.acquire _ ?_
    refine Spec.andThen ?_ fun _ => Spec.releaseLast (Spec.pure rfl)
    rcases hsleep with hsleep | hnone
    · exact serializeFds_spec slots e.nrFds (quiet_cons.2 ⟨hsleep, hP⟩) (Multiset.mem_cons_of_mem hbuf)
    · rw [serializeFds_of_noFile (hnone slots hfiles)]
      exact Spec.pure rfl

theorem mmput_spec (hl : Lax atomic) (hP : Quiet atomic P) :
    Spec atomic (.mm ::ₘ P) (mmput atomic) fun _ H => H = P :=
  Spec.sleep (quiet_cons.2 ⟨hl.eq_false rfl, hP⟩) (Spec.releaseLast (Spec.pure rfl))

/-- `uck_checkpoint_process` leaves the buffer that it returns. -/
theorem uckCheckpointProcess_spec {e : Migration} (hl : Lax atomic)
    (hsleep : e.hasMm = true → e.buf = true → atomic .fileLock = false ∨ e.Fileless) (hP : Quiet atomic P)
    (ht : .task ∈ P) :
    Spec atomic P (uckCheckpointProcess atomic e) fun ok H => H = if ok then .stateBuf ::ₘ P else P := by
  unfold uckCheckpointProcess
  refine Spec.use ht ?_
  cases hhas : e.hasMm with
  | false => exact Spec.pure rfl
  | true =>
    refine Spec.acquire _ ?_
    have hquiet : Quiet atomic (.mm ::ₘ P) := quiet_cons.2 ⟨hl.eq_false rfl, hP⟩
    have htask : .task ∈ .mm ::ₘ P := Multiset.mem_cons_of_mem ht
    refine (uckCountVmas_spec hquiet (Multiset.mem_cons_self _ _)).andThen fun _ => ?_
    refine (uckCountFds_spec e.files htask).andThen fun _ => ?_
    refine (forEachThread_spec htask).andThen fun _ => ?_
    refine Spec.kmalloc hquiet (fun hok => ?_) fun _ => ?_
    · have hquiet' : Quiet atomic (.stateBuf ::ₘ .mm ::ₘ P) := quiet_cons.2 ⟨hl.eq_false rfl, hquiet⟩
      have hmm : .mm ∈ .stateBuf ::ₘ .mm ::ₘ P := Multiset.mem_cons_of_mem (Multiset.mem_cons_self _ _)
      have hbuf : .stateBuf ∈ .stateBuf ::ₘ .mm ::ₘ P := Multiset.mem_cons_self _ _
      have htask' : .task ∈ .stateBuf ::ₘ .mm ::ₘ P := Multiset.mem_cons_of_mem htask
      refine Spec.use hbuf ?_
      refine (uckSerializeVmas_spec hl e.vmas e.nrVmas hquiet' hmm hbuf).andThen fun _ => ?_
      refine (uckSerializeFds_spec (hsleep hhas hok) hquiet' htask' hbuf).andThen fun _ => ?_
      refine Spec.use hbuf ?_
      refine (forEachThread_spec htask').andThen fun _ => ?_
      rw [Multiset.cons_swap]
      refine (mmput_spec hl (quiet_cons.2 ⟨hl.eq_false rfl, hP⟩)).bind fun _ H hH => ?_
      rw [hH]
      exact Spec.use (Multiset.mem_cons_self _ _) (Spec.pure rfl)
    · refine (mmput_spec hl hP).bind fun _ H hH => ?_
      rw [hH]
      exact Spec.pure rfl

theorem sendPage_spec (hl : Lax atomic) (p : PageTry) (hP : Quiet atomic P) (hmm : .mm ∈ P) (hsock : .sockLock ∈ P) :
    Spec atomic P (sendPage atomic p) fun _ H => H = P := by
  refine Spec.blocking hP (by simpa using hmm) ?_
  cases p.pinned with
  | false => exact Spec.pure rfl
  | true =>
    refine Spec.acquire _ ?_
    have hquiet : Quiet atomic (.page ::ₘ P) := quiet_cons.2 ⟨hl.eq_false rfl, hP⟩
    refine Spec.kmalloc hquiet (fun _ => ?_) fun _ => Spec.releaseLast (Spec.pure rfl)
    refine Spec.blocking (quiet_cons.2 ⟨hl.eq_false rfl, hquiet⟩) (by simp) ?_
    refine Spec.acquire _ ?_
    refine Spec.use (by simp) ?_
    refine Spec.releaseLast ?_
    rw [Multiset.cons_swap]
    refine Spec.releaseLast ?_
    refine Spec.blocking (quiet_cons.2 ⟨hl.eq_false rfl, hP⟩) (by simpa using hsock) ?_
    exact Spec.releaseLast (Spec.pure rfl)

theorem sendPages_spec (hl : Lax atomic) (e : Migration) (hP : Quiet atomic P) (ht : .task ∈ P)
    (hsock : .sockLock ∈ P) : Spec atomic P (sendPages atomic e) fun _ H => H = P := by
  refine Spec.use ht ?_
  cases e.hasMmStill with
  | false => exact Spec.pure rfl
  | true =>
    refine Spec.acquire _ ?_
    have hquiet : Quiet atomic (.mm ::ₘ P) := quiet_cons.2 ⟨hl.eq_false rfl, hP⟩
    refine Spec.lock hquiet ?_
    refine Spec.andThen (Spec.each fun v _ => ?_) fun _ => Spec.releaseLast (mmput_spec hl hP)
    cases v with
    | ofFile buf => exact Spec.pure rfl
    | anon pages =>
      refine Spec.each fun p _ => sendPage_spec hl p (quiet_cons.2 ⟨hl.eq_false rfl, hquiet⟩) (by simp) ?_
      exact Multiset.mem_cons_of_mem (Multiset.mem_cons_of_mem hsock)

theorem sendConnected_spec (hl : Lax atomic) (e : Migration) (hP : Quiet atomic P) (ht : .task ∈ P)
    (hbuf : .stateBuf ∈ P) : Spec atomic P (sendConnected atomic e) fun _ H => H = P := by
  refine Spec.lock hP ?_
  have hquiet : Quiet atomic (.sockLock ::ₘ P) := quiet_cons.2 ⟨hl.eq_false rfl, hP⟩
  refine Spec.blocking hquiet (by simpa using hbuf) ?_
  split
  · exact Spec.releaseLast (Spec.pure rfl)
  · refine (sendPages_spec hl e hquiet (Multiset.mem_cons_of_mem ht) (Multiset.mem_cons_self _ _)).andThen fun _ => ?_
    refine Spec.blocking hquiet (by simp) ?_
    exact Spec.releaseLast (Spec.pure rfl)

theorem uckSendProcess_spec (hl : Lax atomic) (e : Migration) (hP : Quiet atomic P) (ht : .task ∈ P)
    (hbuf : .stateBuf ∈ P) : Spec atomic P (uckSendProcess atomic e) fun _ H => H = P := by
  unfold uckSendProcess
  split
  · split
    · exact sendConnected_spec hl e hP ht hbuf
    · refine (uckNetConnectNode_spec hl e.connect hP).andThen fun ret => ?_
      split
      · exact Spec.pure rfl
      · exact sendConnected_spec hl e hP ht hbuf
  · exact Spec.pure rfl

/-- The task gets to be serialised. -/
structure Migration.Serialised (e : Migration) : Prop where
  remote : e.isLocal = false
  found : e.found = true
  compatible : e.compatible = true
  hasMm : e.hasMm = true
  buf : e.buf = true

/-- **A migration gives up what it acquires**, on every path. -/
theorem uckMigrateProcess_spec {e : Migration} (hl : Lax atomic)
    (hsleep : atomic .fileLock = false ∨ (e.Serialised → e.Fileless)) (hP : Quiet atomic P) :
    Spec atomic P (uckMigrateProcess atomic e) fun _ H => H = P := by
  unfold uckMigrateProcess
  split
  · exact Spec.pure rfl
  · rename_i hremote
    refine Spec.acquire _ ?_
    split
    · rename_i hfound
      refine Spec.acquire _ ?_
      rw [Multiset.cons_swap]
      refine Spec.releaseLast ?_
      have hquiet : Quiet atomic (.task ::ₘ P) := quiet_cons.2 ⟨hl.eq_false rfl, hP⟩
      have ht : .task ∈ .task ::ₘ P := Multiset.mem_cons_self _ _
      split
      · rename_i hcomp
        refine (forEachThread_spec ht).andThen fun _ => ?_
        refine Spec.blocking hquiet (by simp) ?_
        refine Spec.spin ?_
        have hsleep' : e.hasMm = true → e.buf = true → atomic .fileLock = false ∨ e.Fileless :=
          fun hmm hbuf => hsleep.imp_right fun hs => hs ⟨by simpa using hremote, hfound, hcomp, hmm, hbuf⟩
        refine (uckCheckpointProcess_spec hl hsleep' hquiet ht).bind fun ok H hH => ?_
        rw [hH]
        cases ok with
        | true =>
          refine (uckSendProcess_spec hl e (quiet_cons.2 ⟨hl.eq_false rfl, hquiet⟩) (Multiset.mem_cons_of_mem ht)
            (Multiset.mem_cons_self _ _)).andThen fun ret => ?_
          refine Spec.releaseLast ?_
          exact (forEachThread_spec ht).andThen fun _ => Spec.releaseLast (Spec.pure rfl)
        | false => exact (forEachThread_spec ht).andThen fun _ => Spec.releaseLast (Spec.pure rfl)
      · exact Spec.spin (Spec.releaseLast (Spec.pure rfl))
    · exact Spec.releaseLast (Spec.pure rfl)

end SenderSpec

/-! ## Sleeping inside the spinlock -/

section Strict

variable {P : Multiset Handle} {e : Migration}

/-- The path of a file, inside the spinlock. -/
theorem path_stuck (buf : Bool) (hP : ¬ Quiet Handle.atomic P) : Stuck Handle.atomic P (path Handle.atomic buf) :=
  Stuck.bind (Stuck.bind (Stuck.sleep hP))

theorem serializeFds_stuck {slots : List Slot} {max : Nat} (hP : ¬ Quiet Handle.atomic P) (hbuf : .stateBuf ∈ P)
    (h : ¬ NoFile slots max) : Stuck Handle.atomic P (serializeFds Handle.atomic slots max) := by
  induction slots with
  | nil => exact absurd (.inr nofun) h
  | cons slot slots ih =>
    cases max with
    | zero => exact absurd (.inl rfl) h
    | succ max =>
      cases slot with
      | none =>
        refine ih fun hnone => h ?_
        rcases hnone with hnone | hnone
        · cases hnone
        · refine .inr fun s hs => ?_
          rcases List.mem_cons.1 hs with rfl | hs
          · rfl
          · exact hnone s hs
      | some buf =>
        exact Stuck.andThen (use_spec hbuf) fun _ => (path_stuck buf hP).bind

theorem uckSerializeFds_stuck (ht : .task ∈ P) (hbuf : .stateBuf ∈ P)
    (h : ¬ e.Fileless) : Stuck Handle.atomic P (uckSerializeFds Handle.atomic e.files e.nrFds) := by
  refine Stuck.andThen (use_spec ht) fun _ => ?_
  cases hfiles : e.files with
  | none => exact absurd (fun slots hs => by rw [hfiles] at hs; cases hs) h
  | some slots =>
    refine Stuck.andThen (acquire_spec _) fun _ => ?_
    have hloud : ¬ Quiet Handle.atomic (.fileLock ::ₘ P) := fun hq => by cases (quiet_cons.1 hq).1
    refine (serializeFds_stuck hloud (Multiset.mem_cons_of_mem hbuf) fun hnone => h ?_).bind
    intro slots' hs
    rw [hfiles] at hs
    cases hs
    exact hnone

theorem uckCheckpointProcess_stuck (hs : e.Serialised) (hP : Quiet Handle.atomic P) (ht : .task ∈ P)
    (h : ¬ e.Fileless) : Stuck Handle.atomic P (uckCheckpointProcess Handle.atomic e) := by
  have hquiet : Quiet Handle.atomic (.mm ::ₘ P) := quiet_cons.2 ⟨rfl, hP⟩
  have htask : .task ∈ .mm ::ₘ P := Multiset.mem_cons_of_mem ht
  have hquiet' : Quiet Handle.atomic (.stateBuf ::ₘ .mm ::ₘ P) := quiet_cons.2 ⟨rfl, hquiet⟩
  have hbuf : .stateBuf ∈ .stateBuf ::ₘ .mm ::ₘ P := Multiset.mem_cons_self _ _
  have hmm : .mm ∈ .stateBuf ::ₘ .mm ::ₘ P := Multiset.mem_cons_of_mem (Multiset.mem_cons_self _ _)
  unfold uckCheckpointProcess
  refine Stuck.andThen (use_spec ht) fun _ => ?_
  rw [if_pos hs.hasMm]
  refine Stuck.andThen (acquire_spec _) fun _ => ?_
  refine Stuck.andThen (uckCountVmas_spec hquiet (Multiset.mem_cons_self _ _)) fun _ => ?_
  refine Stuck.andThen (uckCountFds_spec e.files htask) fun _ => ?_
  refine Stuck.andThen (forEachThread_spec htask) fun _ => ?_
  refine Stuck.after (kmalloc_spec hquiet) fun ok H hH => ?_
  obtain ⟨rfl, rfl⟩ := hH
  rw [if_pos hs.buf, if_pos hs.buf]
  refine Stuck.andThen (use_spec hbuf) fun _ => ?_
  refine Stuck.andThen (uckSerializeVmas_spec lax_atomic e.vmas e.nrVmas hquiet' hmm hbuf) fun _ => ?_
  exact (uckSerializeFds_stuck (Multiset.mem_cons_of_mem htask) hbuf h).bind

theorem uckMigrateProcess_stuck (hs : e.Serialised) (h : ¬ e.Fileless) :
    Stuck Handle.atomic 0 (uckMigrateProcess Handle.atomic e) := by
  have ht : Handle.task ∈ Handle.task ::ₘ 0 := Multiset.mem_cons_self _ _
  have hquiet : Quiet Handle.atomic (.task ::ₘ 0) := quiet_cons.2 ⟨rfl, quiet_zero⟩
  unfold uckMigrateProcess
  rw [if_neg (by simp [hs.remote])]
  refine Stuck.andThen (acquire_spec _) fun _ => ?_
  rw [if_pos hs.found]
  refine Stuck.andThen (acquire_spec _) fun _ => ?_
  rw [Multiset.cons_swap]
  refine Stuck.andThen (release_spec (Multiset.mem_cons_self _ _)) fun _ => ?_
  rw [Multiset.erase_cons_head, if_pos hs.compatible]
  refine Stuck.andThen (forEachThread_spec ht) fun _ => ?_
  refine Stuck.andThen (blocking_spec hquiet (by simp)) fun _ => ?_
  refine Stuck.andThen spin_spec fun _ => ?_
  exact (uckCheckpointProcess_stuck hs hquiet ht h).bind

/-- **What a migration does with its handles**: on every path, whatever the calls of the kernel return, it gives up
exactly what it acquired and uses only what it holds. It never sleeps inside a spinlock or an RCU section, unless the
task gets to be serialised and has an open file. -/
theorem migration_handles (e : Migration) :
    (∃ ret, uckMigrateProcess (fun _ => false) e 0 = some (ret, 0)) ∧
      ((∃ ret, uckMigrateProcess Handle.atomic e 0 = some (ret, 0)) ↔ (e.Serialised → e.Fileless)) := by
  refine ⟨?_, ?_, ?_⟩
  · obtain ⟨ret, H, hrun, rfl⟩ := (uckMigrateProcess_spec (e := e) lax_false (.inl rfl) quiet_zero).run_zero
    exact ⟨ret, hrun⟩
  · rintro ⟨ret, hrun⟩ hs
    by_contra hfile
    cases (uckMigrateProcess_stuck hs hfile).run_zero.symm.trans hrun
  · intro hs
    obtain ⟨ret, H, hrun, rfl⟩ := (uckMigrateProcess_spec (e := e) lax_atomic (.inr hs) quiet_zero).run_zero
    exact ⟨ret, hrun⟩

end Strict

end UckSmp.Resources
