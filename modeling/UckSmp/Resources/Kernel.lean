import UckSmp.Lib.Handles

/-!
# Calls of the kernel, by the handles they take and give

What the functions of the module hold while they run: memory, references, sockets, files and locks. The results of the
calls of the kernel are left open, and are arguments of the functions.

* `Spec.kmalloc`, `Spec.lock`, `Spec.blocking`, `Spec.spin`: the rules for the calls.
* `uckNetConnectNode_spec`: connecting to a node, which many functions do.
-/

namespace UckSmp.Resources

open Lib.Handles

/-- Memory is named after the variable that points to it. -/
inductive Handle
  | pathBuf
  | stateBuf
  | pageBuf
  | incoming
  | incPages (generation : Nat)
  | incState
  | zeroPage
  | discard
  | desc
  | execCtx
  | task
  | mm
  | page
  /-- A page in the cache of a region, which is there as long as the lock of the region is held. -/
  | cached
  | mapping
  | tfm
  | file
  | client
  /-- The socket of a node in the table. -/
  | nodeSock
  | mmapLock
  | sockLock
  | stateLock
  | regionLock
  | jobsLock
  | fileLock
  | futexLock
  | limitLock
  | auditLock
  | rcu
  deriving DecidableEq, Repr

/-- Sleeping is not allowed inside a spinlock or an RCU read section. -/
def Handle.atomic : Handle → Bool
  | .fileLock | .futexLock | .limitLock | .auditLock | .rcu => true
  | _ => false

abbrev Code (α : Type) := Run Handle α

/-- What may be atomic is so. -/
def Lax (atomic : Handle → Bool) : Prop := ∀ h, atomic h = true → h.atomic = true

theorem lax_atomic : Lax Handle.atomic := fun _ h => h

theorem lax_false : Lax fun _ => false := nofun

theorem Lax.eq_false {atomic : Handle → Bool} (hl : Lax atomic) {h : Handle} (hh : h.atomic = false) :
    atomic h = false := by
  cases hb : atomic h with
  | false => rfl
  | true => exact absurd (hl h hb) (by simp [hh])

section Calls

variable (atomic : Handle → Bool)

/-- `kmalloc`, `kzalloc` and `kvmalloc` with `GFP_KERNEL`. -/
def kmalloc (ok : Bool) (h : Handle) : Code Bool := do
  sleep atomic
  if ok then do
    acquire h
    pure true
  else pure false

/-- `mutex_lock` and `mmap_read_lock`. -/
def lock (h : Handle) : Code Unit := do
  sleep atomic
  acquire h
  pure ()

/-- A call that may sleep and works on what the handles stand for. -/
def blocking (hs : List Handle) : Code Unit := do
  sleep atomic
  each (fun h => do use h; pure ()) hs

/-- A section inside a spinlock that does nothing with other handles. -/
def spin (h : Handle) : Code Unit := do
  acquire h
  release h
  pure ()

/-- The handle goes to somebody else, who gives it up. -/
def handOver (h : Handle) : Code Unit := release h

/-- `uck_audit_log`. -/
def uckAuditLog : Code Unit := spin .auditLock

/-- What `sock_create_kern` and `kernel_connect` return. -/
structure Connect where
  createRet : Int
  connectRet : Int
  deriving DecidableEq, Repr

/-- `uck_net_connect_node`, when the node is not connected. The socket then belongs to the table of nodes. -/
def uckNetConnectNode (c : Connect) : Code Int := do
  blocking atomic []
  if c.createRet < 0 then pure c.createRet
  else do
    acquire .nodeSock
    blocking atomic [.nodeSock]
    if c.connectRet < 0 then do
      release .nodeSock
      pure c.connectRet
    else do
      handOver .nodeSock
      pure 0

end Calls

section Rules

variable {β : Type} {atomic : Handle → Bool} {P : Multiset Handle} {R : β → Multiset Handle → Prop} {h : Handle}

theorem kmalloc_spec {ok : Bool} (hP : Quiet atomic P) :
    Spec atomic P (kmalloc atomic ok h) fun b H => b = ok ∧ H = if ok then h ::ₘ P else P := by
  refine Spec.sleep hP ?_
  cases ok with
  | true => exact Spec.acquire h (Spec.pure ⟨rfl, rfl⟩)
  | false => exact Spec.pure ⟨rfl, rfl⟩

theorem lock_spec (hP : Quiet atomic P) : Spec atomic P (lock atomic h) fun _ H => H = h ::ₘ P :=
  Spec.sleep hP (Spec.acquire h (Spec.pure rfl))

theorem blocking_spec {hs : List Handle} (hP : Quiet atomic P) (hmem : ∀ h ∈ hs, h ∈ P) :
    Spec atomic P (blocking atomic hs) fun _ H => H = P :=
  Spec.sleep hP (Spec.each fun h hh => Spec.use (hmem h hh) (Spec.pure rfl))

theorem Spec.kmalloc {ok : Bool} {f : Bool → Code β} (hP : Quiet atomic P)
    (hok : ok = true → Spec atomic (h ::ₘ P) (f true) R) (hfail : ok = false → Spec atomic P (f false) R) :
    Spec atomic P (kmalloc atomic ok h >>= f) R := by
  refine (kmalloc_spec hP).bind fun b H hH => ?_
  obtain ⟨rfl, rfl⟩ := hH
  cases b with
  | true => exact hok rfl
  | false => exact hfail rfl

theorem Spec.lock {f : Unit → Code β} (hP : Quiet atomic P) (hf : Spec atomic (h ::ₘ P) (f ()) R) :
    Spec atomic P (lock atomic h >>= f) R := by
  refine (lock_spec hP).bind fun _ H hH => ?_
  rw [hH]
  exact hf

theorem Spec.blocking {hs : List Handle} {f : Unit → Code β} (hP : Quiet atomic P) (hmem : ∀ h ∈ hs, h ∈ P)
    (hf : Spec atomic P (f ()) R) : Spec atomic P (blocking atomic hs >>= f) R :=
  (blocking_spec hP hmem).andThen fun _ => hf

theorem spin_spec : Spec atomic P (spin h) fun _ H => H = P := Spec.acquire h (Spec.releaseLast (Spec.pure rfl))

theorem Spec.spin {f : Unit → Code β} (hf : Spec atomic P (f ()) R) : Spec atomic P (spin h >>= f) R :=
  spin_spec.andThen fun _ => hf

theorem uckNetConnectNode_spec (hl : Lax atomic) (c : Connect) (hP : Quiet atomic P) :
    Spec atomic P (uckNetConnectNode atomic c) fun _ H => H = P := by
  refine Spec.blocking hP (by simp) ?_
  split
  · exact Spec.pure rfl
  · refine Spec.acquire _ ?_
    refine Spec.blocking (quiet_cons.2 ⟨hl.eq_false rfl, hP⟩) (by simp) ?_
    split
    · exact Spec.releaseLast (Spec.pure rfl)
    · exact Spec.releaseLast (Spec.pure rfl)

end Rules

end UckSmp.Resources
