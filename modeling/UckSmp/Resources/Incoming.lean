import UckSmp.Resources.Kernel

/-!
# What an incoming migration holds

`uck_handle_proc_state`, by the handles that it acquires, uses and gives up. The array of the pages is replaced when it
is full; each array is a handle of its own.

* `receivePages_spec`: the loop holds exactly the array that `pages` points to.
* `uckHandleProcState_spec`: everything is given up again, but for a process whose checksum does not match.
-/

namespace UckSmp.Resources

open Lib.Handles

/-- What `msg` holds in a turn of the loop: a page, with what `kvmalloc_array` returns if the array is full and whether
the page is received; or something else, which ends the loop. The end of the list is a header that is not received. -/
inductive PageMsg
  | page (alloc : Bool) (received : Bool)
  | other
  deriving DecidableEq, Repr

/-- What `uck_handle_proc_state` finds. -/
structure Incoming where
  inc : Bool
  pages : Bool
  /-- The payload is shorter than the header of the state. -/
  tooSmall : Bool
  hdrReceived : Bool
  stateLen : Nat
  state : Bool
  stateReceived : Bool
  msgs : List PageMsg
  crcOk : Bool
  fileOpened : Bool
  /-- The number of calls of `kernel_write` that succeed. -/
  written : Nat
  deriving DecidableEq, Repr

section Code

variable (atomic : Handle → Bool)

/-- Room for one more page: the capacity and the array after it, unless there is no memory. -/
def growPages (nr cap gen : Nat) (alloc : Bool) : Code (Option (Nat × Nat)) := do
  if cap ≤ nr then do
    let ok ← kmalloc atomic alloc (.incPages (gen + 1))
    if ok then do
      use (.incPages gen)
      use (.incPages (gen + 1))
      release (.incPages gen)
      pure (some (cap * 2, gen + 1))
    else pure none
  else pure (some (cap, gen))

/-- The loop of `uck_handle_proc_state`: the number of pages and the array at its end. -/
def receivePages : (nr cap gen : Nat) → List PageMsg → Code (Nat × Nat)
  | nr, _, gen, [] => do
    blocking atomic [.client]
    pure (nr, gen)
  | nr, _, gen, .other :: _ => do
    blocking atomic [.client]
    pure (nr, gen)
  | nr, cap, gen, .page alloc received :: msgs => do
    blocking atomic [.client]
    match ← growPages atomic nr cap gen alloc with
    | none => pure (nr, gen)
    | some (cap, gen) => do
      blocking atomic [.client, .incPages gen]
      if received then receivePages (nr + 1) cap gen msgs else pure (nr, gen)

/-- `uck_free_incoming`. -/
def uckFreeIncoming (state : Bool) (gen : Nat) : Code Unit := do
  if state then do
    release .incState
    release (.incPages gen)
    release .incoming
    pure ()
  else do
    release (.incPages gen)
    release .incoming
    pure ()

/-- What `uck_write_state_file` writes, in its order. -/
def stateWrites (state : Bool) (nr gen : Nat) : List Handle :=
  .incoming :: (if state then [.incState] else []) ++ .incoming :: List.replicate (2 * nr) (.incPages gen)

/-- `uck_write_state_file`, which stops at the first write that fails. -/
def uckWriteStateFile (e : Incoming) (state : Bool) (nr gen : Nat) : Code Bool := do
  blocking atomic []
  if e.fileOpened then do
    acquire .file
    each (fun h => blocking atomic [.file, h]) ((stateWrites state nr gen).take (e.written + 1))
    release .file
    pure (decide ((stateWrites state nr gen).length ≤ e.written))
  else pure false

/-- `uck_launch_restored_process`. -/
def uckLaunchRestoredProcess (e : Incoming) (state : Bool) (nr gen : Nat) : Code Unit := do
  let ok ← uckWriteStateFile atomic e state nr gen
  if ok then blocking atomic [.incoming] else pure ()

/-- `uck_handle_proc_state` from the loop on. `state` says whether `state_buf` was allocated. -/
def receiveProcess (e : Incoming) (state : Bool) : Code Unit := do
  uckAuditLog
  let (nr, gen) ← receivePages atomic 0 256 0 e.msgs
  use .incoming
  if e.crcOk then do
    uckLaunchRestoredProcess atomic e state nr gen
    uckAuditLog
    uckFreeIncoming state gen
  else uckAuditLog

/-- `uck_handle_proc_state` after its header is received. -/
def receiveState (e : Incoming) : Code Unit := do
  if 0 < e.stateLen then do
    let ok ← kmalloc atomic e.state .incState
    if ok then do
      blocking atomic [.client, .incState]
      if e.stateReceived then receiveProcess atomic e true else uckFreeIncoming true 0
    else uckFreeIncoming false 0
  else receiveProcess atomic e false

/-- `uck_handle_proc_state`, with `uck_alloc_incoming`. -/
def uckHandleProcState (e : Incoming) : Code Unit := do
  let ok ← kmalloc atomic e.inc .incoming
  if ok then do
    let ok ← kmalloc atomic e.pages (.incPages 0)
    if ok then
      if e.tooSmall then uckFreeIncoming false 0
      else do
        blocking atomic [.client, .incoming]
        if e.hdrReceived then receiveState atomic e else uckFreeIncoming false 0
    else do
      release .incoming
      pure ()
  else pure ()

end Code

/-! ## What is left -/

/-- The capacity and the array after `growPages`. -/
def grown (nr cap gen : Nat) (alloc : Bool) : Option (Nat × Nat) :=
  if cap ≤ nr then if alloc then some (cap * 2, gen + 1) else none else some (cap, gen)

/-- The number of pages and the array at the end of the loop. -/
def received : (nr cap gen : Nat) → List PageMsg → Nat × Nat
  | nr, _, gen, [] => (nr, gen)
  | nr, _, gen, .other :: _ => (nr, gen)
  | nr, cap, gen, .page alloc got :: msgs =>
    match grown nr cap gen alloc with
    | none => (nr, gen)
    | some (cap, gen) => if got then received (nr + 1) cap gen msgs else (nr, gen)

/-- The process gets to the check of its checksum. -/
def Incoming.checked (e : Incoming) : Bool :=
  e.inc && e.pages && !e.tooSmall && e.hdrReceived && (e.stateLen == 0 || e.state && e.stateReceived)

/-- The memory of an incoming process. -/
def incMemory (state : Bool) (gen : Nat) : Multiset Handle :=
  if state then .incState ::ₘ .incPages gen ::ₘ .incoming ::ₘ 0 else .incPages gen ::ₘ .incoming ::ₘ 0

/-- What `uck_handle_proc_state` leaves behind. -/
def Incoming.left (e : Incoming) : Multiset Handle :=
  if e.checked && !e.crcOk then incMemory (0 < e.stateLen) (received 0 256 0 e.msgs).2 else 0

section Spec

variable {atomic : Handle → Bool} {P : Multiset Handle} (hl : Lax atomic) (hP : Quiet atomic P) (hc : .client ∈ P)

include hl hP in
theorem growPages_spec (nr cap gen : Nat) (alloc : Bool) :
    Spec atomic (.incPages gen ::ₘ P) (growPages atomic nr cap gen alloc) fun o H =>
      o = grown nr cap gen alloc ∧ H = .incPages (o.elim gen Prod.snd) ::ₘ P := by
  unfold growPages grown
  split
  · have hquiet : Quiet atomic (.incPages gen ::ₘ P) := quiet_cons.2 ⟨hl.eq_false rfl, hP⟩
    refine Spec.kmalloc hquiet (fun hok => ?_) fun hfail => ?_
    · refine Spec.use (by simp) ?_
      refine Spec.use (by simp) ?_
      rw [Multiset.cons_swap]
      refine Spec.releaseLast (Spec.pure ⟨?_, rfl⟩)
      rw [if_pos hok]
    · refine Spec.pure ⟨?_, rfl⟩
      simp [hfail]
  · exact Spec.pure ⟨rfl, rfl⟩

include hl hP hc in
/-- **The loop** holds the array that `pages` points to, and nothing else of its own. -/
theorem receivePages_spec (nr cap gen : Nat) (msgs : List PageMsg) :
    Spec atomic (.incPages gen ::ₘ P) (receivePages atomic nr cap gen msgs) fun r H =>
      r = received nr cap gen msgs ∧ H = .incPages r.2 ::ₘ P := by
  have hquiet : ∀ g, Quiet atomic (.incPages g ::ₘ P) := fun g => quiet_cons.2 ⟨hl.eq_false rfl, hP⟩
  induction msgs generalizing nr cap gen with
  | nil => exact Spec.blocking (hquiet gen) (by simpa using hc) (Spec.pure ⟨rfl, rfl⟩)
  | cons msg msgs ih =>
    cases msg with
    | other => exact Spec.blocking (hquiet gen) (by simpa using hc) (Spec.pure ⟨rfl, rfl⟩)
    | page alloc got =>
      refine Spec.blocking (hquiet gen) (by simpa using hc) ?_
      refine (growPages_spec hl hP nr cap gen alloc).bind fun o H hH => ?_
      obtain ⟨ho, rfl⟩ := hH
      rw [received, ← ho]
      cases o with
      | none => exact Spec.pure ⟨rfl, rfl⟩
      | some p =>
        obtain ⟨cap', gen'⟩ := p
        refine Spec.blocking (hquiet gen') (by simpa using hc) ?_
        cases got with
        | true => exact ih (nr + 1) cap' gen'
        | false => exact Spec.pure ⟨rfl, rfl⟩

@[simp] theorem incMemory_true_add (gen : Nat) :
    incMemory true gen + P = .incState ::ₘ .incPages gen ::ₘ .incoming ::ₘ P := by
  simp [incMemory]

@[simp] theorem incMemory_false_add (gen : Nat) : incMemory false gen + P = .incPages gen ::ₘ .incoming ::ₘ P := by
  simp [incMemory]

theorem uckFreeIncoming_spec (state : Bool) (gen : Nat) :
    Spec atomic (incMemory state gen + P) (uckFreeIncoming state gen) fun _ H => H = P := by
  cases state with
  | true =>
    rw [incMemory_true_add]
    exact Spec.releaseLast (Spec.releaseLast (Spec.releaseLast (Spec.pure rfl)))
  | false =>
    rw [incMemory_false_add]
    exact Spec.releaseLast (Spec.releaseLast (Spec.pure rfl))

include hl hP in
theorem quiet_incMemory (state : Bool) (gen : Nat) : Quiet atomic (incMemory state gen + P) := by
  have hpages : atomic (.incPages gen) = false := hl.eq_false rfl
  have hstate : atomic .incState = false := hl.eq_false rfl
  have hinc : atomic .incoming = false := hl.eq_false rfl
  cases state with
  | true => simp [incMemory, hpages, hstate, hinc, hP]
  | false => simp [incMemory, hpages, hinc, hP]

/-- What is written is memory of the incoming process. -/
theorem mem_incMemory_of_mem_stateWrites {state : Bool} {nr gen : Nat} {h : Handle}
    (hh : h ∈ stateWrites state nr gen) : h ∈ incMemory state gen := by
  cases state with
  | true =>
    simp only [stateWrites, if_true, List.cons_append, List.nil_append, List.mem_cons, List.mem_replicate] at hh
    rcases hh with rfl | rfl | rfl | ⟨-, rfl⟩ <;> simp [incMemory]
  | false =>
    simp only [stateWrites, Bool.false_eq_true, if_false, List.cons_append, List.nil_append, List.mem_cons,
      List.mem_replicate] at hh
    rcases hh with rfl | rfl | ⟨-, rfl⟩ <;> simp [incMemory]

include hl hP in
theorem uckLaunchRestoredProcess_spec (e : Incoming) (state : Bool) (nr gen : Nat) :
    Spec atomic (incMemory state gen + P) (uckLaunchRestoredProcess atomic e state nr gen) fun _ H =>
      H = incMemory state gen + P := by
  have hquiet := quiet_incMemory hl hP state gen
  have hwrite : Spec atomic (incMemory state gen + P) (uckWriteStateFile atomic e state nr gen) fun _ H =>
      H = incMemory state gen + P := by
    refine Spec.blocking hquiet (by simp) ?_
    cases e.fileOpened with
    | false => exact Spec.pure rfl
    | true =>
      refine Spec.acquire _ ?_
      refine Spec.andThen (Spec.each fun h hh => ?_) fun _ => Spec.releaseLast (Spec.pure rfl)
      have hmem := mem_incMemory_of_mem_stateWrites (List.mem_of_mem_take hh)
      refine blocking_spec (quiet_cons.2 ⟨hl.eq_false rfl, hquiet⟩) ?_
      simp [hmem]
  refine hwrite.andThen fun ok => ?_
  cases ok with
  | true =>
    refine blocking_spec hquiet ?_
    cases state <;> simp
  | false => exact Spec.pure rfl

include hl hP hc in
/-- From the loop on: only a process whose checksum does not match stays. -/
theorem receiveProcess_spec (e : Incoming) (state : Bool) :
    Spec atomic (incMemory state 0 + P) (receiveProcess atomic e state) fun _ H =>
      H = (if e.crcOk then 0 else incMemory state (received 0 256 0 e.msgs).2) + P := by
  -- the loop only works on the array, which is brought to the front for it
  obtain ⟨G, hG, hquiet, hclient⟩ : ∃ G, (∀ gen, incMemory state gen + P = .incPages gen ::ₘ G) ∧ Quiet atomic G ∧
      .client ∈ G := by
    have hinc : Quiet atomic (.incoming ::ₘ P) := quiet_cons.2 ⟨hl.eq_false rfl, hP⟩
    cases state with
    | true =>
      refine ⟨.incState ::ₘ .incoming ::ₘ P, fun gen => ?_, quiet_cons.2 ⟨hl.eq_false rfl, hinc⟩, by simpa using hc⟩
      rw [incMemory_true_add, Multiset.cons_swap]
    | false => exact ⟨.incoming ::ₘ P, fun gen => incMemory_false_add gen, hinc, by simpa using hc⟩
  have hloop := receivePages_spec hl hquiet hclient 0 256 0 e.msgs
  rw [← hG] at hloop
  refine Spec.spin ?_
  refine hloop.bind fun r H hH => ?_
  obtain ⟨hr, rfl⟩ := hH
  rw [← hr, ← hG]
  have hinc : .incoming ∈ incMemory state r.2 + P := by cases state <;> simp
  refine Spec.use hinc ?_
  cases e.crcOk with
  | true =>
    refine (uckLaunchRestoredProcess_spec hl hP e state r.1 r.2).andThen fun _ => ?_
    refine Spec.spin ?_
    simpa using uckFreeIncoming_spec state r.2
  | false => exact spin_spec

theorem Incoming.left_of_not_checked {e : Incoming} (h : e.checked = false) : e.left = 0 := by
  simp [left, h]

theorem Incoming.left_of_checked {e : Incoming} (h : e.checked = true) :
    e.left = if e.crcOk then 0 else incMemory (0 < e.stateLen) (received 0 256 0 e.msgs).2 := by
  cases hcrc : e.crcOk with
  | true => simp [left, hcrc]
  | false => simp [left, h, hcrc]

include hl hP hc in
/-- `uck_handle_proc_state` with its memory: what comes after the header. -/
theorem receiveState_spec (e : Incoming) (hstart : e.inc = true ∧ e.pages = true ∧ e.tooSmall = false)
    (hhdr : e.hdrReceived = true) :
    Spec atomic (incMemory false 0 + P) (receiveState atomic e) fun _ H => H = e.left + P := by
  obtain ⟨hinc, hpages, hsmall⟩ := hstart
  unfold receiveState
  split
  · rename_i hlen
    have hquiet := quiet_incMemory hl hP false 0
    refine Spec.kmalloc hquiet (fun hstate => ?_) fun hstate => ?_
    · rw [incMemory_false_add, ← incMemory_true_add]
      refine Spec.blocking (quiet_incMemory hl hP true 0) (by simp [hc]) ?_
      cases hrec : e.stateReceived with
      | true =>
        have hleft : e.left = if e.crcOk then 0 else incMemory true (received 0 256 0 e.msgs).2 := by
          rw [Incoming.left_of_checked (by simp [Incoming.checked, *]), decide_eq_true hlen]
        rw [hleft]
        exact receiveProcess_spec hl hP hc e true
      | false =>
        rw [Incoming.left_of_not_checked (by simp [Incoming.checked, *, Nat.ne_of_gt hlen]), Multiset.zero_add]
        exact uckFreeIncoming_spec true 0
    · rw [Incoming.left_of_not_checked (by simp [Incoming.checked, *, Nat.ne_of_gt hlen]), Multiset.zero_add]
      exact uckFreeIncoming_spec false 0
  · rename_i hlen
    have hleft : e.left = if e.crcOk then 0 else incMemory false (received 0 256 0 e.msgs).2 := by
      rw [Incoming.left_of_checked (by simp [Incoming.checked, *, Nat.eq_zero_of_not_pos hlen]),
        decide_eq_false hlen]
    rw [hleft]
    exact receiveProcess_spec hl hP hc e false

include hl hP hc in
/-- **Everything is given up again, but for a process whose checksum does not match.** -/
theorem uckHandleProcState_spec (e : Incoming) :
    Spec atomic P (uckHandleProcState atomic e) fun _ H => H = e.left + P := by
  unfold uckHandleProcState
  refine Spec.kmalloc hP (fun hinc => ?_) fun hinc => Spec.pure (by simp [Incoming.left, Incoming.checked, hinc])
  refine Spec.kmalloc (quiet_cons.2 ⟨hl.eq_false rfl, hP⟩) (fun hpages => ?_) fun hpages => ?_
  · rw [← incMemory_false_add]
    cases hsmall : e.tooSmall with
    | true =>
      rw [Incoming.left_of_not_checked (by simp [Incoming.checked, hsmall]), Multiset.zero_add]
      exact uckFreeIncoming_spec false 0
    | false =>
      refine Spec.blocking (quiet_incMemory hl hP false 0) (by simp [hc]) ?_
      cases hhdr : e.hdrReceived with
      | true => exact receiveState_spec hl hP hc e ⟨hinc, hpages, hsmall⟩ hhdr
      | false =>
        rw [Incoming.left_of_not_checked (by simp [Incoming.checked, hhdr]), Multiset.zero_add]
        exact uckFreeIncoming_spec false 0
  · refine Spec.releaseLast (Spec.pure ?_)
    simp [Incoming.left, Incoming.checked, hpages]

end Spec

end UckSmp.Resources
