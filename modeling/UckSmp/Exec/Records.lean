import UckSmp.Exec.Outcome

/-!
# The records of the jobs

The cluster of `Exec.Jobs` with messages that may come at any time and with any content: an `EXEC_DONE` that is late,
that came before or that names any id, and an `EXEC_REQ` of any content. Every step writes at most one record, and no
writer looks at the state that it finds there.

* `record_step`: what a step writes.
* `records_forward_iff`: the runs in which records only move forward, and agree with their exit codes.
* `started_empty`, `started_late`: messages with which they do not.
-/

namespace UckSmp.Exec

open Lib Lib.Transition

/-! ## Messages from anywhere -/

inductive Arrival
  /-- A step of the cluster; an `EXEC_STARTED` comes from anywhere already there. -/
  | own (e : Event)
  | done (n : UInt32) (r : ExecResult)
  /-- An `EXEC_REQ`, as the request of a job that nothing is under way for. -/
  | request (n : UInt32) (k : Job) (wire : ExecWire) (run : Bool)
  deriving DecidableEq, Repr

def stepAny (s : Cluster) : Arrival → Option Cluster
  | .own e => step s e
  | .done n r => some (s.uckHandleExecDone n r)
  | .request n k wire run => if s.works k = none then some (s.uckHandleExecReq k n wire run) else none

/-! ## Writes -/

/-- What the writers do to a record. -/
inductive Update
  /-- The slot is given to a new job. -/
  | assign (jobId nodeId srcNode : UInt32) (command : List Byte)
  | place (dest : UInt32)
  | run (pid : Option UInt32)
  | settle (code : Int)
  deriving DecidableEq, Repr

def Update.apply : Update → JobInfo → JobInfo
  | .assign jobId nodeId srcNode command, _ =>
    { jobId, nodeId, srcNode, command, state := .pending, exitCode := -1 }
  | .place dest, j => { j with nodeId := dest }
  | .run pid, j => { j with state := .running, pid := pid.getD j.pid }
  | .settle code, j => { j with exitCode := code, state := .ofExit code }

def Update.isAssign : Update → Bool
  | .assign .. => true
  | _ => false

structure Written where
  node : UInt32
  slot : Nat
  update : Update
  deriving DecidableEq, Repr

namespace Cluster

variable (s : Cluster)

/-- The record in a slot. -/
def record (n : UInt32) (i : Nat) : Option JobInfo := (s.slot n i).map (·.info)

/-- A slot is given away, if there is a free one. -/
def assigned (n : UInt32) (u : Update) : Option Written :=
  (uckAllocJobSlot (s.nodes n).jobs).map fun i => ⟨n, i, u⟩

/-- The first record with the id of a message. -/
def found (n : UInt32) (r : ExecResult) (u : Update) : Option Written :=
  (slotOfId (s.nodes n).jobs r.jobId).map fun i => ⟨n, i, u⟩

/-- What a step writes. -/
def writes : Arrival → Option Written
  | .own (.submit n _ req) => s.assigned n (.assign (s.nodes n).nextJobId 0 n (strscpy 512 req.command))
  | .own (.place k localLoad peers) =>
    match s.works k with
    | some (.submitted n slot _ _ req) =>
      some ⟨n, slot, .place (if req.destNode = 0 then uckPickExecNode n localLoad peers else req.destNode)⟩
    | _ => none
  | .own (.dispatch k ret) =>
    match s.works k with
    | some (.placed n slot _ _ _ dest) => if dest ≠ n ∧ ret < 0 then some ⟨n, slot, .settle ret⟩ else none
    | _ => none
  | .own (.unstarted _) => none
  | .own (.deliver k _) =>
    match s.works k with
    | some (.request dest wire) => s.assigned dest (.assign wire.jobId dest wire.srcNode (strscpy 512 wire.command))
    | some (.result dest r) => s.found dest r (.settle r.exitCode)
    | _ => none
  | .own (.lose _) => none
  | .own (.begin k) =>
    match s.works k with
    | some (.thread n ctx false) => some ⟨n, ctx.slot, .run none⟩
    | _ => none
  | .own (.finish k ret) =>
    match s.works k with
    | some (.thread n ctx true) => some ⟨n, ctx.slot, .settle (exitCodeOf ret)⟩
    | _ => none
  | .own (.started n r) => s.found n r (.run (some r.pid))
  | .done n r => s.found n r (.settle r.exitCode)
  | .request n k wire _ =>
    if s.works k = none then s.assigned n (.assign wire.jobId n wire.srcNode (strscpy 512 wire.command)) else none

/-- The record in a slot after a write. -/
def recordAfter (w : Option Written) (n : UInt32) (i : Nat) : Option JobInfo :=
  match w with
  | none => s.record n i
  | some w => if n = w.node ∧ i = w.slot then (s.record n i).map w.update.apply else s.record n i

end Cluster

/-! ## Statement -/

/-- `PENDING`, `RUNNING`, then `DONE` or `FAILED`; states may be left out. -/
def JobState.Before (a b : JobState) : Prop :=
  a = b ∨ a = .pending ∧ b ≠ .empty ∨ a = .running ∧ (b = .done ∨ b = .failed)

instance (a b : JobState) : Decidable (a.Before b) := inferInstanceAs (Decidable (_ ∨ _))

/-- The step gives the slot to a new job. -/
def Assigns (s : Cluster) (e : Arrival) (n : UInt32) (i : Nat) : Prop :=
  ∃ u : Update, s.writes e = some ⟨n, i, u⟩ ∧ u.isAssign = true

/-- A record that is not given to a new job moves forward, or stays where it is. -/
def MovesForward (s : Cluster) (e : Arrival) : Prop :=
  ∀ t, stepAny s e = some t → ∀ n i a b, s.record n i = some a → t.record n i = some b →
    Assigns s e n i ∨ a.state.Before b.state

/-- The state of a record and its exit code. -/
structure JobInfo.Agrees (j : JobInfo) : Prop where
  unfinished : j.state = .pending ∨ j.state = .running → j.exitCode = -1
  done : j.state = .done → j.exitCode = 0
  failed : j.state = .failed → j.exitCode ≠ 0

def RecordsAgree (s : Cluster) : Prop := ∀ n i j, s.record n i = some j → j.Agrees

/-- A writer finds a record that it is meant for: one that shows no outcome, or the outcome that it writes. -/
def Update.Fits : Update → JobState → Prop
  | .assign .., _ => True
  | .place _, _ => True
  | .run _, st => st = .pending ∨ st = .running
  | .settle code, st => st = .pending ∨ st = .running ∨ st = .ofExit code

def InTime (s : Cluster) (e : Arrival) : Prop :=
  ∀ w, s.writes e = some w → ∀ a, s.record w.node w.slot = some a → w.update.Fits a.state

/-! ## What a step writes -/

variable {s t : Cluster}

theorem record_write {n : UInt32} {i : Nat} {f : Entry → Entry} {u : Update}
    (hf : ∀ e, (f e).info = u.apply e.info) (m : UInt32) (j : Nat) :
    (s.write n i f).record m j = s.recordAfter (some ⟨n, i, u⟩) m j := by
  unfold Cluster.record Cluster.recordAfter Cluster.record
  rw [slot_write]
  dsimp only
  split
  · rw [Option.map_map, Option.map_map]
    exact congrArg (fun g => (s.slot m j).map g) (funext hf)
  · rfl

theorem record_submit (n : UInt32) (cred : Cred) (req : ExecReq) (m : UInt32) (j : Nat) :
    (s.submit n cred req).record m j =
      s.recordAfter (s.assigned n (.assign (s.nodes n).nextJobId 0 n (strscpy 512 req.command))) m j := by
  unfold Cluster.submit Cluster.assigned
  cases uckAllocJobSlot (s.nodes n).jobs with
  | none => rfl
  | some i =>
    refine (record_write (u := .assign (s.nodes n).nextJobId 0 n (strscpy 512 req.command)) (fun _ => rfl) m j).trans ?_
    have hcount := slot_nextJobId s n ((s.nodes n).nextJobId + 1) (s.serial + 1) m j
    simp only [Cluster.recordAfter, Cluster.record, Option.map_some, hcount]

theorem record_request (n : UInt32) (k : Job) (wire : ExecWire) (run : Bool) (m : UInt32) (j : Nat) :
    (s.uckHandleExecReq k n wire run).record m j =
      s.recordAfter (s.assigned n (.assign wire.jobId n wire.srcNode (strscpy 512 wire.command))) m j := by
  unfold Cluster.uckHandleExecReq Cluster.assigned
  cases uckAllocJobSlot (s.nodes n).jobs with
  | none => rfl
  | some i => exact record_write (u := .assign wire.jobId n wire.srcNode _) (fun _ => rfl) m j

theorem record_done (n : UInt32) (r : ExecResult) (m : UInt32) (j : Nat) :
    (s.uckHandleExecDone n r).record m j = s.recordAfter (s.found n r (.settle r.exitCode)) m j := by
  unfold Cluster.uckHandleExecDone Cluster.found
  cases slotOfId (s.nodes n).jobs r.jobId with
  | none => rfl
  | some i => exact record_write (u := .settle r.exitCode) (fun _ => rfl) m j

theorem record_started (n : UInt32) (r : ExecResult) (m : UInt32) (j : Nat) :
    (s.uckHandleExecStarted n r).record m j = s.recordAfter (s.found n r (.run (some r.pid))) m j := by
  unfold Cluster.uckHandleExecStarted Cluster.found
  cases slotOfId (s.nodes n).jobs r.jobId with
  | none => rfl
  | some i => exact record_write (u := .run (some r.pid)) (fun _ => rfl) m j

theorem record_dispatch (k : Job) (n : UInt32) (slot : Nat) (id : UInt32) (cred : Cred) (req : ExecReq) (dest : UInt32)
    (ret : Int) (m : UInt32) (j : Nat) : (s.dispatch k n slot id cred req dest ret).record m j =
      s.recordAfter (if dest ≠ n ∧ ret < 0 then some ⟨n, slot, .settle ret⟩ else none) m j := by
  unfold Cluster.dispatch
  by_cases hdest : dest = n
  · have hno : ¬ (dest ≠ n ∧ ret < 0) := fun h => h.1 hdest
    rw [if_pos hdest, if_neg hno]
    split <;> rfl
  · rw [if_neg hdest]
    by_cases hret : ret < 0
    · have hfailed : JobState.ofExit ret = .failed := if_neg (Int.ne_of_lt hret)
      rw [if_pos hret, if_pos ⟨hdest, hret⟩]
      refine record_write (u := .settle ret) (fun e => ?_) m j
      rw [Update.apply, hfailed]
    · rw [if_neg hret, if_neg fun h => hret h.2]
      rfl

/-- **A step writes** at most one record. -/
theorem record_step {e : Arrival} (h : stepAny s e = some t) (m : UInt32) (j : Nat) :
    t.record m j = s.recordAfter (s.writes e) m j := by
  cases e with
  | own e =>
    cases Step.of_step h with
    | submit n cred req => exact record_submit n cred req m j
    | place hw localLoad peers =>
      simp only [Cluster.writes, hw]
      exact record_write (u := .place _) (fun _ => rfl) m j
    | dispatch hw ret =>
      simp only [Cluster.writes, hw]
      exact record_dispatch ..
    | unstarted hw => rfl
    | request hw run =>
      simp only [Cluster.writes, hw]
      exact record_request ..
    | result hw run =>
      simp only [Cluster.writes, hw]
      exact record_done ..
    | lose hw => rfl
    | begin hw =>
      simp only [Cluster.writes, hw]
      exact record_write (u := .run none) (fun _ => rfl) m j
    | finish hw ret =>
      simp only [Cluster.writes, hw]
      exact record_write (u := .settle (exitCodeOf ret)) (fun _ => rfl) m j
    | started n r => exact record_started n r m j
  | done n r =>
    cases h
    exact record_done n r m j
  | request n k wire run =>
    rw [stepAny, Option.ite_none_right_eq_some] at h
    obtain ⟨hfresh, ht⟩ := h
    cases ht
    simp only [Cluster.writes, if_pos hfresh]
    exact record_request n k wire run m j

/-- A record after a step is the one before, or that one with what the step writes. -/
theorem record_cases {e : Arrival} (ht : stepAny s e = some t) {n : UInt32} {i : Nat} {b : JobInfo}
    (hb : t.record n i = some b) :
    s.record n i = some b ∨ ∃ u a, s.writes e = some ⟨n, i, u⟩ ∧ s.record n i = some a ∧ b = u.apply a := by
  rw [record_step ht] at hb
  unfold Cluster.recordAfter at hb
  split at hb
  next => exact .inl hb
  next w hw =>
    split at hb
    next hslot =>
      obtain ⟨rfl, rfl⟩ := hslot
      obtain ⟨a, ha, hab⟩ := Option.map_eq_some_iff.1 hb
      exact .inr ⟨w.update, a, hw, ha, hab.symm⟩
    next => exact .inl hb

/-- What is written is written by a step. -/
theorem isSome_of_writes {e : Arrival} {w : Written} (h : s.writes e = some w) : (stepAny s e).isSome = true := by
  cases e with
  | own e =>
    cases e with
    | submit n cred req => rfl
    | place k localLoad peers =>
      simp only [Cluster.writes] at h
      split at h
      next hw => simp only [stepAny, step, hw, Option.isSome_some]
      next => cases h
    | dispatch k ret =>
      simp only [Cluster.writes] at h
      split at h
      next hw => simp only [stepAny, step, hw, Option.isSome_some]
      next => cases h
    | unstarted k => cases h
    | deliver k run =>
      simp only [Cluster.writes] at h
      split at h
      next hw => simp only [stepAny, step, hw, Option.isSome_some]
      next hw => simp only [stepAny, step, hw, Option.isSome_some]
      next => cases h
    | lose k => cases h
    | begin k =>
      simp only [Cluster.writes] at h
      split at h
      next hw => simp only [stepAny, step, hw, Option.isSome_some]
      next => cases h
    | finish k ret =>
      simp only [Cluster.writes] at h
      split at h
      next hw => simp only [stepAny, step, hw, Option.isSome_some]
      next => cases h
    | started n r => rfl
  | done n r => rfl
  | request n k wire run =>
    rw [Cluster.writes, Option.ite_none_right_eq_some] at h
    rw [stepAny, if_pos h.1]
    rfl

/-! ## Forward -/

theorem ofExit_cases (code : Int) :
    code = 0 ∧ JobState.ofExit code = .done ∨ code ≠ 0 ∧ JobState.ofExit code = .failed := by
  by_cases h : code = 0
  · exact .inl ⟨h, if_pos h⟩
  · exact .inr ⟨h, if_neg h⟩

theorem Update.fits_of_isAssign {u : Update} (hu : u.isAssign = true) (st : JobState) : u.Fits st := by
  cases u with
  | assign jobId nodeId srcNode command => trivial
  | place dest => cases hu
  | run pid => cases hu
  | settle code => cases hu

/-- What a writer does to a record that it is meant for, and to any other. -/
theorem Update.fits_iff {u : Update} (hu : u.isAssign = false) (j : JobInfo) :
    j.state.Before (u.apply j).state ↔ u.Fits j.state := by
  cases u with
  | assign jobId nodeId srcNode command => cases hu
  | place dest => exact ⟨fun _ => trivial, fun _ => .inl rfl⟩
  | run pid =>
    show JobState.Before j.state .running ↔ j.state = .pending ∨ j.state = .running
    cases j.state <;> decide
  | settle code =>
    show JobState.Before j.state (.ofExit code) ↔ j.state = .pending ∨ j.state = .running ∨ j.state = .ofExit code
    obtain ⟨-, h⟩ | ⟨-, h⟩ := ofExit_cases code <;> rw [h] <;> cases j.state <;> decide

/-- The record after a write that it was meant for agrees with its exit code. -/
theorem JobInfo.Agrees.apply {j : JobInfo} (h : j.Agrees) {u : Update} (hu : u.Fits j.state) : (u.apply j).Agrees := by
  cases u with
  | assign jobId nodeId srcNode command => exact ⟨fun _ => rfl, JobState.noConfusion, JobState.noConfusion⟩
  | place dest => exact ⟨h.unfinished, h.done, h.failed⟩
  | run pid => exact ⟨fun _ => h.unfinished hu, JobState.noConfusion, JobState.noConfusion⟩
  | settle code =>
    show JobInfo.Agrees { j with exitCode := code, state := .ofExit code }
    obtain ⟨hzero, hdone⟩ | ⟨hzero, hfailed⟩ := ofExit_cases code
    · rw [hdone]
      exact ⟨fun hp => hp.elim JobState.noConfusion JobState.noConfusion, fun _ => hzero, JobState.noConfusion⟩
    · rw [hfailed]
      exact ⟨fun hp => hp.elim JobState.noConfusion JobState.noConfusion, JobState.noConfusion, fun _ => hzero⟩

/-- A step moves the records forward exactly if its write finds a record that it is meant for. -/
theorem movesForward_iff {e : Arrival} : MovesForward s e ↔ InTime s e := by
  constructor
  · intro h w hw a ha
    obtain ⟨t, ht⟩ := Option.isSome_iff_exists.1 (isSome_of_writes hw)
    cases hu : w.update.isAssign with
    | true => exact Update.fits_of_isAssign hu _
    | false =>
      have hb : t.record w.node w.slot = some (w.update.apply a) := by
        rw [record_step ht, hw, Cluster.recordAfter, if_pos ⟨rfl, rfl⟩, ha]
        rfl
      obtain ⟨u, hassign, htrue⟩ | hbefore := h t ht w.node w.slot a _ ha hb
      · have hupdate : w.update = u := congrArg Written.update (Option.some.inj (hw.symm.trans hassign))
        exact absurd (hupdate ▸ htrue) (Bool.eq_false_iff.1 hu)
      · exact (Update.fits_iff hu a).1 hbefore
  · intro h t ht n i a b ha hb
    obtain hsame | ⟨u, a', hw, ha', rfl⟩ := record_cases ht hb
    · rw [ha] at hsame
      cases hsame
      exact .inr (.inl rfl)
    · rw [ha] at ha'
      cases ha'
      cases hu : u.isAssign with
      | true => exact .inl ⟨u, hw, hu⟩
      | false => exact .inr ((Update.fits_iff hu a).2 (h _ hw a ha))

theorem RecordsAgree.step {e : Arrival} (h : RecordsAgree s) (hg : InTime s e) (ht : stepAny s e = some t) :
    RecordsAgree t := by
  intro n i b hb
  obtain hsame | ⟨u, a, hw, ha, rfl⟩ := record_cases ht hb
  · exact h n i b hsame
  · exact (h n i a ha).apply (hg _ hw a ha)

theorem RecordsAgree.init : RecordsAgree init := by
  intro n i j h
  obtain ⟨e, he, rfl⟩ := Option.map_eq_some_iff.1 h
  rw [Cluster.slot, Exec.init, uckExecInit, List.getElem?_replicate] at he
  split at he
  · cases he
    exact ⟨by decide, by decide, by decide⟩
  · cases he

/-- **A record moves only forward**, and agrees with its exit code, in the runs whose writers find the records that they
are meant for. -/
theorem records_forward_iff (es : List Arrival) :
    EachStep stepAny MovesForward init es ∧ Always stepAny RecordsAgree init es ↔ EachStep stepAny InTime init es := by
  have hforward : MovesForward = InTime := by
    funext s e
    exact propext movesForward_iff
  rw [hforward]
  refine ⟨fun h => h.1, fun h => ⟨h, ?_⟩⟩
  exact .of_eachStep RecordsAgree (fun s e t hs hg ht => hs.step hg ht) (fun s hs => hs) .init h

/-- A step that makes a record go back, or an empty slot `RUNNING`. -/
theorem not_movesForward_of_running {e : Arrival} {n : UInt32} {i : Nat} {pid : Option UInt32} {a : JobInfo}
    (hw : s.writes e = some ⟨n, i, .run pid⟩) (ha : s.record n i = some a)
    (hst : a.state ≠ .pending ∧ a.state ≠ .running) : ¬ MovesForward s e := by
  intro h
  exact (movesForward_iff.1 h _ hw a ha).elim hst.1 hst.2

/-- An `EXEC_STARTED` with id 0 finds the first empty slot. -/
theorem started_empty : ¬ MovesForward init (.own (.started 1 { jobId := 0 })) :=
  not_movesForward_of_running
    (by decide +kernel : init.writes (.own (.started 1 { jobId := 0 })) = some ⟨1, 0, .run (some 0)⟩)
    (by decide +kernel : init.record 1 0 = some {}) (by decide)

/-- A job of node 1 that node 2 has run: the `EXEC_STARTED` comes behind the `EXEC_DONE`. -/
def startedLate : List Arrival :=
  [.own (.submit 1 ⟨0, 0⟩ ⟨2, []⟩), .done 1 { jobId := 1, exitCode := 0 }, .own (.started 1 { jobId := 1 })]

/-- Its record is `RUNNING` again, with an exit code of 0. -/
theorem started_late : (∃ t, run stepAny init startedLate = some t ∧
      t.record 1 0 = some { jobId := 1, srcNode := 1, state := .running, exitCode := 0 }) ∧
    ¬ (EachStep stepAny MovesForward init startedLate ∧ Always stepAny RecordsAgree init startedLate) := by
  have hrun : (run stepAny init startedLate).bind (·.record 1 0) =
      some { jobId := 1, srcNode := 1, state := .running, exitCode := 0 } := by decide +kernel
  obtain ⟨t, ht, hrecord⟩ := Option.bind_eq_some_iff.1 hrun
  refine ⟨⟨t, ht, hrecord⟩, fun h => ?_⟩
  have hcode : (0 : Int) = -1 := (h.2.last ht 1 0 _ hrecord).unfinished (.inr rfl)
  cases hcode

end UckSmp.Exec
