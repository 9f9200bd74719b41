import UckSmp.Exec.Orphans

/-!
# Waiting for a job

`uck_run wait` asks for the record of a job twice a second until the record shows an outcome. While something is under
way for the job, that may still come. When nothing is, because the job has run, or a message was lost, or there was no
thread or no slot for it, the answer is there or never comes. All that can end the waiting then is that the module turns
away the question, which the limit on calls or a lack of memory makes it do.

* `step_own`: every step is that of one job for which something is under way, or of a new one.
* `Stranded.step`: a job that nothing is under way for keeps its entry.
* `wait_now_or_never`: what follows for the one who waits, and for the table.
-/

namespace UckSmp.Exec

open Lib Lib.Transition

/-! ## Code -/

/-- One round of the loop of `cmd_wait` on node `n`: what it returns, or `none` when it goes on. `granted` says whether
the `ioctl` succeeds: whether the call is within the limit of `uck_ioctl`, and there is memory for the query. -/
def cmdWaitRound (n jobId : UInt32) (granted : Bool) (s : Cluster) : Option Int :=
  if !granted then some 1
  else
    match uckQueryJobs ((s.nodes n).jobs.map (·.info)) jobId with
    | [] => some 1
    | job :: _ =>
      if job.state = .done then some job.exitCode
      else if job.state = .failed then some job.exitCode
      else none

/-! ## Statement -/

/-- Nothing is under way for the job, and its entry in slot `i` is pending or running. -/
def Stranded (k : Job) (i : Nat) (s : Cluster) : Prop := s.works k = none ∧ Busy s k.node i k

/-- The loop goes on unless the call is turned away, and the slot is not given away. -/
def Unanswered (k : Job) (i : Nat) (s : Cluster) : Prop :=
  (∀ granted, cmdWaitRound k.node k.id granted s = if granted then none else some 1) ∧
    uckAllocJobSlot (s.nodes k.node).jobs ≠ some i

/-! ## Steps of other jobs -/

section Steps

variable {s t : Cluster} {k : Job} {n : UInt32} {i : Nat}

theorem place_own (hi : Inv s) {slot : Nat} {id : UInt32} {cred : Cred} {req : ExecReq}
    (hw : s.works k = some (.submitted n slot id cred req)) (localLoad : UInt32) (peers : List Peer) :
    Own k s (s.place k n slot id cred req localLoad peers) := by
  obtain ⟨-, -, -, e, he, -⟩ := hi.carried hw
  unfold Cluster.place
  refine (Own.write_own he ?_).trans (.advance _ k _ _)
  exact fun _ => rfl

theorem dispatch_own (hi : Inv s) {slot : Nat} {id : UInt32} {cred : Cred} {req : ExecReq} {dest : UInt32}
    (hw : s.works k = some (.placed n slot id cred req dest)) (ret : Int) :
    Own k s (s.dispatch k n slot id cred req dest ret) := by
  obtain ⟨-, -, -, e, he, -⟩ := hi.carried hw
  unfold Cluster.dispatch
  split
  · split
    · exact .advance s k _ _
    · exact .advance s k _ _
  · split
    · have he' : HasEntry (s.advance k none .undispatched) n slot k e := he
      exact (Own.advance s k _ _).trans (.write_own he' fun _ => rfl)
    · exact .advance s k _ _

theorem request_own (s : Cluster) (k : Job) (n : UInt32) (wire : ExecWire) (run : Bool) :
    Own k s (s.uckHandleExecReq k n wire run) := by
  unfold Cluster.uckHandleExecReq
  cases ha : uckAllocJobSlot (s.nodes n).jobs with
  | none => exact .advance s k _ _
  | some i =>
    obtain ⟨e₁, he₁, hfree⟩ := alloc_free ha
    exact (Own.write_free ⟨foreignEntry n wire, some k⟩ he₁ hfree rfl).trans (.advance _ k _ _)

/-- A step is that of a job that something is under way for or that is new, or the handling of an `EXEC_STARTED`. -/
theorem step_own {ev : Event} (hi : Inv s) (hs : step s ev = some t) :
    (∃ k, (s.works k ≠ none ∨ s.serial ≤ k.serial) ∧ Own k s t) ∨ (∃ n r, t = s.uckHandleExecStarted n r) := by
  have hunder : ∀ {k st}, s.works k = some st → s.works k ≠ none := fun hw => by simp [hw]
  cases Step.of_step hs with
  | submit n cred req =>
    refine .inl ⟨⟨n, (s.nodes n).nextJobId, s.serial⟩, .inr (Nat.le_refl _), ?_⟩
    cases ha : uckAllocJobSlot (s.nodes n).jobs with
    | none =>
      rw [Cluster.submit, ha]
      exact .count _ (fun _ _ => rfl) rfl
    | some i => exact (submit_effect hi ha).own
  | place hw localLoad peers => exact .inl ⟨_, .inl (hunder hw), place_own hi hw localLoad peers⟩
  | dispatch hw ret => exact .inl ⟨_, .inl (hunder hw), dispatch_own hi hw ret⟩
  | unstarted hw => exact .inl ⟨_, .inl (hunder hw), .advance s _ _ _⟩
  | request hw run => exact .inl ⟨_, .inl (hunder hw), request_own s _ _ _ run⟩
  | result hw run => exact .inl ⟨_, .inl (hunder hw), (result_effect hi hw run).own⟩
  | lose hw => exact .inl ⟨_, .inl (hunder hw), .advance s _ _ _⟩
  | begin hw => exact .inl ⟨_, .inl (hunder hw), (begin_effect hi hw).own⟩
  | finish hw ret => exact .inl ⟨_, .inl (hunder hw), (finish_effect hi hw ret).own⟩
  | started n r => exact .inr ⟨n, r, rfl⟩

/-- An `EXEC_STARTED` leaves an entry that is pending or running in one of these states. -/
theorem Busy.started (hb : Busy s n i k) (m : UInt32) (r : ExecResult) : Busy (s.uckHandleExecStarted m r) n i k := by
  unfold Cluster.uckHandleExecStarted
  split
  · exact hb
  next j hj =>
    by_cases hsame : n = m ∧ i = j
    · obtain ⟨rfl, rfl⟩ := hsame
      exact hb.write_self (fun _ => rfl) fun _ _ => running_taken
    · obtain ⟨e, he, hfree⟩ := hb
      exact ⟨e, he.write_other (by tauto), hfree⟩

/-- **A stranded job stays so**: no step is its own any more. -/
theorem Stranded.step {ev : Event} (h : Stranded k i s) (hi : Inv s) (hs : step s ev = some t) : Stranded k i t := by
  obtain ⟨hw, hb⟩ := h
  rcases step_own hi hs with ⟨k', hk', hown⟩ | ⟨m, r, rfl⟩
  · have hne : k ≠ k' := by
      rintro rfl
      obtain ⟨e, he, -⟩ := hb
      have hold := (hi.tagged he).2
      rcases hk' with hk' | hk'
      · exact hk' hw
      · omega
    exact ⟨(hown.works hne).trans hw, hown.busy hne hb⟩
  · refine ⟨?_, hb.started m r⟩
    unfold Cluster.uckHandleExecStarted
    split <;> exact hw

/-- Its record shows no outcome. -/
theorem Stranded.unanswered (h : Stranded k i s) (hi : Inv s) : Unanswered k i s := by
  obtain ⟨-, e, he, hbusy⟩ := h
  constructor
  · have hempty : e.info.state ≠ .empty := fun h => hbusy (.inl h)
    have hdone : e.info.state ≠ .done := fun h => hbusy (.inr (.inl h))
    have hfailed : e.info.state ≠ .failed := fun h => hbusy (.inr (.inr h))
    intro granted
    rw [cmdWaitRound, hi.query_own he hempty]
    cases granted with
    | true => simp [hdone, hfailed]
    | false => rfl
  · intro ha
    obtain ⟨e', he', hfree⟩ := alloc_free ha
    obtain rfl := Option.some.inj (he.1.symm.trans he')
    exact hbusy hfree

end Steps

/-! ## Entries of jobs are never empty -/

/-- An entry that was made for a job shows a state. -/
def Marked (s : Cluster) : Prop := ∀ n i k e, HasEntry s n i k e → e.info.state ≠ .empty

section Marked

variable {s t : Cluster} {n : UInt32} {i : Nat}

theorem Marked.write (h : Marked s) {f : Entry → Entry}
    (hf : ∀ e k, (f e).job = some k → (f e).info.state ≠ .empty ∨ (e.job = some k ∧ (f e).info.state = e.info.state)) :
    Marked (s.write n i f) := by
  intro m j k e he
  rcases he.of_write with ⟨-, he⟩ | ⟨-, -, e₀, he₀, rfl, hjob⟩
  · exact h m j k e he
  · rcases hf e₀ k hjob with hstate | ⟨hjob₀, hstate⟩
    · exact hstate
    · rw [hstate]
      exact h n i k e₀ ⟨he₀, hjob₀⟩

theorem ofExit_ne_empty (code : Int) : JobState.ofExit code ≠ .empty := by
  unfold JobState.ofExit
  split <;> simp

theorem Marked.step {ev : Event} (h : Marked s) (hs : step s ev = some t) : Marked t := by
  cases Step.of_step hs with
  | submit n cred req =>
    unfold Cluster.submit
    cases ha : uckAllocJobSlot (s.nodes n).jobs with
    | none => exact h
    | some i =>
      have hslot := slot_nextJobId s n ((s.nodes n).nextJobId + 1) (s.serial + 1)
      have hcount : Marked { s with
          serial := s.serial + 1
          nodes := Function.update s.nodes n { s.nodes n with nextJobId := (s.nodes n).nextJobId + 1 } } :=
        fun m j k e he => h m j k e ⟨hslot m j ▸ he.1, he.2⟩
      exact hcount.write fun _ _ _ => .inl (by simp [ownEntry])
  | place hw localLoad peers => exact Marked.write h fun e k hk => .inr ⟨hk, rfl⟩
  | dispatch hw ret =>
    unfold Cluster.dispatch
    split
    · split <;> exact h
    · split
      · exact Marked.write (s := s.advance _ none .undispatched) h fun _ _ _ => .inl (by simp)
      · exact h
  | unstarted hw => exact h
  | request hw run =>
    unfold Cluster.uckHandleExecReq
    split
    · exact h
    · exact Marked.write h fun _ _ _ => .inl (by simp [foreignEntry])
  | result hw run =>
    unfold Cluster.uckHandleExecDone
    split
    · exact h
    · exact Marked.write (s := s.advance _ none _) h fun _ _ _ => .inl (ofExit_ne_empty _)
  | lose hw => exact h
  | begin hw => exact Marked.write h fun _ _ _ => .inl (by simp)
  | finish hw ret => exact Marked.write (s := s.advance _ _ _) h fun _ _ _ => .inl (ofExit_ne_empty _)
  | started n r =>
    unfold Cluster.uckHandleExecStarted
    split
    · exact h
    · exact Marked.write h fun _ _ _ => .inl (by simp)

end Marked

/-! ## Runs -/

/-- What every run keeps. -/
structure Reached (s : Cluster) : Prop where
  inv : Inv s
  marked : Marked s

theorem Reached.step {s t : Cluster} {ev : Event} (h : Reached s) (ha : Apart s ev) (hs : step s ev = some t) :
    Reached t :=
  ⟨step_inv h.inv ha hs, h.marked.step hs⟩

theorem init_reached : Reached init := ⟨init_inv, fun _ _ _ _ he => (not_hasEntry_fresh rfl he).elim⟩

/-- In every continuation, the loop goes on and the slot stays taken. -/
theorem always_unanswered {s : Cluster} {k : Job} {i : Nat} (h : Stranded k i s) (hs : Reached s) {fs : List Event}
    (hfs : EachStep step Apart s fs) : Always step (Unanswered k i) s fs :=
  Always.of_eachStep (fun s => Reached s ∧ Stranded k i s)
    (fun _ _ _ hi ha hs => ⟨hi.1.step ha hs, hi.2.step hi.1.inv hs⟩) (fun _ hi => hi.2.unanswered hi.1.inv) ⟨hs, h⟩ hfs

/-- **Now or never.** When nothing is under way any more for a job whose entry is still there, `uck_run wait` returns at
its next call, and what it returns is the outcome of the job if the job was dispatched and the call is not turned away;
or in no state of any continuation it returns from a call that is not turned away, and the slot of the entry is never
given away again. -/
theorem wait_now_or_never {es : List Event} (hes : EachStep step Apart init es) {s : Cluster}
    (hr : run step init es = some s) {k : Job} {i : Nat} {e : Entry} (he : HasEntry s k.node i k e)
    (hw : s.works k = none) :
    (∃ code, (∀ granted, cmdWaitRound k.node k.id granted s = some (if granted then code else 1)) ∧
        (s.fate k ≠ .undispatched → s.fate k = .produced code)) ∨
      ∀ fs, EachStep step Apart s fs → Always step (Unanswered k i) s fs := by
  have hreached : Reached s :=
    (Always.of_eachStep Reached (fun _ _ _ h ha hs => h.step ha hs) (fun _ h => h) init_reached hes).last hr
  by_cases hfree : e.info.state.Free
  · left
    have hempty := hreached.marked _ _ _ _ he
    have hfinished : e.info.state.Finished := hfree.resolve_left hempty
    refine ⟨e.info.exitCode, fun granted => ?_, fun hd => hreached.inv.outcome he hfinished hd⟩
    rw [cmdWaitRound, hreached.inv.query_own he hempty]
    cases granted with
    | true => rcases hfinished with hstate | hstate <;> simp [hstate]
    | false => rfl
  · right
    intro fs hfs
    exact always_unanswered ⟨hw, e, he, hfree⟩ hreached hfs

theorem failedLocalJob_apart : EachStep step Apart init failedLocalJob := by
  refine .cons rfl ?_ (.cons rfl trivial (.cons rfl trivial trivial))
  intro i hi
  cases hi
  exact ⟨by decide, fun j _ hj _ => absurd hj (Nat.not_lt_zero j), fun _ _ _ _ h _ => (not_hasEntry_fresh rfl h).elim⟩

/-- Whoever waits for the job whose context could not be allocated waits until a call is turned away. -/
theorem failedLocalJob_unanswered : ∃ s e, run step init failedLocalJob = some s ∧ HasEntry s 1 0 ⟨1, 1, 0⟩ e ∧
    s.works ⟨1, 1, 0⟩ = none ∧ ∀ fs, EachStep step Apart s fs → Always step (Unanswered ⟨1, 1, 0⟩ 0) s fs := by
  refine ⟨_, _, rfl, ⟨rfl, rfl⟩, rfl, ?_⟩
  rcases wait_now_or_never failedLocalJob_apart rfl (k := ⟨1, 1, 0⟩) (i := 0) ⟨rfl, rfl⟩ rfl with ⟨code, hcode, -⟩ | h
  · cases hcode true
  · exact h

end UckSmp.Exec
