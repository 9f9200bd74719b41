import UckSmp.Exec.Outcome

/-!
# Orphaned jobs

An entry that is pending or running is not given away, so that it has to be waited for: by a submission that is still on
its way, a request, a thread or a result, or by an entry on another node. `uck_submit_remote_exec` gives up without
touching the entry where it cannot allocate the context of a local job; `uck_exec_local` does not look whether its
thread was started, and `uck_handle_exec_req` drops a request for which it has no slot.

* `Own`: a step of one job leaves the others alone; `step_own`: every step is one job's.
* `no_orphans_iff`: between reliable connections and with ids that do not meet, no job is orphaned exactly while local
  jobs get their thread and requests find a slot.
-/

namespace UckSmp.Exec

open Lib.Transition

/-! ## Statement -/

/-- Something is under way for the job, or it has a pending or running entry on another node. -/
def Awaited (s : Cluster) (k : Job) : Prop := s.works k ≠ none ∨ ∃ n i, n ≠ k.node ∧ Busy s n i k

/-- A pending or running entry of a job on its own node is waited for. -/
def NoOrphanOf (s : Cluster) (k : Job) : Prop := ∀ i, Busy s k.node i k → Awaited s k

def NoOrphan (s : Cluster) : Prop := ∀ k, NoOrphanOf s k

/-- A submission that returns an error leaves no pending or running entry behind. -/
def ErrorClears (s : Cluster) (e : Event) : Prop :=
  ∀ k ret t, e = .dispatch k ret → ret < 0 → step s e = some t → ∀ i, ¬ Busy t k.node i k

/-- No message is lost, and only those messages arrive that were sent. -/
def Reliable : Event → Prop
  | .lose _ => False
  | .started _ _ => False
  | _ => True

/-- A job that stays on its node gets its context and its thread, and a request finds a free slot. -/
def Served (s : Cluster) : Event → Prop
  | .dispatch k ret => ∀ n slot id cred req, s.works k = some (.placed n slot id cred req n) → 0 ≤ ret
  | .unstarted k => ∀ n slot id cred req, s.works k ≠ some (.placed n slot id cred req n)
  | .deliver k _ => ∀ dest wire, s.works k = some (.request dest wire) → uckAllocJobSlot (s.nodes dest).jobs ≠ none
  | _ => True

/-! ## Steps of one job -/

variable {s t u : Cluster} {k k' : Job} {n m : UInt32} {i j : Nat} {e : Entry}

/-- A write elsewhere leaves an entry that is not given away. -/
theorem Busy.write_other {f : Entry → Entry} (h : Busy s m j k) (hne : ∀ e, s.slot n i = some e → e.job = some k →
    e.info.state.Free) : Busy (s.write n i f) m j k := by
  obtain ⟨e, he, hb⟩ := h
  refine ⟨e, he.write_other ?_, hb⟩
  by_contra hcon
  obtain ⟨rfl, rfl⟩ : m = n ∧ j = i := by tauto
  exact hb (hne e he.1 he.2)

/-- What is under way for other jobs, and their entries, stay as they are. -/
structure Own (k : Job) (s t : Cluster) : Prop where
  works : ∀ {k'}, k' ≠ k → t.works k' = s.works k'
  old : ∀ {k' n i e}, k' ≠ k → HasEntry t n i k' e → HasEntry s n i k' e
  busy : ∀ {k' n i}, k' ≠ k → Busy s n i k' → Busy t n i k'

namespace Own

theorem trans (h : Own k s t) (h' : Own k t u) : Own k s u where
  works hk := (h'.works hk).trans (h.works hk)
  old hk he := h.old hk (h'.old hk he)
  busy hk hb := h'.busy hk (h.busy hk hb)

theorem advance (s : Cluster) (k : Job) (st : Option Stage) (φ : Fate) : Own k s (s.advance k st φ) :=
  ⟨fun hk => s.works_advance_of_ne st φ hk, fun _ h => h, fun _ h => h⟩

/-- Only the counters moved. -/
theorem count (k : Job) (hslot : ∀ n i, t.slot n i = s.slot n i) (hw : t.works = s.works) : Own k s t where
  works _ := by rw [hw]
  old _ h := ⟨hslot _ _ ▸ h.1, h.2⟩
  busy _ h := by
    obtain ⟨e, he, hb⟩ := h
    exact ⟨e, ⟨(hslot _ _).trans he.1, he.2⟩, hb⟩

/-- An entry of the job is written. -/
theorem write_own (h : HasEntry s n i k e) {f : Entry → Entry} (hf : ∀ e, (f e).job = e.job) :
    Own k s (s.write n i f) where
  works _ := rfl
  old hk ht := by
    rcases ht.of_write with ⟨-, ht⟩ | ⟨rfl, rfl, e₀, h₀, rfl, hjob⟩
    · exact ht
    · obtain rfl := Option.some.inj (h.1.symm.trans h₀)
      exact absurd (Option.some.inj (hjob.symm.trans ((hf e).trans h.2))) hk
  busy hk hb := hb.write_other fun e' he' hjob => by
    obtain rfl := Option.some.inj (h.1.symm.trans he')
    exact absurd (Option.some.inj (hjob.symm.trans h.2)) hk

/-- The job gets a new entry in a free slot. -/
theorem write_free (x : Entry) {e₁ : Entry} (hslot : s.slot n i = some e₁) (hfree : e₁.info.state.Free)
    (hjob : x.job = some k) : Own k s (s.write n i fun _ => x) where
  works _ := rfl
  old hk ht := by
    rcases ht.of_write with ⟨-, ht⟩ | ⟨-, -, e₂, -, rfl, hk'⟩
    · exact ht
    · exact absurd (Option.some.inj (hk'.symm.trans hjob)) hk
  busy _ hb := hb.write_other fun e' he' _ => by
    obtain rfl := Option.some.inj (hslot.symm.trans he')
    exact hfree

/-- Other jobs are waited for as before. -/
theorem noOrphan (ho : Own k s t) (h : NoOrphan s) (hk : NoOrphanOf t k) : NoOrphan t := by
  intro k' i hb
  by_cases hkk : k' = k
  · subst hkk
    exact hk i hb
  · obtain ⟨e, he, hb⟩ := hb
    rcases h k' i ⟨e, ho.old hkk he, hb⟩ with hw | ⟨n, j, hn, hf⟩
    · exact .inl (by rwa [ho.works hkk])
    · exact .inr ⟨n, j, hn, ho.busy hkk hf⟩

end Own

/-! ## Jobs that have not arrived -/

/-- The job has not reached the node that will run it. -/
def Stage.Early : Stage → Prop
  | .submitted _ _ _ _ _ => True
  | .placed _ _ _ _ _ _ => True
  | .request _ _ => True
  | .thread _ _ _ => False
  | .result _ _ => False

/-- Such a job has no entry on another node. -/
def UnsentOf (s : Cluster) (k : Job) : Prop :=
  ∀ st, s.works k = some st → st.Early → ∀ n i e, n ≠ k.node → ¬ HasEntry s n i k e

def Unsent (s : Cluster) : Prop := ∀ k, UnsentOf s k

theorem Own.unsent (ho : Own k s t) (h : Unsent s) (hk : UnsentOf t k) : Unsent t := by
  intro k' st hw hst n i e hn he
  by_cases hkk : k' = k
  · subst hkk
    exact hk st hw hst n i e hn he
  · exact h k' st ((ho.works hkk).symm.trans hw) hst n i e hn (ho.old hkk he)

/-- A job that nothing is under way for and that has a pending or running entry on its own node only is orphaned. -/
theorem not_noOrphan (hw : t.works k = none) (hb : Busy t k.node i k)
    (hf : ∀ n i e, n ≠ k.node → ¬ HasEntry t n i k e) : ¬ NoOrphan t := by
  intro h
  rcases h k i hb with hw' | ⟨n, j, hn, e, he, -⟩
  · exact hw' hw
  · exact hf n j e hn he

theorem unsentOf_of_works (hw : ∀ st, t.works k = some st → ¬ st.Early) : UnsentOf t k :=
  fun st h hst => absurd hst (hw st h)

theorem ofExit_free (code : Int) : (JobState.ofExit code).Free := by
  unfold JobState.ofExit
  split
  · exact .inr (.inl rfl)
  · exact .inr (.inr rfl)

/-- The entry of a job on its own node is given away. -/
theorem not_busy_of_freed (hi : Inv s) (h : HasEntry s k.node i k e) {f : Entry → Entry}
    (hf : ∀ e, (f e).info.state.Free) (j : Nat) : ¬ Busy (s.write k.node i f) k.node j k := by
  rintro ⟨e', he', hb⟩
  rcases he'.of_write with ⟨hne, he'⟩ | ⟨-, -, e₀, -, rfl, -⟩
  · exact (hne.resolve_left fun h => h rfl) (hi.slot_unique he' h)
  · exact hb (hf e₀)

/-! ## What a step does to its job -/

/-- The effect of a step that is job `k`'s. -/
structure Effect (k : Job) (s : Cluster) (ev : Event) (t : Cluster) : Prop where
  own : Own k s t
  unsent : UnsentOf t k
  kept : Served s ev → NoOrphanOf t k
  lost : ¬ Served s ev → ¬ NoOrphan t

namespace Effect

/-- Something is under way for the job. -/
theorem of_works {ev : Event} (ho : Own k s t) (hu : UnsentOf t k) (hw : t.works k ≠ none) (hs : Served s ev) :
    Effect k s ev t :=
  ⟨ho, hu, fun _ _ _ => .inl hw, fun h => absurd hs h⟩

/-- The job is over. -/
theorem of_freed {ev : Event} (ho : Own k s t) (hw : t.works k = none) (hb : ∀ i, ¬ Busy t k.node i k)
    (hs : Served s ev) : Effect k s ev t :=
  ⟨ho, unsentOf_of_works (by simp [hw]), fun _ i h => absurd h (hb i), fun h => absurd hs h⟩

/-- A job that has not arrived is given up. -/
theorem of_dropped (hi : Inv s) (hn : Unsent s) {st : Stage} (hw : s.works k = some st) (hst : st.Early) {ev : Event}
    (φ : Fate) (hs : ¬ Served s ev) : Effect k s ev (s.advance k none φ) := by
  obtain ⟨-, i, hb⟩ := hi.kept hw
  have hgone : (s.advance k none φ).works k = none := s.works_advance_self none φ
  refine ⟨.advance s k none φ, unsentOf_of_works (by simp), fun h => absurd h hs, fun _ => ?_⟩
  exact not_noOrphan hgone hb (hn k st hw hst)

end Effect

section Steps

theorem submit_effect (hi : Inv s) {cred : Cred} {req : ExecReq} (ha : uckAllocJobSlot (s.nodes n).jobs = some i) :
    Effect ⟨n, (s.nodes n).nextJobId, s.serial⟩ s (.submit n cred req) (s.submit n cred req) := by
  unfold Cluster.submit
  rw [ha]
  simp only
  have hslot := slot_nextJobId s n ((s.nodes n).nextJobId + 1) (s.serial + 1)
  set k : Job := ⟨n, (s.nodes n).nextJobId, s.serial⟩
  set s₁ : Cluster := { s with serial := s.serial + 1,
                               nodes := Function.update s.nodes n
                                 { s.nodes n with nextJobId := (s.nodes n).nextJobId + 1 } }
  obtain ⟨e₁, he₁, hfree⟩ := alloc_free ha
  have hown := ((Own.count k hslot rfl).trans
    (.write_free ⟨ownEntry n (s.nodes n).nextJobId req, some k⟩ ((hslot n i).trans he₁) hfree rfl)).trans
      (.advance _ k (some (.submitted n i (s.nodes n).nextJobId cred req)) .undispatched)
  refine .of_works hown (fun st _ _ m j e hm he => ?_) (by simp) trivial
  -- the job is new, and its entry is on its own node
  rcases he.of_write with ⟨-, he⟩ | ⟨rfl, -⟩
  · exact absurd (hi.tagged ⟨hslot _ _ ▸ he.1, he.2⟩).2 (Nat.lt_irrefl _)
  · exact hm rfl

theorem place_effect (hi : Inv s) (hn : Unsent s) {slot : Nat} {id : UInt32} {cred : Cred} {req : ExecReq}
    (hw : s.works k = some (.submitted n slot id cred req)) (localLoad : UInt32) (peers : List Peer) :
    Effect k s (.place k localLoad peers) (s.place k n slot id cred req localLoad peers) := by
  obtain ⟨rfl, rfl, -, e, he, -⟩ := hi.carried hw
  unfold Cluster.place
  simp only
  generalize (if req.destNode = 0 then uckPickExecNode k.node localLoad peers else req.destNode) = dest
  refine .of_works ((Own.write_own he ?_).trans (.advance _ k _ _)) (fun st _ _ m j e' hm he' => ?_) (by simp) trivial
  · exact fun _ => rfl
  · rcases HasEntry.of_write he' with ⟨-, he'⟩ | ⟨rfl, -⟩
    · exact hn k _ hw trivial m j e' hm he'
    · exact hm rfl

theorem dispatch_effect (hi : Inv s) (hn : Unsent s) {slot : Nat} {id : UInt32} {cred : Cred} {req : ExecReq}
    {dest : UInt32} (hw : s.works k = some (.placed n slot id cred req dest)) (ret : Int) :
    Effect k s (.dispatch k ret) (s.dispatch k n slot id cred req dest ret) := by
  obtain ⟨rfl, rfl, -, e, he, -⟩ := hi.carried hw
  unfold Cluster.dispatch
  split
  · rename_i hdest
    subst hdest
    split
    · rename_i hret
      refine .of_dropped hi hn hw trivial _ fun hs => ?_
      exact absurd (hs _ _ _ _ _ hw) (by omega)
    · rename_i hret
      refine .of_works (.advance s k _ _) (unsentOf_of_works fun st hst => ?_) (by simp) fun _ _ _ _ _ _ => by omega
      rw [Cluster.works_advance_self] at hst
      cases hst
      exact id
  · rename_i hdest
    have hserved : Served s (.dispatch k ret) := by
      intro n slot' id' cred' req' hw'
      rw [hw] at hw'
      cases hw'
      exact absurd rfl hdest
    split
    · -- sending failed, and the entry says so
      have hwrite := Own.write_own (s := s.advance k none .undispatched) he
        (f := fun e => { e with info := { e.info with state := .failed, exitCode := ret } }) fun _ => rfl
      refine .of_freed ((Own.advance s k none .undispatched).trans hwrite) (s.works_advance_self none .undispatched) ?_
        hserved
      exact not_busy_of_freed (hi.advance (fun j e h => hi.unfinished hw h) (by simp)) he fun _ => .inr (.inr rfl)
    · exact .of_works (.advance s k _ _) (fun st _ _ => hn k _ hw trivial) (by simp) hserved

theorem request_effect (hi : Inv s) (hn : Unsent s) {wire : ExecWire} (hw : s.works k = some (.request n wire))
    (run : Bool) : Effect k s (.deliver k run) (s.uckHandleExecReq k n wire run) := by
  obtain ⟨hne, -⟩ := hi.carried hw
  unfold Cluster.uckHandleExecReq
  cases ha : uckAllocJobSlot (s.nodes n).jobs with
  | none => exact .of_dropped hi hn hw trivial _ fun hs => hs n wire hw ha
  | some i =>
    obtain ⟨e₁, he₁, hfree⟩ := alloc_free ha
    have hserved : Served s (.deliver k run) := by
      intro dest wire' hw'
      rw [hw] at hw'
      cases hw'
      rw [ha]
      exact Option.some_ne_none i
    have hwrite := Own.write_free ⟨foreignEntry n wire, some k⟩ he₁ hfree rfl
    have hbusy : Busy (s.write n i fun _ => ⟨foreignEntry n wire, some k⟩) n i k := .write_new he₁ rfl rfl
    refine ⟨hwrite.trans (.advance _ k _ _), unsentOf_of_works fun st hst => ?_, fun _ _ _ => ?_,
      fun h => absurd hserved h⟩
    · rw [Cluster.works_advance_self] at hst
      cases run <;> cases hst
      exact id
    · exact .inr ⟨n, i, hne, hbusy⟩

theorem result_effect (hi : Inv s) {r : ExecResult} (hw : s.works k = some (.result n r)) (run : Bool) :
    Effect k s (.deliver k run) ((s.advance k none (s.fate k)).uckHandleExecDone n r) := by
  obtain ⟨rfl, hid, -⟩ := hi.carried hw
  obtain ⟨-, i, e, he, -⟩ := hi.kept hw
  have hserved : Served s (.deliver k run) := by
    intro dest wire hw'
    rw [hw] at hw'
    cases hw'
  have hi₁ : Inv (s.advance k none (s.fate k)) := hi.advance (fun j e h => hi.unfinished hw h) (by simp)
  have hslot : slotOfId ((s.advance k none (s.fate k)).nodes k.node).jobs r.jobId = some i :=
    hid ▸ hi₁.slotOfId_own he
  unfold Cluster.uckHandleExecDone
  rw [hslot]
  have hwrite := Own.write_own (s := s.advance k none (s.fate k)) he
    (f := fun e => { e with info := { e.info with exitCode := r.exitCode, state := .ofExit r.exitCode } }) fun _ => rfl
  refine .of_freed ((Own.advance s k none (s.fate k)).trans hwrite) (s.works_advance_self none (s.fate k)) ?_ hserved
  exact not_busy_of_freed hi₁ he fun _ => ofExit_free r.exitCode

theorem begin_effect (hi : Inv s) {ctx : ExecCtx} (hw : s.works k = some (.thread n ctx false)) :
    Effect k s (.begin k) (s.threadBegin k n ctx) := by
  obtain ⟨-, -, -, e, he, -⟩ := hi.carried hw
  have hwrite := Own.write_own he (f := fun e => { e with info := { e.info with state := .running } }) fun _ => rfl
  unfold Cluster.threadBegin
  refine .of_works (hwrite.trans (.advance _ k _ _)) (unsentOf_of_works fun st hst => ?_) (by simp) trivial
  rw [Cluster.works_advance_self] at hst
  cases hst
  exact id

theorem finish_effect (hi : Inv s) {ctx : ExecCtx} (hw : s.works k = some (.thread n ctx true)) (ret : Int) :
    Effect k s (.finish k ret) (s.threadFinish k n ctx ret) := by
  obtain ⟨-, hsrc, -, e, he, -⟩ := hi.carried hw
  unfold Cluster.threadFinish
  simp only [hsrc]
  set code := exitCodeOf ret
  set st := if k.node ≠ n then some (Stage.result k.node { jobId := ctx.jobId, exitCode := code }) else none with hst
  have hown := (Own.advance s k st (.produced code)).trans (.write_own (s := s.advance k st (.produced code)) he
    (f := fun e => { e with info := { e.info with exitCode := code, state := .ofExit code } }) fun _ => rfl)
  have hworks := s.works_advance_self (k := k) st (.produced code)
  by_cases hn : k.node = n
  · subst hn
    have hnone : st = none := by simp [hst]
    refine .of_freed hown (hworks.trans hnone) ?_ trivial
    have hi' : Inv (s.advance k st (.produced code)) := hi.advance (fun j e h => hi.unfinished hw h) (by simp [hnone])
    exact not_busy_of_freed hi' he fun _ => ofExit_free code
  · have hsome : st = some (.result k.node { jobId := ctx.jobId, exitCode := code }) := if_pos hn
    refine .of_works hown (unsentOf_of_works fun st' hst' => ?_) ?_ trivial
    · have heq := hst'.symm.trans (hworks.trans hsome)
      cases heq
      exact id
    · have hne : (s.advance k st (.produced code)).works k ≠ none := by
        rw [hworks, hsome]
        exact Option.some_ne_none _
      exact hne

/-- Every step between reliable connections is that of one job, or changes nothing. -/
theorem step_effect {ev : Event} (hi : Inv s) (hn : Unsent s) (hr : Reliable ev) (hs : step s ev = some t) :
    (∃ k, Effect k s ev t) ∨ (t = s ∧ Served s ev) := by
  cases Step.of_step hs with
  | submit n cred req =>
    cases ha : uckAllocJobSlot (s.nodes n).jobs with
    | none => exact .inr ⟨by simp [Cluster.submit, ha], trivial⟩
    | some i => exact .inl ⟨_, submit_effect hi ha⟩
  | place hw localLoad peers => exact .inl ⟨_, place_effect hi hn hw localLoad peers⟩
  | dispatch hw ret => exact .inl ⟨_, dispatch_effect hi hn hw ret⟩
  | unstarted hw => exact .inl ⟨_, .of_dropped hi hn hw trivial _ fun hs => hs _ _ _ _ _ hw⟩
  | request hw run => exact .inl ⟨_, request_effect hi hn hw run⟩
  | result hw run => exact .inl ⟨_, result_effect hi hw run⟩
  | lose hw => exact hr.elim
  | begin hw => exact .inl ⟨_, begin_effect hi hw⟩
  | finish hw ret => exact .inl ⟨_, finish_effect hi hw ret⟩
  | started n r => exact hr.elim

end Steps

/-! ## Runs -/

/-- A submission whose message could not be sent has its entry marked. -/
theorem errorClears_of_served {ev : Event} (hi : Inv s) (hs : Served s ev) : ErrorClears s ev := by
  rintro k ret t rfl hret ht
  cases Step.of_step ht with
  | @dispatch _ n slot id cred req dest hw =>
    obtain ⟨rfl, rfl, -, e, he, -⟩ := hi.carried hw
    have hdest : dest ≠ k.node := by
      rintro rfl
      exact absurd (hs _ _ _ _ _ hw) (by omega)
    unfold Cluster.dispatch
    rw [if_neg hdest, if_pos hret]
    exact not_busy_of_freed (hi.advance (fun j e h => hi.unfinished hw h) (by simp)) he fun _ => .inr (.inr rfl)

/-- What is kept along the way. -/
structure Attended (s : Cluster) : Prop where
  inv : Inv s
  noOrphan : NoOrphan s
  unsent : Unsent s

theorem init_attended : Attended init :=
  ⟨init_inv, fun _ _ ⟨_, he, _⟩ => (not_hasEntry_fresh rfl he).elim, fun _ _ hw => by cases hw⟩

/-- A step keeps all jobs waited for exactly if it serves its own. -/
theorem Attended.step {ev : Event} (h : Attended s) (ha : Apart s ev) (hr : Reliable ev) (hs : step s ev = some t) :
    (Served s ev → Attended t) ∧ (NoOrphan t → Served s ev) := by
  rcases step_effect h.inv h.unsent hr hs with ⟨k, he⟩ | ⟨rfl, hserved⟩
  · refine ⟨fun hserved => ⟨step_inv h.inv ha hs, ?_, ?_⟩, fun ht => ?_⟩
    · exact he.own.noOrphan h.noOrphan (he.kept hserved)
    · exact he.own.unsent h.unsent he.unsent
    · by_contra hserved
      exact he.lost hserved ht
  · exact ⟨fun _ => h, fun _ => hserved⟩

/-- A step that cannot be taken serves its job. -/
theorem served_of_step_eq_none {ev : Event} (h : step s ev = none) : Served s ev := by
  cases ev with
  | dispatch k ret =>
    intro n slot id cred req hw
    simp [Exec.step, hw] at h
  | unstarted k =>
    intro n slot id cred req hw
    simp [Exec.step, hw] at h
  | deliver k run =>
    intro dest wire hw
    simp [Exec.step, hw] at h
  | _ => trivial

/-- **No job is orphaned, and no failed submission leaves its entry behind**, along a run between reliable connections
in which no entry stands in the way of an own one, exactly while local jobs get their thread and requests find a
slot. -/
theorem no_orphans_iff (es : List Event) (hes : EachStep step (fun s ev => Apart s ev ∧ Reliable ev) init es) :
    Always step NoOrphan init es ∧ EachStep step ErrorClears init es ↔ EachStep step Served init es := by
  have hiff : Always step NoOrphan init es ↔ EachStep step Served init es :=
    always_iff_of_inv Attended (fun _ h => h.noOrphan) (fun _ _ _ h hg hs => h.step hg.1 hg.2 hs)
      (fun _ _ h => served_of_step_eq_none h) init_attended hes
  refine ⟨fun h => hiff.1 h.1, fun h => ⟨hiff.2 h, ?_⟩⟩
  exact EachStep.of_inv Attended (fun _ _ _ ha hg hs => (ha.step hg.1.1 hg.1.2 hs).1 hg.2)
    (fun _ _ ha hg => errorClears_of_served ha.inv hg.2) init_attended (hes.and h)

/-- The job of `oneJob` is served. -/
theorem one_job_attended : Always step NoOrphan init oneJob ∧ EachStep step ErrorClears init oneJob := by
  have hrel : EachStep step (fun _ ev => Reliable ev) init oneJob := by
    refine .of_forall fun _ ev hev => ?_
    simp only [oneJob, List.mem_cons, List.not_mem_nil, or_false] at hev
    rcases hev with rfl | rfl | rfl | rfl | rfl | rfl | rfl <;> trivial
  refine (no_orphans_iff oneJob (oneJob_apart.and hrel)).2 ?_
  refine .cons rfl trivial (.cons rfl trivial (.cons rfl ?_ (.cons rfl ?_ (.cons rfl trivial (.cons rfl trivial
    (.cons rfl ?_ trivial))))))
  · intro n slot id cred req _
    exact Int.le_refl 0
  · intro dest wire hw
    cases hw
    exact nofun
  · intro dest wire hw
    cases hw

/-- A job that node 1 is to run itself and cannot allocate the context for. -/
def failedLocalJob : List Event :=
  [.submit 1 ⟨0, 0⟩ ⟨1, []⟩, .place ⟨1, 1, 0⟩ 0 [], .dispatch ⟨1, 1, 0⟩ (-12)]

/-- The submission returns `-ENOMEM`, and the entry is pending for ever. -/
theorem failed_submission_left_pending :
    ∃ s e, run step init failedLocalJob = some s ∧ HasEntry s 1 0 ⟨1, 1, 0⟩ e ∧ e.info.state = .pending ∧
      ¬ NoOrphan s := by
  refine ⟨_, _, rfl, ⟨rfl, rfl⟩, rfl, ?_⟩
  refine not_noOrphan (k := ⟨1, 1, 0⟩) (i := 0) rfl ⟨_, ⟨rfl, rfl⟩, by decide⟩ fun n i e hn he => ?_
  -- nothing was written on any other node
  refine not_hasEntry_fresh (n := n) (i := i) ?_ he
  change (Function.update (Function.update (Function.update init.nodes 1 _) 1 _) 1 _ n).jobs = _
  rw [Function.update_of_ne hn, Function.update_of_ne hn, Function.update_of_ne hn]
  rfl

end UckSmp.Exec
