import UckSmp.Exec.Jobs

/-!
# The outcome of a job is its own

Entries are found by id alone, and the ids of a node's own jobs and of the jobs it runs for others come from different
counters. As long as no entry stands in the way of an own one, every message finds the entry it is meant for, every
thread's slot stays its own, and a query finds the submitter's entry.

* `Inv.touch`, `Inv.insert`, `Inv.advance`: what a write to an entry, a new entry and the progress of a job preserve.
* `step_inv`: every step that meets `Apart` keeps the invariant.
* `own_outcome`: in every state of a run whose steps meet `Apart`, finished entries hold the outcome of their job.
-/

namespace UckSmp.Exec

open Lib.Transition

/-! ## What should hold -/

def Cluster.slot (s : Cluster) (n : UInt32) (i : Nat) : Option Entry := (s.nodes n).jobs[i]?

/-- The slot holds the entry `e`, made for job `k`. -/
def HasEntry (s : Cluster) (n : UInt32) (i : Nat) (k : Job) (e : Entry) : Prop := s.slot n i = some e ∧ e.job = some k

/-- The entry shows an outcome. -/
def JobState.Finished (s : JobState) : Prop := s = .done ∨ s = .failed

/-- The entry of a job that was dispatched and shows an outcome shows the job's own, and a query for the id that the
submitter was given returns that entry. -/
def OwnOutcome (s : Cluster) : Prop :=
  ∀ k i e, HasEntry s k.node i k e → e.info.state.Finished → s.fate k ≠ .undispatched →
    s.fate k = .produced e.info.exitCode ∧ uckQueryJobs ((s.nodes k.node).jobs.map (·.info)) k.id = [e.info]

/-- No slot below `i` has this id. -/
def NoneBelow (s : Cluster) (n : UInt32) (i : Nat) (id : UInt32) : Prop :=
  ∀ j e, j < i → s.slot n j = some e → e.info.jobId ≠ id

/-- No entry for a job that node `n` submitted itself stands above slot `i` with this id. -/
def NoneShadowed (s : Cluster) (n : UInt32) (i : Nat) (id : UInt32) : Prop :=
  ∀ j e k, i < j → HasEntry s n j k e → k.node = n → e.info.jobId ≠ id

/-- A new entry does not come between an own entry and its id. -/
def Apart (s : Cluster) : Event → Prop
  | .submit n _ _ => ∀ i, uckAllocJobSlot (s.nodes n).jobs = some i →
      (s.nodes n).nextJobId ≠ 0 ∧ NoneBelow s n i (s.nodes n).nextJobId ∧ NoneShadowed s n i (s.nodes n).nextJobId
  | .deliver k _ => ∀ dest wire i, s.works k = some (.request dest wire) →
      uckAllocJobSlot (s.nodes dest).jobs = some i → NoneShadowed s dest i wire.jobId
  | _ => True

/-! ## The invariant -/

/-- The slot holds the entry of job `k`, and is not given away. -/
def Busy (s : Cluster) (n : UInt32) (i : Nat) (k : Job) : Prop := ∃ e, HasEntry s n i k e ∧ ¬ e.info.state.Free

/-- What is under way knows the job by its node and id, and the slots it will write are still the job's. -/
def Carried (s : Cluster) (k : Job) : Stage → Prop
  | .submitted n slot id _ _ => n = k.node ∧ id = k.id ∧ s.fate k = .undispatched ∧ Busy s n slot k
  | .placed n slot id _ _ _ => n = k.node ∧ id = k.id ∧ s.fate k = .undispatched ∧ Busy s n slot k
  | .request dest wire => dest ≠ k.node ∧ wire.jobId = k.id ∧ wire.srcNode = k.node ∧ s.fate k = .dispatched
  | .thread n ctx _ => ctx.jobId = k.id ∧ ctx.srcNode = k.node ∧ s.fate k = .dispatched ∧ Busy s n ctx.slot k
  | .result dest r => dest = k.node ∧ r.jobId = k.id ∧ s.fate k = .produced r.exitCode

structure Inv (s : Cluster) : Prop where
  /-- Entries have the id of their job, and jobs are numbered in order. -/
  tagged : ∀ {n i k e}, HasEntry s n i k e → e.info.jobId = k.id ∧ k.serial < s.serial
  /-- An own entry is the first with its id. -/
  first : ∀ {i k e}, HasEntry s k.node i k e → k.id ≠ 0 ∧ NoneBelow s k.node i k.id
  /-- Finished own entries show the outcome of their job. -/
  outcome : ∀ {i k e}, HasEntry s k.node i k e → e.info.state.Finished → s.fate k ≠ .undispatched →
    s.fate k = .produced e.info.exitCode
  /-- A job under way has its entry on the submitting node. -/
  kept : ∀ {k st}, s.works k = some st → k.serial < s.serial ∧ ∃ i, Busy s k.node i k
  carried : ∀ {k st}, s.works k = some st → Carried s k st

namespace Inv

variable {s : Cluster} {k : Job} {n : UInt32} {i : Nat}

/-- A job has one entry on its own node. -/
theorem slot_unique (hi : Inv s) {j : Nat} {e e' : Entry} (h : HasEntry s k.node i k e)
    (h' : HasEntry s k.node j k e') : i = j := by
  rcases Nat.lt_trichotomy i j with hlt | heq | hlt
  · exact absurd (hi.tagged h).1 ((hi.first h').2 i e hlt h.1)
  · exact heq
  · exact absurd (hi.tagged h').1 ((hi.first h).2 j e' hlt h'.1)

/-- The entry of a job under way shows no outcome. -/
theorem unfinished (hi : Inv s) {st : Stage} (hw : s.works k = some st) {e : Entry} (h : HasEntry s k.node i k e) :
    ¬ e.info.state.Finished := by
  obtain ⟨-, j, e', h', hb⟩ := hi.kept hw
  obtain rfl := hi.slot_unique h h'
  obtain rfl := Option.some.inj (h.1.symm.trans h'.1)
  exact fun hf => hb (.inr hf)

/-- The loops of the handlers stop at an own entry. -/
theorem slotOfId_own (hi : Inv s) {e : Entry} (h : HasEntry s k.node i k e) :
    slotOfId (s.nodes k.node).jobs k.id = some i := by
  obtain ⟨hl, he⟩ := List.getElem?_eq_some_iff.1 h.1
  rw [slotOfId, List.findIdx?_eq_some_iff_getElem]
  refine ⟨hl, by simp [he, (hi.tagged h).1], fun j hj => ?_⟩
  have hne := (hi.first h).2 j _ hj (List.getElem?_eq_getElem (by omega))
  simpa using hne

/-- A query for its id returns an own entry. -/
theorem query_own (hi : Inv s) {e : Entry} (h : HasEntry s k.node i k e) (he : e.info.state ≠ .empty) :
    uckQueryJobs ((s.nodes k.node).jobs.map (·.info)) k.id = [e.info] := by
  obtain ⟨h0, hbelow⟩ := hi.first h
  obtain ⟨hl, hget⟩ := List.getElem?_eq_some_iff.1 h.1
  have hfind : ((s.nodes k.node).jobs.map (·.info)).find? (fun j => j.jobId = k.id ∧ j.state ≠ .empty) =
      some e.info := by
    rw [List.find?_eq_some_iff_getElem]
    refine ⟨by simp [(hi.tagged h).1, he], i, by simpa using hl, by simp [hget], fun j hj => ?_⟩
    have hne := hbelow j _ hj (List.getElem?_eq_getElem (by omega))
    simp [hne]
  rw [uckQueryJobs, if_pos h0, hfind]
  rfl

theorem ownOutcome (hi : Inv s) : OwnOutcome s := by
  intro k i e h hf hd
  refine ⟨hi.outcome h hf hd, hi.query_own h ?_⟩
  rcases hf with hf | hf <;> simp [hf]

end Inv

/-- A fresh table has no entry of any job. -/
theorem not_hasEntry_fresh {s : Cluster} {n : UInt32} (hn : (s.nodes n).jobs = uckExecInit.jobs) {i : Nat} {k : Job}
    {e : Entry} : ¬ HasEntry s n i k e := by
  rintro ⟨h, hk⟩
  rw [Cluster.slot, hn] at h
  obtain ⟨hl, rfl⟩ := List.getElem?_eq_some_iff.1 h
  simp [uckExecInit] at hk

theorem init_inv : Inv init :=
  ⟨fun h => (not_hasEntry_fresh rfl h).elim, fun h => (not_hasEntry_fresh rfl h).elim,
    fun h => (not_hasEntry_fresh rfl h).elim, fun h => (by cases h), fun h => (by cases h)⟩

theorem running_taken : ¬ JobState.running.Free := by decide

/-! ## Writes to the tables -/

theorem slot_write (s : Cluster) (n : UInt32) (i : Nat) (f : Entry → Entry) (m : UInt32) (j : Nat) :
    (s.write n i f).slot m j = if m = n ∧ j = i then (s.slot m j).map f else s.slot m j := by
  unfold Cluster.slot Cluster.write
  by_cases hm : m = n
  · subst hm
    by_cases hj : j = i
    · simp [hj]
    · simp [hj, Ne.symm hj]
  · simp [hm]

/-- The counters are not in the tables. -/
theorem slot_nextJobId (s : Cluster) (n : UInt32) (id : UInt32) (serial : Nat) (m : UInt32) (j : Nat) :
    Cluster.slot { s with serial, nodes := Function.update s.nodes n { s.nodes n with nextJobId := id } } m j =
      s.slot m j := by
  by_cases hm : m = n
  · subst hm
    simp [Cluster.slot]
  · simp [Cluster.slot, hm]

/-- An entry after a write is an old one or the written one. -/
theorem HasEntry.of_write {s : Cluster} {n m : UInt32} {i j : Nat} {f : Entry → Entry} {k : Job} {e : Entry}
    (h : HasEntry (s.write n i f) m j k e) :
    ((m ≠ n ∨ j ≠ i) ∧ HasEntry s m j k e) ∨
      (m = n ∧ j = i ∧ ∃ e₀, s.slot n i = some e₀ ∧ f e₀ = e ∧ e.job = some k) := by
  obtain ⟨h, hk⟩ := h
  rw [slot_write] at h
  split at h
  · rename_i heq
    obtain ⟨rfl, rfl⟩ := heq
    obtain ⟨e₀, h₀, rfl⟩ := Option.map_eq_some_iff.1 h
    exact .inr ⟨rfl, rfl, e₀, h₀, rfl, hk⟩
  · rename_i hne
    exact .inl ⟨by tauto, h, hk⟩

theorem HasEntry.write_other {s : Cluster} {n m : UInt32} {i j : Nat} {f : Entry → Entry} {k : Job} {e : Entry}
    (h : HasEntry s m j k e) (hne : m ≠ n ∨ j ≠ i) : HasEntry (s.write n i f) m j k e :=
  ⟨by rw [slot_write, if_neg (by tauto), h.1], h.2⟩

theorem HasEntry.write_self {s : Cluster} {n : UInt32} {i : Nat} {f : Entry → Entry} {k : Job} {e : Entry}
    (h : HasEntry s n i k e) (hf : (f e).job = e.job) : HasEntry (s.write n i f) n i k (f e) :=
  ⟨by rw [slot_write, if_pos ⟨rfl, rfl⟩, h.1]; rfl, hf.trans h.2⟩

/-- A new entry stands in its slot. -/
theorem Busy.write_new {s : Cluster} {n : UInt32} {i : Nat} {k : Job} {e e₀ : Entry} (h : s.slot n i = some e₀)
    (hk : e.job = some k) (hp : e.info.state = .pending) : Busy (s.write n i fun _ => e) n i k :=
  ⟨e, ⟨by rw [slot_write, if_pos ⟨rfl, rfl⟩, h]; rfl, hk⟩, by rw [hp]; decide⟩

/-- A write that leaves the slot taken. -/
theorem Busy.write_self {s : Cluster} {n : UInt32} {i : Nat} {k : Job} {f : Entry → Entry} (h : Busy s n i k)
    (hf : ∀ e, (f e).job = e.job) (hb : ∀ e, ¬ e.info.state.Free → ¬ (f e).info.state.Free) :
    Busy (s.write n i f) n i k := by
  obtain ⟨e, he, hfree⟩ := h
  exact ⟨f e, he.write_self (hf e), hb e hfree⟩

theorem alloc_free {s : Cluster} {n : UInt32} {i : Nat} (h : uckAllocJobSlot (s.nodes n).jobs = some i) :
    ∃ e, s.slot n i = some e ∧ e.info.state.Free := by
  obtain ⟨hl, hf, -⟩ := List.findIdx?_eq_some_iff_getElem.1 h
  exact ⟨_, List.getElem?_eq_getElem hl, by simpa using hf⟩

/-! ## What preserves the invariant -/

theorem Carried.mono {s t : Cluster} {k : Job} {st : Stage} (hf : t.fate k = s.fate k)
    (hb : ∀ n i, Busy s n i k → (∃ dest r, st = .result dest r) ∨ Busy t n i k) (h : Carried s k st) :
    Carried t k st := by
  cases st with
  | submitted n slot id cred req =>
    exact ⟨h.1, h.2.1, hf.trans h.2.2.1, (hb _ _ h.2.2.2).resolve_left (by simp)⟩
  | placed n slot id cred req dest =>
    exact ⟨h.1, h.2.1, hf.trans h.2.2.1, (hb _ _ h.2.2.2).resolve_left (by simp)⟩
  | request dest wire => exact ⟨h.1, h.2.1, h.2.2.1, hf.trans h.2.2.2⟩
  | thread n ctx running =>
    exact ⟨h.1, h.2.1, hf.trans h.2.2.1, (hb _ _ h.2.2.2).resolve_left (by simp)⟩
  | result dest r => exact ⟨h.1, h.2.1, hf.trans h.2.2⟩

namespace Inv

variable {s t : Cluster} {k : Job} {n : UInt32} {i : Nat}

/-- Only the counters moved. -/
theorem count (hi : Inv s) (hslot : ∀ n i, t.slot n i = s.slot n i) (hw : t.works = s.works) (hf : t.fate = s.fate)
    (hs : s.serial ≤ t.serial) : Inv t := by
  have hhas : ∀ n i k e, HasEntry t n i k e → HasEntry s n i k e := fun n i k e h => ⟨hslot n i ▸ h.1, h.2⟩
  have hbusy : ∀ n i k, Busy s n i k → Busy t n i k := fun n i k ⟨e, h, hb⟩ => ⟨e, ⟨(hslot n i).trans h.1, h.2⟩, hb⟩
  refine ⟨fun h => ?_, fun h => ?_, fun h hfin hd => ?_, fun h => ?_, fun h => ?_⟩
  · exact ⟨(hi.tagged (hhas _ _ _ _ h)).1, (hi.tagged (hhas _ _ _ _ h)).2.trans_le hs⟩
  · obtain ⟨h0, hb⟩ := hi.first (hhas _ _ _ _ h)
    exact ⟨h0, fun j e hj he => hb j e hj (hslot _ j ▸ he)⟩
  · rw [hf] at hd ⊢
    exact hi.outcome (hhas _ _ _ _ h) hfin hd
  · obtain ⟨hk, j, hb⟩ := hi.kept (hw ▸ h)
    exact ⟨hk.trans_le hs, j, hbusy _ _ _ hb⟩
  · exact (hi.carried (hw ▸ h)).mono (by rw [hf]) fun n i hb => .inr (hbusy n i _ hb)

/-- A job whose entry shows no outcome makes progress. -/
theorem advance (hi : Inv s) {st : Option Stage} {φ : Fate}
    (hun : ∀ i e, HasEntry s k.node i k e → ¬ e.info.state.Finished)
    (hst : ∀ st', st = some st' → k.serial < s.serial ∧ (∃ i, Busy s k.node i k) ∧ Carried (s.advance k st φ) k st') :
    Inv (s.advance k st φ) := by
  refine ⟨hi.tagged, hi.first, fun {j k' e} h hf hd => ?_, fun {k' st'} h => ?_, fun {k' st'} h => ?_⟩
  · by_cases hk : k' = k
    · subst hk
      exact absurd hf (hun j e h)
    · rw [s.fate_advance_of_ne st φ hk] at hd ⊢
      exact hi.outcome h hf hd
  · by_cases hk : k' = k
    · subst hk
      obtain ⟨hs, hb, -⟩ := hst st' (s.works_advance_self st φ ▸ h)
      exact ⟨hs, hb⟩
    · exact hi.kept (s.works_advance_of_ne st φ hk ▸ h)
  · by_cases hk : k' = k
    · subst hk
      exact (hst st' (s.works_advance_self st φ ▸ h)).2.2
    · exact (hi.carried (s.works_advance_of_ne st φ hk ▸ h)).mono (s.fate_advance_of_ne st φ hk) fun n i hb => .inr hb

/-- A write that keeps whose entry it is. An entry that becomes free belongs to no job under way, except to one whose
result is on its way from here; an entry that shows an outcome shows the job's own. -/
theorem touch (hi : Inv s) {f : Entry → Entry} (hf : ∀ e, (f e).job = e.job ∧ (f e).info.jobId = e.info.jobId)
    (hbusy : ∀ k e st, HasEntry s n i k e → s.works k = some st → ¬ e.info.state.Free →
      ¬ (f e).info.state.Free ∨ (k.node ≠ n ∧ ∃ dest r, st = .result dest r))
    (hout : ∀ k e, k.node = n → HasEntry s n i k e → (f e).info.state.Finished → s.fate k ≠ .undispatched →
      s.fate k = .produced (f e).info.exitCode) :
    Inv (s.write n i f) := by
  have hold : ∀ {m j k e}, HasEntry (s.write n i f) m j k e →
      ∃ e₀, HasEntry s m j k e₀ ∧ e.info.jobId = e₀.info.jobId := by
    intro m j k e h
    rcases h.of_write with ⟨-, h⟩ | ⟨rfl, rfl, e₀, h₀, rfl, hk⟩
    · exact ⟨e, h, rfl⟩
    · exact ⟨e₀, ⟨h₀, (hf e₀).1 ▸ hk⟩, (hf e₀).2⟩
  have hkeep : ∀ {m j k st}, s.works k = some st → Busy s m j k →
      (m = n ∧ k.node ≠ n ∧ ∃ dest r, st = .result dest r) ∨ Busy (s.write n i f) m j k := by
    rintro m j k st hw ⟨e, h, hb⟩
    by_cases hne : m = n ∧ j = i
    · obtain ⟨rfl, rfl⟩ := hne
      rcases hbusy k e st h hw hb with hb' | hr
      · exact .inr ⟨f e, h.write_self (hf e).1, hb'⟩
      · exact .inl ⟨rfl, hr⟩
    · exact .inr ⟨e, h.write_other (by tauto), hb⟩
  refine ⟨fun h => ?_, fun {j k e} h => ?_, fun {j k e} h hfin hd => ?_, fun {k st} h => ?_, fun {k st} h => ?_⟩
  · obtain ⟨e₀, h₀, hid⟩ := hold h
    exact ⟨hid.trans (hi.tagged h₀).1, (hi.tagged h₀).2⟩
  · obtain ⟨e₀, h₀, -⟩ := hold h
    refine ⟨(hi.first h₀).1, fun j' e' hj he' => ?_⟩
    rw [slot_write] at he'
    split at he'
    · obtain ⟨e₁, h₁, rfl⟩ := Option.map_eq_some_iff.1 he'
      exact (hf e₁).2 ▸ (hi.first h₀).2 j' e₁ hj h₁
    · exact (hi.first h₀).2 j' e' hj he'
  · rcases h.of_write with ⟨-, h⟩ | ⟨hn, rfl, e₀, h₀, rfl, hk⟩
    · exact hi.outcome h hfin hd
    · exact hout k e₀ hn ⟨h₀, (hf e₀).1 ▸ hk⟩ hfin hd
  · obtain ⟨hs, j, hb⟩ := hi.kept h
    exact ⟨hs, j, (hkeep h hb).resolve_left fun hr => hr.2.1 hr.1⟩
  · exact Carried.mono (s := s) rfl (fun m j hb => (hkeep h hb).imp (·.2.2) id) (hi.carried h)

/-- A write that neither frees an entry nor makes it show an outcome. -/
theorem keep (hi : Inv s) {f : Entry → Entry} (hf : ∀ e, (f e).job = e.job ∧ (f e).info.jobId = e.info.jobId)
    (hstate : ∀ e, (f e).info.state = .running ∨
      ((f e).info.state = e.info.state ∧ (f e).info.exitCode = e.info.exitCode)) :
    Inv (s.write n i f) := by
  refine hi.touch hf (fun k e st _ _ hb => .inl ?_) fun k e hn h hfin hd => ?_
  · rcases hstate e with h | ⟨h, -⟩
    · rw [h]; exact running_taken
    · rwa [h]
  · subst hn
    rcases hstate e with hr | ⟨hs, hx⟩
    · rw [hr] at hfin
      rcases hfin with hfin | hfin <;> cases hfin
    · rw [hs] at hfin
      rw [hx]
      exact hi.outcome h hfin hd

/-- The outcome of job `k` is written into its entry, when nothing is under way that needs the entry. -/
theorem settle (hi : Inv s) {f : Entry → Entry} (hf : ∀ e, (f e).job = e.job ∧ (f e).info.jobId = e.info.jobId)
    (hk : ∃ e, HasEntry s n i k e)
    (hw : s.works k = none ∨ (k.node ≠ n ∧ ∃ dest r, s.works k = some (.result dest r)))
    (hout : k.node = n → s.fate k ≠ .undispatched → ∀ e, s.fate k = .produced (f e).info.exitCode) :
    Inv (s.write n i f) := by
  have hsame : ∀ k' e, HasEntry s n i k' e → k' = k := by
    obtain ⟨e₀, h₀⟩ := hk
    intro k' e h
    obtain rfl := Option.some.inj (h₀.1.symm.trans h.1)
    exact Option.some.inj (h.2.symm.trans h₀.2)
  refine hi.touch hf (fun k' e st h hst _ => .inr ?_) fun k' e hn h _ hd => ?_
  · obtain rfl := hsame k' e h
    rcases hw with hw | ⟨hn, dest, r, hw⟩
    · cases hw.symm.trans hst
    · exact ⟨hn, dest, r, Option.some.inj (hst.symm.trans hw)⟩
  · obtain rfl := hsame k' e h
    exact hout hn hd e

/-- A new entry in a free slot, which no own entry is hidden by. -/
theorem insert (hi : Inv s) (k : Job) (e₀ : Entry) {e₁ : Entry} (hslot : s.slot n i = some e₁)
    (hfree : e₁.info.state.Free)
    (hjob : e₀.job = some k) (hid : e₀.info.jobId = k.id) (hs : k.serial < s.serial)
    (hpend : e₀.info.state = .pending) (hown : k.node = n → k.id ≠ 0 ∧ NoneBelow s n i k.id)
    (habove : NoneShadowed s n i k.id) : Inv (s.write n i fun _ => e₀) := by
  have hkeep : ∀ {m j k}, Busy s m j k → Busy (s.write n i fun _ => e₀) m j k := by
    rintro m j k ⟨e, h, hb⟩
    refine ⟨e, h.write_other ?_, hb⟩
    by_contra hcon
    obtain ⟨rfl, rfl⟩ : m = n ∧ j = i := by tauto
    obtain rfl := Option.some.inj (hslot.symm.trans h.1)
    exact hb hfree
  refine ⟨fun h => ?_, fun {j k' e} h => ?_, fun {j k' e} h hfin hd => ?_, fun {k st} h => ?_, fun {k st} h => ?_⟩
  · rcases h.of_write with ⟨-, h⟩ | ⟨-, -, e', -, rfl, hk⟩
    · exact hi.tagged h
    · obtain rfl := Option.some.inj (hjob.symm.trans hk)
      exact ⟨hid, hs⟩
  · rcases h.of_write with ⟨-, h₀⟩ | ⟨hn, rfl, e', -, rfl, hk⟩
    · refine ⟨(hi.first h₀).1, fun j' e' hj he' => ?_⟩
      rw [slot_write] at he'
      split at he'
      · rename_i heq
        obtain ⟨hn, rfl⟩ := heq
        obtain ⟨e₂, -, rfl⟩ := Option.map_eq_some_iff.1 he'
        have hne := habove j e k' hj (hn ▸ h₀) hn
        rw [(hi.tagged h₀).1] at hne
        rw [hid]
        exact hne.symm
      · exact (hi.first h₀).2 j' e' hj he'
    · obtain rfl := Option.some.inj (hjob.symm.trans hk)
      obtain ⟨h0, hb⟩ := hown hn
      refine ⟨h0, fun j' e' hj he' => hb j' e' hj ?_⟩
      rw [slot_write, if_neg (by omega)] at he'
      exact hn ▸ he'
  · rcases h.of_write with ⟨-, h⟩ | ⟨-, -, e', -, rfl, hk⟩
    · exact hi.outcome h hfin hd
    · rcases hfin with hfin | hfin <;> simp [hpend] at hfin
  · obtain ⟨hs, j, hb⟩ := hi.kept h
    exact ⟨hs, j, hkeep hb⟩
  · exact Carried.mono (s := s) rfl (fun m j hb => .inr (hkeep hb)) (hi.carried h)

end Inv

/-! ## The steps -/

section Steps

variable {s : Cluster} {k : Job}

theorem submit_inv (hi : Inv s) {n : UInt32} {cred : Cred} {req : ExecReq} (hg : Apart s (.submit n cred req)) :
    Inv (s.submit n cred req) := by
  unfold Cluster.submit
  cases ha : uckAllocJobSlot (s.nodes n).jobs with
  | none => exact hi
  | some i =>
    simp only
    set id := (s.nodes n).nextJobId with hid
    have hslot := slot_nextJobId s n (id + 1) (s.serial + 1)
    set s₁ : Cluster := { s with serial := s.serial + 1,
                                 nodes := Function.update s.nodes n { s.nodes n with nextJobId := id + 1 } }
    have hi₁ : Inv s₁ := hi.count hslot rfl rfl (Nat.le_succ _)
    obtain ⟨h0, hbelow, habove⟩ := hg i ha
    obtain ⟨e₁, he₁, hfree⟩ := alloc_free ha
    have hins := hi₁.insert ⟨n, id, s.serial⟩ ⟨ownEntry n id req, some ⟨n, id, s.serial⟩⟩ ((hslot n i).trans he₁) hfree
      rfl rfl (Nat.lt_succ_self _) rfl (fun _ => ⟨h0, fun j e hj he => hbelow j e hj (hslot n j ▸ he)⟩)
      (fun j e k' hj h => habove j e k' hj ⟨hslot n j ▸ h.1, h.2⟩)
    have hbusy : Busy (s₁.write n i fun _ => ⟨ownEntry n id req, some ⟨n, id, s.serial⟩⟩) n i ⟨n, id, s.serial⟩ :=
      .write_new ((hslot n i).trans he₁) rfl rfl
    refine hins.advance (fun j e h => ?_) fun st' hst => ?_
    · -- No older entry was made for the new job.
      rcases h.of_write with ⟨-, h⟩ | ⟨-, -, e₂, -, rfl, -⟩
      · exact absurd (hi.tagged ⟨hslot _ _ ▸ h.1, h.2⟩).2 (Nat.lt_irrefl _)
      · rintro (hf | hf) <;> cases hf
    · cases hst
      exact ⟨Nat.lt_succ_self _, ⟨i, hbusy⟩, rfl, rfl, Cluster.fate_advance_self _ _ _, hbusy⟩

theorem place_inv (hi : Inv s) {n : UInt32} {slot : Nat} {id : UInt32} {cred : Cred} {req : ExecReq}
    (hw : s.works k = some (.submitted n slot id cred req)) (localLoad : UInt32) (peers : List Peer) :
    Inv (s.place k n slot id cred req localLoad peers) := by
  obtain ⟨rfl, rfl, -, hb⟩ := hi.carried hw
  have hs := (hi.kept hw).1
  unfold Cluster.place
  simp only
  generalize (if req.destNode = 0 then uckPickExecNode k.node localLoad peers else req.destNode) = dest
  have hb₁ := hb.write_self (f := fun e => { e with info := { e.info with nodeId := dest } })
    (fun _ => rfl) fun _ h => h
  have hi₁ := hi.keep (n := k.node) (i := slot) (f := fun e => { e with info := { e.info with nodeId := dest } })
    (fun _ => ⟨rfl, rfl⟩) fun _ => .inr ⟨rfl, rfl⟩
  refine hi₁.advance (fun j e h => hi₁.unfinished hw h) fun st' hst => ?_
  cases hst
  exact ⟨hs, ⟨slot, hb₁⟩, rfl, rfl, Cluster.fate_advance_self _ _ _, hb₁⟩

theorem dispatch_inv (hi : Inv s) {n : UInt32} {slot : Nat} {id : UInt32} {cred : Cred} {req : ExecReq} {dest : UInt32}
    (hw : s.works k = some (.placed n slot id cred req dest)) (ret : Int) :
    Inv (s.dispatch k n slot id cred req dest ret) := by
  obtain ⟨rfl, rfl, -, hb⟩ := hi.carried hw
  have hs := (hi.kept hw).1
  have hun := fun j e (h : HasEntry s k.node j k e) => hi.unfinished hw h
  have hgone : Inv (s.advance k none .undispatched) := hi.advance hun (by simp)
  unfold Cluster.dispatch
  split
  · split
    · exact hgone
    · refine hi.advance hun fun st' hst => ?_
      cases hst
      exact ⟨hs, ⟨slot, hb⟩, rfl, rfl, Cluster.fate_advance_self _ _ _, hb⟩
  · rename_i hdest
    split
    · -- The job was not dispatched: the entry may show anything.
      obtain ⟨e, he, -⟩ := hb
      refine hgone.settle (k := k) (fun _ => ⟨rfl, rfl⟩) ⟨e, he⟩ (.inl (s.works_advance_self _ _)) fun _ hd => ?_
      exact absurd (s.fate_advance_self _ _) hd
    · refine hi.advance hun fun st' hst => ?_
      cases hst
      exact ⟨hs, ⟨slot, hb⟩, hdest, rfl, rfl, Cluster.fate_advance_self _ _ _⟩

theorem uckHandleExecReq_inv (hi : Inv s) {n : UInt32} {wire : ExecWire} (hw : s.works k = some (.request n wire))
    {run : Bool} (hg : Apart s (.deliver k run)) : Inv (s.uckHandleExecReq k n wire run) := by
  obtain ⟨hne, hid, hsrc, -⟩ := hi.carried hw
  obtain ⟨hs, j, hb⟩ := hi.kept hw
  unfold Cluster.uckHandleExecReq
  cases ha : uckAllocJobSlot (s.nodes n).jobs with
  | none => exact hi.advance (fun j e h => hi.unfinished hw h) (by simp)
  | some i =>
    obtain ⟨e₁, he₁, hfree⟩ := alloc_free ha
    have hi₁ := hi.insert k ⟨foreignEntry n wire, some k⟩ he₁ hfree rfl hid hs rfl (fun h => absurd h.symm hne)
      (hid ▸ hg n wire i hw ha)
    refine hi₁.advance (fun j e h => hi₁.unfinished hw h) fun st' hst => ?_
    cases run with
    | false => cases hst
    | true =>
      cases hst
      exact ⟨hs, (hi₁.kept hw).2, hid, hsrc, Cluster.fate_advance_self _ _ _, .write_new he₁ rfl rfl⟩

theorem uckHandleExecStarted_inv (hi : Inv s) (n : UInt32) (r : ExecResult) : Inv (s.uckHandleExecStarted n r) := by
  unfold Cluster.uckHandleExecStarted
  split
  · exact hi
  · exact hi.keep (fun _ => ⟨rfl, rfl⟩) fun _ => .inl rfl

/-- An `EXEC_DONE` reaches the entry of its job. -/
theorem uckHandleExecDone_inv (hi : Inv s) {n : UInt32} {r : ExecResult} (hw : s.works k = some (.result n r)) :
    Inv ((s.advance k none (s.fate k)).uckHandleExecDone n r) := by
  obtain ⟨rfl, hid, hfate⟩ := hi.carried hw
  obtain ⟨-, i, e, he, -⟩ := hi.kept hw
  have hi₁ : Inv (s.advance k none (s.fate k)) := hi.advance (fun j e h => hi.unfinished hw h) (by simp)
  unfold Cluster.uckHandleExecDone
  have hslot : slotOfId ((s.advance k none (s.fate k)).nodes k.node).jobs r.jobId = some i :=
    hid ▸ hi₁.slotOfId_own he
  rw [hslot]
  refine hi₁.settle (k := k) (fun _ => ⟨rfl, rfl⟩) ⟨e, he⟩ (.inl (s.works_advance_self _ _)) fun _ _ _ => ?_
  exact (s.fate_advance_self _ _).trans hfate

theorem threadBegin_inv (hi : Inv s) {n : UInt32} {ctx : ExecCtx} {running : Bool}
    (hw : s.works k = some (.thread n ctx running)) : Inv (s.threadBegin k n ctx) := by
  obtain ⟨hid, hsrc, -, hb⟩ := hi.carried hw
  have hs := (hi.kept hw).1
  have hi₁ : Inv (s.write n ctx.slot fun e => { e with info := { e.info with state := .running } }) :=
    hi.keep (fun _ => ⟨rfl, rfl⟩) fun _ => .inl rfl
  refine hi₁.advance (fun j e h => hi₁.unfinished hw h) fun st' hst => ?_
  cases hst
  exact ⟨hs, (hi₁.kept hw).2, hid, hsrc, Cluster.fate_advance_self _ _ _,
    hb.write_self (fun _ => rfl) fun _ _ => running_taken⟩

/-- A thread writes the outcome into the slot of its job and sends it to the job's node. -/
theorem threadFinish_inv (hi : Inv s) {n : UInt32} {ctx : ExecCtx} {running : Bool}
    (hw : s.works k = some (.thread n ctx running)) (ret : Int) : Inv (s.threadFinish k n ctx ret) := by
  obtain ⟨hid, hsrc, -, e, he, -⟩ := hi.carried hw
  obtain ⟨hs, hkept⟩ := hi.kept hw
  unfold Cluster.threadFinish
  simp only [hsrc]
  have hi₁ : Inv (s.advance k (if k.node ≠ n then some (.result k.node
      { jobId := ctx.jobId, exitCode := exitCodeOf ret }) else none) (.produced (exitCodeOf ret))) := by
    refine hi.advance (fun j e h => hi.unfinished hw h) fun st' hst => ?_
    split at hst
    · cases hst
      exact ⟨hs, hkept, rfl, hid, Cluster.fate_advance_self _ _ _⟩
    · cases hst
  refine hi₁.settle (k := k) (fun _ => ⟨rfl, rfl⟩) ⟨e, he⟩ ?_ fun _ _ _ => s.fate_advance_self _ _
  by_cases hn : k.node = n
  · exact .inl (by simp [Cluster.advance, hn])
  · exact .inr ⟨hn, k.node, _, by simp only [Cluster.advance, Function.update_self, if_pos hn]; rfl⟩

/-- Every step that puts no entry in the way of an own one keeps the invariant. -/
theorem step_inv {e : Event} {t : Cluster} (hi : Inv s) (hg : Apart s e) (h : step s e = some t) : Inv t := by
  cases Step.of_step h with
  | submit n cred req => exact submit_inv hi hg
  | place hw localLoad peers => exact place_inv hi hw localLoad peers
  | dispatch hw ret => exact dispatch_inv hi hw ret
  | unstarted hw => exact hi.advance (fun j e h => hi.unfinished hw h) (by simp)
  | request hw run => exact uckHandleExecReq_inv hi hw hg
  | result hw run => exact uckHandleExecDone_inv hi hw
  | lose hw => exact hi.advance (fun j e h => hi.unfinished hw h) (by simp)
  | begin hw => exact threadBegin_inv hi hw
  | finish hw ret => exact threadFinish_inv hi hw ret
  | started n r => exact uckHandleExecStarted_inv hi n r

end Steps

/-! ## Runs -/

/-- **The outcome of a job is its own** in every state of a run whose submissions and requests meet `Apart`. -/
theorem own_outcome (es : List Event) (h : EachStep step Apart init es) : Always step OwnOutcome init es :=
  Always.of_eachStep Inv (fun _ _ _ hi hg hs => step_inv hi hg hs) (fun _ hi => hi.ownOutcome) init_inv h

/-- Node 1 has a job run by node 2, which exits with 7. -/
def oneJob : List Event :=
  let k : Job := ⟨1, 1, 0⟩
  [.submit 1 ⟨0, 0⟩ ⟨2, []⟩, .place k 0 [], .dispatch k 0, .deliver k true, .begin k, .finish k (7 * 256),
    .deliver k true]

theorem oneJob_apart : EachStep step Apart init oneJob := by
  refine .cons rfl ?_ (.cons rfl trivial (.cons rfl trivial (.cons rfl ?_ (.cons rfl trivial (.cons rfl trivial
    (.cons rfl ?_ trivial))))))
  · intro i hi
    cases hi
    exact ⟨by decide, fun j e hj _ => absurd hj (Nat.not_lt_zero j), fun j e k _ h _ => (not_hasEntry_fresh rfl h).elim⟩
  · intro dest wire i hw _ j e k _ h _
    cases hw
    exact (not_hasEntry_fresh rfl h).elim
  · intro dest wire i hw
    cases hw

/-- A second job, which node 1 runs itself, is submitted and done while the first is under way. -/
def twoJobs : List Event :=
  let k : Job := ⟨1, 1, 0⟩
  let l : Job := ⟨1, 2, 1⟩
  [.submit 1 ⟨0, 0⟩ ⟨2, []⟩, .place k 0 [], .dispatch k 0, .submit 1 ⟨0, 0⟩ ⟨1, []⟩, .place l 0 [], .dispatch l 0,
    .deliver k true, .begin l, .begin k, .finish l 0, .finish k (7 * 256), .deliver k true]

theorem twoJobs_apart : EachStep step Apart init twoJobs := by
  refine .cons rfl ?_ (.cons rfl trivial (.cons rfl trivial (.cons rfl ?_ (.cons rfl trivial (.cons rfl trivial
    (.cons rfl ?_ (.cons rfl trivial (.cons rfl trivial (.cons rfl trivial (.cons rfl trivial
      (.cons rfl ?_ trivial)))))))))))
  · intro i hi
    cases hi
    exact ⟨by decide, fun j e hj _ => absurd hj (Nat.not_lt_zero j), fun j e k _ h _ => (not_hasEntry_fresh rfl h).elim⟩
  · -- The first job has slot 0 and the id 1, the second one gets slot 1 and the id 2.
    intro i hi
    cases hi
    refine ⟨by decide, fun j e hj he => ?_, fun j e k hj h _ => ?_⟩
    · obtain rfl : j = 0 := by omega
      cases he
      decide
    · obtain ⟨m, rfl⟩ : ∃ m, j = m + 1 := ⟨j - 1, by omega⟩
      have hfresh : HasEntry init 1 (m + 1) k e := h
      exact (not_hasEntry_fresh rfl hfresh).elim
  · intro dest wire i hw _ j e k _ h _
    cases hw
    exact (not_hasEntry_fresh rfl h).elim
  · intro dest wire i hw
    cases hw

/-- The entries of the submitter show 7 and 0. -/
theorem two_jobs_outcome :
    (∃ s e f, run step init twoJobs = some s ∧ s.slot 1 0 = some e ∧ s.slot 1 1 = some f ∧
      (e.info.state = .failed ∧ e.info.exitCode = 7) ∧ f.info.state = .done ∧ f.info.exitCode = 0) ∧
    Always step OwnOutcome init twoJobs :=
  ⟨⟨_, _, _, rfl, rfl, rfl, by decide, by decide⟩, own_outcome twoJobs twoJobs_apart⟩

/-- The jobs of two nodes that both have the id 1, and a third one. -/
def crossedJobs : List Event :=
  let b : Job := ⟨2, 1, 0⟩
  let a : Job := ⟨1, 1, 1⟩
  let c : Job := ⟨1, 2, 2⟩
  [.submit 2 ⟨0, 0⟩ ⟨1, []⟩, .place b 0 [], .dispatch b 0, .deliver b true, .begin b,
    .submit 1 ⟨0, 0⟩ ⟨2, []⟩, .place a 0 [], .dispatch a 0, .deliver a true, .begin a, .finish a (7 * 256),
    .deliver a true,
    .submit 1 ⟨0, 0⟩ ⟨1, []⟩, .place c 0 [], .dispatch c 0, .begin c,
    .finish b (3 * 256)]

/-- Node 2's job sits in slot 0 of node 1 when node 1's own job gets the id 1 too. The result of the own job then frees
slot 0, where the thread of the foreign job still writes: the third job, which got that slot, shows the exit code 3 of
the foreign one while it runs. -/
theorem outcome_of_another_job :
    ∃ s e, run step init crossedJobs = some s ∧ HasEntry s 1 0 ⟨1, 2, 2⟩ e ∧ e.info.state = .failed ∧
      e.info.exitCode = 3 ∧ s.fate ⟨1, 2, 2⟩ = .dispatched ∧ ¬ OwnOutcome s := by
  refine ⟨_, _, rfl, ⟨rfl, rfl⟩, rfl, by decide, by decide, fun h => ?_⟩
  have hown := h ⟨1, 2, 2⟩ 0 _ ⟨rfl, rfl⟩ (.inr rfl) (by decide)
  exact absurd hown.1 (by decide)

end UckSmp.Exec
