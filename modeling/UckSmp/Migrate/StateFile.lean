import Mathlib.Data.Set.Basic
import Mathlib.Logic.Function.Basic
import UckSmp.Lib.Transition
import UckSmp.Migrate.RoundTrip

/-!
# Concurrent incoming migrations

Every connection has its own `uck_handle_proc_state`, but all of them write `/run/uck/uck_migrate_state`, which every
restore stub opens and removes, and `call_usermodehelper` returns as soon as the stub has been executed. The steps of
any number of migrations are interleaved at will. The migration that wrote the file is kept beside its bytes, and the
order of the writes with the migrations; the code reads neither.

* `doomed_step`: a step dooms the migration whose state is in the file, when it takes that state away from its stub.
* `migrations_unmixed_iff`: every process is restored by exactly one stub and from its own state, just if no step does.
* `both_stubs_restore_one`: two migrations that overlap.
-/

namespace UckSmp.Migrate.StateFile

open Lib Lib.Transition

structure File where
  /-- The migration that wrote it. -/
  owner : Nat
  bytes : List Byte

/-- Where a migration and its stub are. A stub has the state of the migration `src`, its own or another. -/
inductive Stage
  | received
  | written
  | launched
  | read (src : Nat) (r : Restored)
  | finished (src : Nat) (r : Restored)
  /-- The stub could not open or parse the file. -/
  | failed

structure Migration where
  incoming : Incoming
  stage : Stage := .received
  /-- How many writes came before its own. -/
  writtenAt : Nat := 0

structure Node where
  migrations : Nat → Option Migration
  /-- The number of the next one. -/
  next : Nat
  file : Option File
  writes : Nat

inductive Event
  /-- The state of a process has been received, and its checksum is right. -/
  | receive (inc : Incoming)
  /-- `uck_write_state_file`: the file is created, or truncated, and written. -/
  | write (i : Nat)
  /-- `call_usermodehelper` with `UMH_WAIT_EXEC`. -/
  | launch (i : Nat)
  /-- The stub opens the file and reads it. -/
  | read (i : Nat)
  /-- The stub unlinks the file and jumps. -/
  | unlink (i : Nat)

namespace Node

def init : Node := ⟨fun _ => none, 0, none, 0⟩

def put (s : Node) (i : Nat) (m : Migration) : Nat → Option Migration := Function.update s.migrations i (some m)

def accept (s : Node) (inc : Incoming) : Node :=
  { s with migrations := s.put s.next { incoming := inc }, next := s.next + 1 }

/-- The file is created, or truncated, and written. -/
def writeFile (s : Node) (i : Nat) (m : Migration) : Node :=
  { s with
    migrations := s.put i { m with stage := .written, writtenAt := s.writes }
    file := some ⟨i, uckWriteStateFile m.incoming⟩
    writes := s.writes + 1 }

/-- A later stage, with the file as it is then. -/
def advance (s : Node) (i : Nat) (m : Migration) (st : Stage) (file : Option File) : Node :=
  { s with migrations := s.put i { m with stage := st }, file := file }

/-- What a stub gets from the file, and whose it is. -/
def readFile (s : Node) : Option (Nat × Restored) := s.file.bind fun f => (uckRestore f.bytes).map (f.owner, ·)

end Node

/-- The stub returns an error, and leaves the file alone, when it cannot read it. -/
def Stage.ofRead : Option (Nat × Restored) → Stage
  | some (src, r) => .read src r
  | none => .failed

def step (s : Node) : Event → Option Node
  | .receive inc => some (s.accept inc)
  | .write i => (s.migrations i).bind fun m => match m.stage with
    | .received => some (s.writeFile i m)
    | _ => none
  | .launch i => (s.migrations i).bind fun m => match m.stage with
    | .written => some (s.advance i m .launched s.file)
    | _ => none
  | .read i => (s.migrations i).bind fun m => match m.stage with
    | .launched => some (s.advance i m (.ofRead s.readFile) s.file)
    | _ => none
  | .unlink i => (s.migrations i).bind fun m => match m.stage with
    | .read src r => some (s.advance i m (.finished src r) none)
    | _ => none

/-! ## Statement -/

/-- The stub has still to read the file. -/
def Stage.Unread : Stage → Prop
  | .written | .launched => True
  | _ => False

/-- The process that the stub restores. -/
def Stage.result : Stage → Option (Nat × Restored)
  | .read src r | .finished src r => some (src, r)
  | _ => none

def Stage.Over : Stage → Prop
  | .finished _ _ | .failed => True
  | _ => False

namespace Node

def restored (s : Node) (i : Nat) : Option (Nat × Restored) := (s.migrations i).bind (·.stage.result)

/-- All migrations and all stubs have come to their end. -/
def Complete (s : Node) : Prop := ∀ i, ∀ m ∈ s.migrations i, m.stage.Over

/-- Exactly one stub has restored each process, from the state that was written for it. -/
def Unmixed (s : Node) : Prop :=
  ∀ i, ∀ m ∈ s.migrations i, (∃! k, ∃ r, s.restored k = some (i, r)) ∧
    ∀ k r, s.restored k = some (i, r) → uckRestore (uckWriteStateFile m.incoming) = some r

def Unread (s : Node) (i : Nat) : Prop := ∃ m ∈ s.migrations i, m.stage.Unread

/-- The step takes what is in the file away from the stub that it is for: by another write, by an unlink, or because
that stub cannot parse it. -/
def Loses (s : Node) (ev : Event) (f : File) : Prop :=
  match ev with
  | .write _ | .unlink _ => s.Unread f.owner
  | .read i => i = f.owner ∧ uckRestore f.bytes = none
  | _ => False

def Keeps (s : Node) (ev : Event) : Prop := ∀ f ∈ s.file, ¬ s.Loses ev f

end Node

/-! ## Steps -/

inductive Step (s : Node) : Event → Node → Prop
  | receive (inc : Incoming) : Step s (.receive inc) (s.accept inc)
  | write {i : Nat} {m : Migration} (hm : s.migrations i = some m) (hst : m.stage = .received) :
      Step s (.write i) (s.writeFile i m)
  | launch {i : Nat} {m : Migration} (hm : s.migrations i = some m) (hst : m.stage = .written) :
      Step s (.launch i) (s.advance i m .launched s.file)
  | read {i : Nat} {m : Migration} (hm : s.migrations i = some m) (hst : m.stage = .launched) :
      Step s (.read i) (s.advance i m (.ofRead s.readFile) s.file)
  | unlink {i src : Nat} {r : Restored} {m : Migration} (hm : s.migrations i = some m) (hst : m.stage = .read src r) :
      Step s (.unlink i) (s.advance i m (.finished src r) none)

variable {s t : Node} {ev : Event} {i j : Nat} {m : Migration} {st : Stage} {file : Option File}

theorem Step.of_step (h : step s ev = some t) : Step s ev t := by
  cases ev with
  | receive inc =>
    cases h
    exact .receive inc
  | write i | launch i | read i | unlink i =>
    simp only [step, Option.bind_eq_some_iff] at h
    obtain ⟨m, hm, h⟩ := h
    split at h
    next hst =>
      cases h
      constructor <;> assumption
    · cases h

namespace Node

section Lookup

variable (s i m)

@[simp] theorem put_self : s.put i m i = some m := Function.update_self ..

variable {i} in
@[simp] theorem put_of_ne (h : j ≠ i) : s.put i m j = s.migrations j := Function.update_of_ne h ..

end Lookup

theorem restored_of (hm : s.migrations i = some m) : s.restored i = m.stage.result := by
  rw [restored, hm, Option.bind_some]

theorem restored_congr (h : s.migrations i = t.migrations i) : s.restored i = t.restored i := by
  rw [restored, restored, h]

/-- The state that a migration has written, and when. -/
def wrote (s : Node) (i : Nat) : Option (Incoming × Nat) :=
  (s.migrations i).bind fun m => match m.stage with
    | .received => none
    | _ => some (m.incoming, m.writtenAt)

theorem wrote_of (hm : s.migrations i = some m) (hst : m.stage ≠ .received) :
    s.wrote i = some (m.incoming, m.writtenAt) := by
  rw [wrote, hm, Option.bind_some]
  split
  · contradiction
  · rfl

theorem wrote_of_received (hm : s.migrations i = some m) (hst : m.stage = .received) : s.wrote i = none := by
  rw [wrote, hm, Option.bind_some, hst]

theorem wrote_congr (h : s.migrations i = t.migrations i) : s.wrote i = t.wrote i := by rw [wrote, wrote, h]

/-- A later stage of a migration changes nothing that has been written. -/
theorem wrote_advance (hm : s.migrations i = some m) (hst : m.stage ≠ .received) (hst' : st ≠ .received) (j : Nat) :
    (s.advance i m st file).wrote j = s.wrote j := by
  by_cases hj : j = i
  · subst hj
    rw [wrote_of hm hst, wrote_of (put_self ..) hst']
  · exact wrote_congr (put_of_ne _ _ hj)

end Node

/-! ## What the file and the stubs hold -/

/-- The file is that of the last write, and a stub's state is that of its own write or of a later one. -/
structure Inv (s : Node) : Prop where
  fresh : ∀ i, s.next ≤ i → s.migrations i = none
  before : ∀ i inc n, s.wrote i = some (inc, n) → n < s.writes
  file : ∀ f, s.file = some f → ∃ inc n, s.wrote f.owner = some (inc, n) ∧ f.bytes = uckWriteStateFile inc ∧
    ∀ k inc' n', s.wrote k = some (inc', n') → k = f.owner ∨ n' < n
  source : ∀ k src r, s.restored k = some (src, r) → ∃ inc n, s.wrote src = some (inc, n) ∧
    uckRestore (uckWriteStateFile inc) = some r ∧ ∀ inc' n', s.wrote k = some (inc', n') → k = src ∨ n' < n

namespace Inv

theorem init : Inv .init where
  fresh _ _ := rfl
  before _ _ _ h := by cases h
  file _ h := by cases h
  source _ _ _ h := by cases h

theorem lt_next (h : Inv s) (hm : s.migrations i = some m) : i < s.next := by
  by_contra hi
  cases hm.symm.trans (h.fresh i (Nat.le_of_not_lt hi))

/-- The file of an invariant state, as a stub reads it. -/
theorem of_readFile (h : Inv s) {src : Nat} {r : Restored} (hr : s.readFile = some (src, r)) :
    ∃ inc n, s.wrote src = some (inc, n) ∧ uckRestore (uckWriteStateFile inc) = some r ∧
      ∀ k inc' n', s.wrote k = some (inc', n') → k = src ∨ n' < n := by
  simp only [Node.readFile, Option.bind_eq_some_iff, Option.map_eq_some_iff, Prod.mk.injEq] at hr
  obtain ⟨f, hf, r', hr, rfl, rfl⟩ := hr
  obtain ⟨inc, n, hw, hb, hlast⟩ := h.file f hf
  exact ⟨inc, n, hw, hb ▸ hr, hlast⟩

theorem accept (h : Inv s) (inc : Incoming) : Inv (s.accept inc) := by
  have hwrote : ∀ k, (s.accept inc).wrote k = s.wrote k := by
    intro k
    by_cases hk : k = s.next
    · subst hk
      rw [Node.wrote_of_received (Node.put_self ..) rfl, Node.wrote, h.fresh _ (Nat.le_refl _), Option.bind_none]
    · exact Node.wrote_congr (Node.put_of_ne _ _ hk)
  refine ⟨fun i hi => ?_, fun i => ?_, fun f => ?_, fun k src r hr => ?_⟩
  · have hlt : s.next < i := hi
    exact (Node.put_of_ne _ _ (Nat.ne_of_gt hlt)).trans (h.fresh i (Nat.le_of_lt hlt))
  · rw [hwrote]
    exact h.before i
  · simp only [hwrote]
    exact h.file f
  · simp only [hwrote]
    refine h.source k src r ?_
    by_cases hk : k = s.next
    · subst hk
      rw [Node.restored_of (Node.put_self ..)] at hr
      cases hr
    · rwa [Node.restored_congr (Node.put_of_ne _ _ hk)] at hr

/-- The last write is the greatest. -/
theorem writeFile (h : Inv s) (hm : s.migrations i = some m) (hst : m.stage = .received) :
    Inv (s.writeFile i m) := by
  have hself : (s.writeFile i m).wrote i = some (m.incoming, s.writes) := by
    rw [Node.wrote_of (Node.put_self ..) Stage.noConfusion]
  have hother : ∀ k, k ≠ i → (s.writeFile i m).wrote k = s.wrote k := fun k hk =>
    Node.wrote_congr (Node.put_of_ne _ _ hk)
  refine ⟨fun k hk => ?_, fun k inc n hw => ?_, fun f hf => ?_, fun k src r hr => ?_⟩
  · exact (Node.put_of_ne _ _ (Nat.ne_of_gt (Nat.lt_of_lt_of_le (h.lt_next hm) hk))).trans (h.fresh k hk)
  · by_cases hk : k = i
    · subst hk
      cases hself.symm.trans hw
      exact Nat.lt_succ_self _
    · rw [hother k hk] at hw
      exact Nat.lt_succ_of_lt (h.before k inc n hw)
  · cases hf
    refine ⟨m.incoming, s.writes, hself, rfl, fun k inc' n' hw => ?_⟩
    by_cases hk : k = i
    · exact .inl hk
    · rw [hother k hk] at hw
      exact .inr (h.before k inc' n' hw)
  · -- neither has the migration that writes a stub yet, nor has another stub its state
    have hk : k ≠ i := by
      rintro rfl
      rw [Node.restored_of (Node.put_self ..)] at hr
      cases hr
    rw [Node.restored_congr (Node.put_of_ne _ _ hk)] at hr
    obtain ⟨inc, n, hw, hres, hlast⟩ := h.source k src r hr
    have hsrc : src ≠ i := by
      rintro rfl
      cases hw.symm.trans (Node.wrote_of_received hm hst)
    rw [hother src hsrc, hother k hk]
    exact ⟨inc, n, hw, hres, hlast⟩

/-- A step of a migration that has written, which leaves the file or removes it. -/
theorem advance (h : Inv s) (hm : s.migrations i = some m) (hst : m.stage ≠ .received) (hst' : st ≠ .received)
    (hres : ∀ p, st.result = some p → s.restored i = some p ∨ s.readFile = some p)
    (hfile : ∀ f, file = some f → s.file = some f) : Inv (s.advance i m st file) := by
  have hwrote : ∀ k, (s.advance i m st file).wrote k = s.wrote k := Node.wrote_advance hm hst hst'
  refine ⟨fun k hk => ?_, fun k => ?_, fun f hf => ?_, fun k src r hr => ?_⟩
  · exact (Node.put_of_ne _ _ (Nat.ne_of_gt (Nat.lt_of_lt_of_le (h.lt_next hm) hk))).trans (h.fresh k hk)
  · rw [hwrote]
    exact h.before k
  · simp only [hwrote]
    exact h.file f (hfile f hf)
  · simp only [hwrote]
    by_cases hk : k = i
    · subst hk
      rw [Node.restored_of (Node.put_self ..)] at hr
      obtain hold | hread := hres _ hr
      · exact h.source k src r hold
      · obtain ⟨inc, n, hw, hr', hlast⟩ := h.of_readFile hread
        exact ⟨inc, n, hw, hr', hlast k⟩
    · rw [Node.restored_congr (Node.put_of_ne _ _ hk)] at hr
      exact h.source k src r hr

theorem step (h : Inv s) (hs : Step s ev t) : Inv t := by
  cases hs with
  | receive inc => exact h.accept inc
  | write hm hst => exact h.writeFile hm hst
  | launch hm hst => exact h.advance hm (hst ▸ nofun) nofun nofun fun _ hf => hf
  | read hm hst =>
    refine h.advance hm (hst ▸ nofun) (by cases s.readFile <;> nofun) (fun p hp => .inr ?_) fun _ hf => hf
    cases hread : s.readFile with
    | none =>
      rw [hread] at hp
      cases hp
    | some q =>
      rw [hread] at hp
      exact hp
  | unlink hm hst =>
    refine h.advance hm (hst ▸ nofun) nofun (fun p hp => .inl ?_) nofun
    rw [Node.restored_of hm, hst]
    exact hp

end Inv

/-! ## Doomed migrations -/

/-- The stub will not restore, or has not restored, the state of its own migration `i`. -/
def Stage.Doomed (i : Nat) (file : Option File) : Stage → Prop
  | .received => False
  | .written | .launched => ∀ f ∈ file, f.owner ≠ i
  | .read src _ | .finished src _ => src ≠ i
  | .failed => True

namespace Stage

/-- The file becomes another one, or is removed. -/
theorem doomed_replace {file file' : Option File} (h : ∀ f ∈ file', f.owner ≠ i) (st : Stage) :
    st.Doomed i file' ↔ st.Doomed i file ∨ (st.Unread ∧ ∃ f ∈ file, f.owner = i) := by
  cases st with
  | written | launched =>
    simp only [Doomed, Unread, true_and]
    refine ⟨fun _ => ?_, fun _ => h⟩
    by_cases hf : ∃ f ∈ file, f.owner = i
    · exact .inr hf
    · exact .inl fun f hmem heq => hf ⟨f, hmem, heq⟩
  | received | read | finished | failed => simp only [Doomed, Unread, false_and, or_false]

theorem not_doomed_of_unread {file : Option File} {f : File} (hf : f ∈ file) (ho : f.owner = i) {st : Stage}
    (hu : st.Unread) : ¬ st.Doomed i file := by
  cases st with
  | written | launched => exact fun h => h f hf ho
  | received | read | finished | failed => cases hu

end Stage

namespace Node

def doomed (s : Node) : Set Nat := {i | ∃ m ∈ s.migrations i, m.stage.Doomed i s.file}

/-- The migrations that a step dooms: at most the one that wrote the file. -/
def lost (s : Node) (ev : Event) : Set Nat := {i | ∃ f ∈ s.file, f.owner = i ∧ s.Loses ev f}

theorem lost_eq_empty_iff : s.lost ev = ∅ ↔ s.Keeps ev := by
  rw [Set.eq_empty_iff_forall_notMem]
  constructor
  · intro h f hf hl
    exact h f.owner ⟨f, hf, rfl, hl⟩
  · rintro h i ⟨f, hf, -, hl⟩
    exact h f hf hl

theorem mem_doomed_of (hm : s.migrations i = some m) : i ∈ s.doomed ↔ m.stage.Doomed i s.file := by
  simp only [doomed, Set.mem_ofPred_eq, hm, Option.mem_some_iff, exists_eq_left']

theorem unread_of (hm : s.migrations i = some m) : s.Unread i ↔ m.stage.Unread := by
  simp only [Unread, hm, Option.mem_some_iff, exists_eq_left']

theorem mem_doomed_congr (hm : t.migrations i = s.migrations i) (hf : t.file = s.file) :
    i ∈ t.doomed ↔ i ∈ s.doomed := by
  simp only [doomed, Set.mem_ofPred_eq, hm, hf]

theorem mem_doomed_replace (hm : t.migrations i = s.migrations i) (hf : ∀ f ∈ t.file, f.owner ≠ i) :
    i ∈ t.doomed ↔ i ∈ s.doomed ∨ ∃ f ∈ s.file, f.owner = i ∧ s.Unread f.owner := by
  have hunread : (∃ f ∈ s.file, f.owner = i ∧ s.Unread f.owner) ↔ s.Unread i ∧ ∃ f ∈ s.file, f.owner = i := by
    constructor
    · rintro ⟨f, hmem, rfl, hu⟩
      exact ⟨hu, f, hmem, rfl⟩
    · rintro ⟨hu, f, hmem, rfl⟩
      exact ⟨f, hmem, rfl, hu⟩
  rw [hunread]
  cases hs : s.migrations i with
  | none => simp [doomed, Unread, hm, hs]
  | some m => rw [mem_doomed_of (hm.trans hs), mem_doomed_of hs, unread_of hs, Stage.doomed_replace hf]

end Node

/-- A stub that reads the file. -/
theorem doomed_ofRead (s : Node) (i : Nat) : (Stage.ofRead s.readFile).Doomed i s.file ↔
    Stage.launched.Doomed i s.file ∨ ∃ f ∈ s.file, f.owner = i ∧ s.Loses (.read i) f := by
  rw [Node.readFile]
  cases hf : s.file with
  | none => simp [Stage.ofRead, Stage.Doomed]
  | some f =>
    cases hr : uckRestore f.bytes with
    | none => simp [Stage.ofRead, Stage.Doomed, Node.Loses, hr, eq_comm, em']
    | some r => simp [Stage.ofRead, Stage.Doomed, Node.Loses, hr]

theorem doomed_step (h : Inv s) (hs : Step s ev t) : t.doomed = s.doomed ∪ s.lost ev := by
  ext j
  rw [Set.mem_union]
  cases hs with
  | receive inc =>
    rw [or_iff_left (by rintro ⟨f, -, -, hl⟩; exact hl)]
    by_cases hj : j = s.next
    · subst hj
      rw [Node.mem_doomed_of (Node.put_self ..)]
      simp [Stage.Doomed, Node.doomed, h.fresh _ (Nat.le_refl _)]
    · exact Node.mem_doomed_congr (Node.put_of_ne _ _ hj) rfl
  | @write i m hm hst =>
    by_cases hj : j = i
    · subst hj
      have hnew : j ∉ (s.writeFile j m).doomed := by
        rw [Node.mem_doomed_of (Node.put_self ..)]
        exact fun hd => hd _ rfl rfl
      refine iff_of_false hnew ?_
      rintro (hd | ⟨f, -, rfl, hl⟩)
      · rw [Node.mem_doomed_of hm, hst] at hd
        exact hd
      · have hu := (Node.unread_of hm).1 hl
        rw [hst] at hu
        exact hu
    · refine Node.mem_doomed_replace (Node.put_of_ne _ _ hj) fun f hf => ?_
      cases hf
      exact Ne.symm hj
  | @launch i m hm hst =>
    rw [or_iff_left (by rintro ⟨f, -, -, hl⟩; exact hl)]
    by_cases hj : j = i
    · subst hj
      rw [Node.mem_doomed_of (Node.put_self ..), Node.mem_doomed_of hm, hst]
      rfl
    · exact Node.mem_doomed_congr (Node.put_of_ne _ _ hj) rfl
  | @read i m hm hst =>
    by_cases hj : j = i
    · subst hj
      rw [Node.mem_doomed_of (Node.put_self ..), Node.mem_doomed_of hm, hst]
      exact doomed_ofRead s j
    · rw [or_iff_left (by rintro ⟨f, -, rfl, hl⟩; exact hj hl.1.symm)]
      exact Node.mem_doomed_congr (Node.put_of_ne _ _ hj) rfl
  | @unlink i src r m hm hst =>
    by_cases hj : j = i
    · subst hj
      rw [Node.mem_doomed_of (Node.put_self ..), Node.mem_doomed_of hm, hst, or_iff_left]
      · rfl
      · rintro ⟨f, -, rfl, hl⟩
        have hu := (Node.unread_of hm).1 hl
        rw [hst] at hu
        exact hu
    · exact Node.mem_doomed_replace (Node.put_of_ne _ _ hj) nofun

/-- Until then, the migration was not doomed. -/
theorem not_doomed_of_lost (hs : Step s ev t) (hi : i ∈ s.lost ev) : i ∉ s.doomed := by
  obtain ⟨f, hf, rfl, hl⟩ := hi
  have hu : s.Unread f.owner := by
    cases hs with
    | receive | launch => cases hl
    | write | unlink => exact hl
    | read hm hst =>
      obtain ⟨rfl, -⟩ := hl
      rw [Node.unread_of hm, hst]
      trivial
  obtain ⟨m, hm, hu⟩ := hu
  rw [Node.mem_doomed_of hm]
  exact Stage.not_doomed_of_unread hf rfl hu

/-- No migration is doomed along a run, if every step keeps the file for its stub; and otherwise one is at its end. -/
theorem doomed_eq_empty_iff {es : List Event} (hr : run step .init es = some t) :
    t.doomed = ∅ ↔ EachStep step Node.Keeps .init es := by
  have hinit : Node.doomed .init = ∅ := by
    simp [Node.doomed, Node.init]
  rw [← hinit]
  refine (eachStep_iff_of_run Inv (fun s ev t h hs => ?_) Inv.init hr).2
  have hs := Step.of_step hs
  rw [doomed_step h hs, ← Node.lost_eq_empty_iff]
  refine ⟨h.step hs, Set.subset_union_left, ?_⟩
  rw [Set.union_eq_left]
  constructor
  · intro hsub
    exact Set.eq_empty_iff_forall_notMem.2 fun i hi => not_doomed_of_lost hs hi (hsub hi)
  · intro hempty
    rw [hempty]
    exact Set.empty_subset _

/-! ## Complete runs -/

theorem not_received (hc : s.Complete) (hm : s.migrations i = some m) : m.stage ≠ .received := by
  intro hst
  have hover := hc i m hm
  rw [hst] at hover
  exact hover

/-- At the end, the stub of a migration that is not doomed has restored it. -/
theorem restored_iff_of_complete (hc : s.Complete) (hm : s.migrations i = some m) :
    i ∉ s.doomed ↔ ∃ r, s.restored i = some (i, r) := by
  have hover := hc i m hm
  rw [Node.mem_doomed_of hm, Node.restored_of hm]
  cases hst : m.stage with
  | finished src r => simp [Stage.Doomed, Stage.result]
  | failed => simp [Stage.Doomed, Stage.result]
  | received | written | launched | read =>
    rw [hst] at hover
    cases hover

/-- A migration that is restored by another's stub was written after that other, which is doomed as well: there is no
first one. -/
theorem not_doomed_of_unmixed (h : Inv s) (hc : s.Complete) (hu : s.Unmixed) (n : Nat) :
    ∀ i inc, s.wrote i = some (inc, n) → i ∉ s.doomed := by
  induction n using Nat.strongRecOn with
  | ind n ih =>
    intro i inc hw hd
    obtain ⟨m, hm, -⟩ := id hd
    obtain ⟨⟨k, ⟨r, hk⟩, -⟩, -⟩ := hu i m hm
    have hki : k ≠ i := by
      rintro rfl
      exact (restored_iff_of_complete hc hm).2 ⟨r, hk⟩ hd
    obtain ⟨mk, hmk, -⟩ := Option.bind_eq_some_iff.1 hk
    have hwk := Node.wrote_of hmk (not_received hc hmk)
    obtain ⟨inc', n', hw', -, hlast⟩ := h.source k i r hk
    cases hw.symm.trans hw'
    have hlt := (hlast _ _ hwk).resolve_left hki
    obtain ⟨r', hr'⟩ := (restored_iff_of_complete hc hmk).1 (ih mk.writtenAt hlt k mk.incoming hwk)
    cases hk.symm.trans hr'
    exact hki rfl

theorem unmixed_iff_doomed (h : Inv s) (hc : s.Complete) : s.Unmixed ↔ s.doomed = ∅ := by
  rw [Set.eq_empty_iff_forall_notMem]
  constructor
  · intro hu i hd
    obtain ⟨m, hm, -⟩ := id hd
    exact not_doomed_of_unmixed h hc hu m.writtenAt i m.incoming (Node.wrote_of hm (not_received hc hm)) hd
  · intro hd i m hm
    have hown : ∀ k src r, s.restored k = some (src, r) → k = src := by
      intro k src r hk
      obtain ⟨mk, hmk, -⟩ := Option.bind_eq_some_iff.1 hk
      obtain ⟨r', hr'⟩ := (restored_iff_of_complete hc hmk).1 (hd k)
      cases hk.symm.trans hr'
      rfl
    obtain ⟨r, hr⟩ := (restored_iff_of_complete hc hm).1 (hd i)
    refine ⟨⟨i, ⟨r, hr⟩, fun k ⟨r', hk⟩ => hown k i r' hk⟩, fun k r' hk => ?_⟩
    obtain ⟨inc, n, hw, hres, -⟩ := h.source k i r' hk
    cases (Node.wrote_of hm (not_received hc hm)).symm.trans hw
    exact hres

/-- **Concurrent migrations.** When all of them and their stubs are through, every process has been restored by exactly
one stub, from its own state, just if no step took a state away from its stub. -/
theorem migrations_unmixed_iff (es : List Event) (hr : run step .init es = some t) (hc : t.Complete) :
    t.Unmixed ↔ EachStep step Node.Keeps .init es := by
  have h : Inv t := run_inv Inv (fun s ev t h hs => h.step (.of_step hs)) Inv.init hr
  rw [unmixed_iff_doomed h hc, doomed_eq_empty_iff hr]

/-! ## Processes without pages -/

def process (pid : UInt32) : Snapshot := { oneThread [] with pid := pid }

def arriving (pid : UInt32) : Incoming := ⟨ProcStateHdr.codec.enc (process pid).hdr, (process pid).descs, [], 256⟩

def copy (pid : UInt32) : Restored :=
  ⟨(process pid).hdr, [], [], pageRecord.decUpTo (loopBound 7) ((process pid).fileTail 0)⟩

theorem uckRestore_arriving (pid : UInt32) : uckRestore (uckWriteStateFile (arriving pid)) = some (copy pid) := by
  refine uckRestore_file (s := process pid) ?_ (Nat.zero_le _) 256
  rw [length_buf, length_descs]
  exact (by decide : 200 + (296 * 0 + 272 * 0 + 168 * 1) < 2 ^ 32)

theorem step_read {inc : Incoming} {r : Restored} (hm : s.migrations i = some m) (hst : m.stage = .launched)
    (hf : s.file = some ⟨j, uckWriteStateFile inc⟩) (hr : uckRestore (uckWriteStateFile inc) = some r) :
    step s (.read i) = some (s.advance i m (.read j r) s.file) := by
  simp only [step, hm, hst, Node.readFile, hf, hr, Option.bind_some, Option.map_some, Stage.ofRead]

/-- Two migrations are received; the second writes its state when the first one's stub is through. -/
def inTurn : List Event :=
  [.receive (arriving 1), .receive (arriving 2), .write 0, .launch 0, .read 0, .unlink 0, .write 1, .launch 1, .read 1,
    .unlink 1]

def inTurnEnd : Node where
  migrations := Function.update (Function.update (fun _ => none) 0 (some ⟨arriving 1, .finished 0 (copy 1), 0⟩)) 1
    (some ⟨arriving 2, .finished 1 (copy 2), 1⟩)
  next := 2
  file := none
  writes := 2

theorem run_inTurn : run step .init inTurn = some inTurnEnd := by
  refine (run_cons rfl _).trans <| (run_cons rfl _).trans <| (run_cons rfl _).trans <| (run_cons rfl _).trans ?_
  refine (run_cons (step_read rfl rfl rfl (uckRestore_arriving 1)) _).trans <| (run_cons rfl _).trans ?_
  refine (run_cons rfl _).trans <| (run_cons rfl _).trans ?_
  refine (run_cons (step_read rfl rfl rfl (uckRestore_arriving 2)) _).trans <| (run_cons rfl _).trans ?_
  simp only [run, inTurnEnd, Node.init, Node.accept, Node.put, Node.writeFile, Node.advance, Function.update_idem,
    Function.update_comm Nat.one_ne_zero, Nat.zero_add]

theorem two_migrations_unmixed : run step .init inTurn = some inTurnEnd ∧ inTurnEnd.Unmixed := by
  refine ⟨run_inTurn, (migrations_unmixed_iff inTurn run_inTurn ?_).2 ?_⟩
  · intro i m hm
    by_cases h1 : i = 1
    · obtain rfl : m = ⟨arriving 2, .finished 1 (copy 2), 1⟩ := by simpa [inTurnEnd, h1, eq_comm] using hm
      trivial
    · obtain ⟨-, rfl⟩ : i = 0 ∧ m = ⟨arriving 1, .finished 0 (copy 1), 0⟩ := by
        simpa [inTurnEnd, Function.update_apply, h1, eq_comm] using hm
      trivial
  · simp [EachStep, step, inTurn, Node.init, Node.accept, Node.put, Node.writeFile, Node.advance, Node.readFile,
      Stage.ofRead, uckRestore_arriving, Node.Keeps, Node.Loses, Node.Unread, Stage.Unread]

/-- Two migrations write, and only then do their stubs read. -/
def overlap : List Event :=
  [.receive (arriving 1), .receive (arriving 2), .write 0, .write 1, .launch 0, .launch 1, .read 0, .read 1, .unlink 0,
    .unlink 1]

def overlapEnd : Node where
  migrations := Function.update (Function.update (fun _ => none) 0 (some ⟨arriving 1, .finished 1 (copy 2), 0⟩)) 1
    (some ⟨arriving 2, .finished 1 (copy 2), 1⟩)
  next := 2
  file := none
  writes := 2

theorem run_overlap : run step .init overlap = some overlapEnd := by
  refine (run_cons rfl _).trans <| (run_cons rfl _).trans <| (run_cons rfl _).trans <| (run_cons rfl _).trans ?_
  refine (run_cons rfl _).trans <| (run_cons rfl _).trans ?_
  refine (run_cons (step_read rfl rfl rfl (uckRestore_arriving 2)) _).trans ?_
  refine (run_cons (step_read rfl rfl rfl (uckRestore_arriving 2)) _).trans ?_
  refine (run_cons rfl _).trans <| (run_cons rfl _).trans ?_
  simp only [run, overlapEnd, Node.init, Node.accept, Node.put, Node.writeFile, Node.advance, Function.update_idem,
    Function.update_comm Nat.one_ne_zero, Nat.zero_add]

/-- Both stubs restore the second process. -/
theorem both_stubs_restore_one : run step .init overlap = some overlapEnd ∧ overlapEnd.Complete ∧
    overlapEnd.restored 0 = some (1, copy 2) ∧ overlapEnd.restored 1 = some (1, copy 2) ∧ ¬ overlapEnd.Unmixed := by
  refine ⟨run_overlap, ?_, rfl, rfl, ?_⟩
  · intro i m hm
    simp only [overlapEnd, Function.update_apply, Option.mem_def] at hm
    split at hm
    · cases hm
      trivial
    · split at hm
      · cases hm
        trivial
      · cases hm
  · intro h
    -- the first process would have a stub of its own
    obtain ⟨⟨k, ⟨r, hk⟩, -⟩, -⟩ := h 0 _ rfl
    simp only [Node.restored, overlapEnd, Function.update_apply] at hk
    split at hk
    · cases hk
    · split at hk
      · cases hk
      · cases hk

end UckSmp.Migrate.StateFile
