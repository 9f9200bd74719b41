import Mathlib.Data.List.Basic
import Mathlib.Order.Basic

/-!
# Event-driven systems and their runs

A system is a step function `step : σ → ε → Option σ`: all choices of a scheduler, a network or an allocator are in
the event, and `none` says that the event is not enabled. `run` takes a list of events; `EachStep Q` says that every
event taken along the run is taken in a state where `Q` holds of it, `Always P` that every state reached has `P`.

* `Reaches`: there is a run from one state to another.
* `run_inv`: what every step keeps holds at the end of every run.
* `Always.of_eachStep`: an invariant that the steps meeting a guard keep holds along every run that meets the guard.
* `run_simulates`: a run of one system is followed by a run of another, which some steps leave where it is.
* `run_foldl`: what a run makes of an observation of the state, from what a step makes of it.
* `EachStep.of_inv`: what an invariant promises of every step holds of every step of a run.
* `always_iff_of_inv`, `always_iff_eachStep`: when the guard is exactly what keeps `P`, the runs that meet it are the
  runs that keep `P`.
* `eachStep_iff_of_run`: a quantity that no step lowers, and that stays the same exactly in the steps that meet the
  guard.
* `observe`: a history is kept beside the state; `eachStep_observe`: the guards see nothing of it.
-/

namespace Lib.Transition

variable {σ ε : Type*} {step : σ → ε → Option σ} {P Inv : σ → Prop} {G Q : σ → ε → Prop} {s t : σ}

/-- The state after a list of events. -/
def run (step : σ → ε → Option σ) : σ → List ε → Option σ
  | s, [] => some s
  | s, e :: es => (step s e).bind fun t => run step t es

theorem run_cons {e : ε} (h : step s e = some t) (es : List ε) : run step s (e :: es) = run step t es := by
  rw [run, h, Option.bind_some]

theorem run_append {u : σ} {es : List ε} (h : run step s es = some t) {fs : List ε} (hu : run step t fs = some u) :
    run step s (es ++ fs) = some u := by
  induction es generalizing s with
  | nil =>
    cases h
    exact hu
  | cons e es ih =>
    obtain ⟨v, hv, h⟩ := Option.bind_eq_some_iff.1 h
    rw [List.cons_append, run_cons hv, ih h]

/-- A state is reached from another one by some run. -/
def Reaches (step : σ → ε → Option σ) (s t : σ) : Prop := ∃ es, run step s es = some t

theorem Reaches.refl (s : σ) : Reaches step s s := ⟨[], rfl⟩

theorem Reaches.of_step {e : ε} (h : step s e = some t) : Reaches step s t := ⟨[e], run_cons h []⟩

theorem Reaches.trans {u : σ} (h : Reaches step s t) (hu : Reaches step t u) : Reaches step s u := by
  obtain ⟨es, h⟩ := h
  obtain ⟨fs, hu⟩ := hu
  exact ⟨es ++ fs, run_append h hu⟩

/-- Every event of the run is taken in a state where `Q` holds of it. -/
def EachStep (step : σ → ε → Option σ) (Q : σ → ε → Prop) : σ → List ε → Prop
  | _, [] => True
  | s, e :: es => Q s e ∧ ∀ t, step s e = some t → EachStep step Q t es

instance EachStep.decidable [∀ s e, Decidable (Q s e)] : ∀ (s : σ) (es : List ε), Decidable (EachStep step Q s es)
  | _, [] => .isTrue trivial
  | s, e :: es =>
    match h : step s e with
    | none => decidable_of_iff (Q s e) (by simp [EachStep, h])
    | some t =>
      have := EachStep.decidable t es
      decidable_of_iff (Q s e ∧ EachStep step Q t es) (by simp [EachStep, h])

/-- `P` holds in every state of the run, the first one included. -/
def Always (step : σ → ε → Option σ) (P : σ → Prop) : σ → List ε → Prop
  | s, [] => P s
  | s, e :: es => P s ∧ ∀ t, step s e = some t → Always step P t es

theorem Always.head {es : List ε} (h : Always step P s es) : P s := by
  cases es with
  | nil => exact h
  | cons e es => exact h.1

/-- A property of every state of the run is a property of its last state. -/
theorem Always.last {es : List ε} (h : Always step P s es) (hr : run step s es = some t) : P t := by
  induction es generalizing s with
  | nil => cases hr; exact h
  | cons e es ih =>
    simp only [run, Option.bind_eq_some_iff] at hr
    obtain ⟨u, hu, hr⟩ := hr
    exact ih (h.2 u hu) hr

theorem Always.get {es : List ε} (h : Always step P s es) (hr : (run step s es).isSome) : P ((run step s es).get hr) :=
  h.last (Option.some_get hr).symm

/-- An invariant of the steps holds at the end of a run. -/
theorem run_inv (Inv : σ → Prop) (hstep : ∀ s e t, Inv s → step s e = some t → Inv t) {es : List ε} (h0 : Inv s)
    (hr : run step s es = some t) : Inv t := by
  induction es generalizing s with
  | nil => cases hr; exact h0
  | cons e es ih =>
    simp only [run, Option.bind_eq_some_iff] at hr
    obtain ⟨u, hu, hr⟩ := hr
    exact ih (hstep s e u h0 hu) hr

/-- A simulation in which an event becomes one event of the other system or none. -/
theorem run_simulates {τ δ : Type*} {step' : τ → δ → Option τ} (R : σ → τ → Prop) (f : ε → Option δ)
    (hstep : ∀ s e t u, R s u → step s e = some t → ∃ v, run step' u (f e).toList = some v ∧ R t v) {es : List ε}
    {u : τ} (h0 : R s u) (hr : run step s es = some t) : ∃ v, run step' u (es.filterMap f) = some v ∧ R t v := by
  induction es generalizing s u with
  | nil =>
    cases hr
    exact ⟨u, rfl, h0⟩
  | cons e es ih =>
    simp only [run, Option.bind_eq_some_iff] at hr
    obtain ⟨s', hs', hr⟩ := hr
    obtain ⟨u', hu', h'⟩ := hstep s e s' u h0 hs'
    obtain ⟨v, hv, h⟩ := ih h' hr
    refine ⟨v, ?_, h⟩
    cases hf : f e with
    | none =>
      rw [hf] at hu'
      cases hu'
      rw [List.filterMap_cons_none hf]
      exact hv
    | some d =>
      rw [hf] at hu'
      simp only [Option.toList_some, run, Option.bind_eq_some_iff] at hu'
      obtain ⟨w, hw, hwu⟩ := hu'
      cases hwu
      simp only [List.filterMap_cons_some hf, run, hw, Option.bind_some]
      exact hv

/-- The invariant rule. -/
theorem Always.of_eachStep (Inv : σ → Prop) (hstep : ∀ s e t, Inv s → G s e → step s e = some t → Inv t)
    (hP : ∀ s, Inv s → P s) {es : List ε} (h0 : Inv s) (hg : EachStep step G s es) : Always step P s es := by
  induction es generalizing s with
  | nil => exact hP s h0
  | cons e es ih => exact ⟨hP s h0, fun t ht => ih (hstep s e t h0 hg.1 ht) (hg.2 t ht)⟩

/-- What an observation of the state becomes along a run, when one step of an invariant state takes it from `x` to
`upd x e`. -/
theorem run_foldl {α : Type*} (Inv : σ → Prop) (obs : σ → α) {upd : α → ε → α}
    (hstep : ∀ s e t, Inv s → step s e = some t → Inv t ∧ obs t = upd (obs s) e) {es : List ε} (h0 : Inv s)
    (hr : run step s es = some t) : Inv t ∧ obs t = es.foldl upd (obs s) := by
  induction es generalizing s with
  | nil => cases hr; exact ⟨h0, rfl⟩
  | cons e es ih =>
    simp only [run, Option.bind_eq_some_iff] at hr
    obtain ⟨u, hu, hr⟩ := hr
    obtain ⟨hi, hx⟩ := hstep s e u h0 hu
    obtain ⟨ht, hobs⟩ := ih hi hr
    exact ⟨ht, by rw [hobs, hx, List.foldl_cons]⟩

/-- An invariant promises `Q` of every step that meets the guard. -/
theorem EachStep.of_inv (Inv : σ → Prop) (hstep : ∀ s e t, Inv s → G s e → step s e = some t → Inv t)
    (hQ : ∀ s e, Inv s → G s e → Q s e) {es : List ε} (h0 : Inv s) (hg : EachStep step G s es) :
    EachStep step Q s es := by
  induction es generalizing s with
  | nil => trivial
  | cons e es ih => exact ⟨hQ s e h0 hg.1, fun t ht => ih (hstep s e t h0 hg.1 ht) (hg.2 t ht)⟩

theorem EachStep.and {es : List ε} (hg : EachStep step G s es) (hq : EachStep step Q s es) :
    EachStep step (fun s e => G s e ∧ Q s e) s es := by
  induction es generalizing s with
  | nil => trivial
  | cons e es ih => exact ⟨⟨hg.1, hq.1⟩, fun t ht => ih (hg.2 t ht) (hq.2 t ht)⟩

theorem EachStep.cons {e : ε} {es : List ε} (h : step s e = some t) (hq : Q s e) (hs : EachStep step Q t es) :
    EachStep step Q s (e :: es) :=
  ⟨hq, fun u hu => by cases h.symm.trans hu; exact hs⟩

/-- A guard that the events meet in any state. -/
theorem EachStep.of_forall {es : List ε} (h : ∀ s, ∀ e ∈ es, Q s e) : EachStep step Q s es := by
  induction es generalizing s with
  | nil => trivial
  | cons e es ih =>
    exact ⟨h s e List.mem_cons_self, fun t _ => ih fun s e he => h s e (List.mem_cons_of_mem _ he)⟩

/-- A quantity that grows by at most one in a step stays below a bound that leaves room for all steps. -/
theorem EachStep.of_measure {m : σ → Nat} (hm : ∀ s e t, step s e = some t → m t ≤ m s + 1) {b : Nat} {es : List ε}
    (hb : m s + es.length ≤ b) : EachStep step (fun s _ => m s < b) s es := by
  induction es generalizing s with
  | nil => trivial
  | cons e es ih =>
    rw [List.length_cons] at hb
    refine ⟨by omega, fun t ht => ih ?_⟩
    have hle := hm s e t ht
    omega

/-- When a step from an invariant state keeps the invariant if it meets the guard, and breaks `P` if it does not, the
runs along which `P` holds are the guarded ones. Steps that are not enabled meet the guard. -/
theorem always_iff_of_inv (Inv : σ → Prop) {H : σ → ε → Prop} (hP : ∀ s, Inv s → P s)
    (hex : ∀ s e t, Inv s → H s e → step s e = some t → (G s e → Inv t) ∧ (P t → G s e))
    (hdis : ∀ s e, step s e = none → G s e) {es : List ε} (h0 : Inv s) (hH : EachStep step H s es) :
    Always step P s es ↔ EachStep step G s es := by
  induction es generalizing s with
  | nil => simp [Always, EachStep, hP s h0]
  | cons e es ih =>
    simp only [Always, EachStep, hP s h0, true_and]
    cases hs : step s e with
    | none => simp [hdis s e hs]
    | some t =>
      simp only [Option.some.injEq, forall_eq']
      obtain ⟨hkeep, hbreak⟩ := hex s e t h0 hH.1 hs
      constructor
      · intro h
        have hg := hbreak h.head
        exact ⟨hg, (ih (hkeep hg) (hH.2 t hs)).1 h⟩
      · rintro ⟨hg, h⟩
        exact (ih (hkeep hg) (hH.2 t hs)).2 h

/-- The case where `P` is its own invariant. -/
theorem always_iff_eachStep (hex : ∀ s e t, P s → step s e = some t → (G s e ↔ P t))
    (hdis : ∀ s e, step s e = none → G s e) {es : List ε} (h0 : P s) :
    Always step P s es ↔ EachStep step G s es :=
  always_iff_of_inv P (H := fun _ _ => True) (fun _ h => h)
    (fun s e t h _ hs => ⟨(hex s e t h hs).1, (hex s e t h hs).2⟩) hdis h0 (.of_forall fun _ _ _ => trivial)

/-- Along a run, a quantity that no step lowers is the same at the end as at the beginning exactly if it stays the same
in every step. -/
theorem eachStep_iff_of_run {α : Type*} [PartialOrder α] (Inv : σ → Prop) {m : σ → α}
    (hstep : ∀ s e t, Inv s → step s e = some t → Inv t ∧ m s ≤ m t ∧ (m t = m s ↔ G s e)) {es : List ε} (h0 : Inv s)
    (hr : run step s es = some t) : m s ≤ m t ∧ (m t = m s ↔ EachStep step G s es) := by
  induction es generalizing s with
  | nil =>
    cases hr
    exact ⟨le_refl _, fun _ => trivial, fun _ => rfl⟩
  | cons e es ih =>
    simp only [run, Option.bind_eq_some_iff] at hr
    obtain ⟨u, hu, hr⟩ := hr
    obtain ⟨hi, hle, hg⟩ := hstep s e u h0 hu
    obtain ⟨hle', hg'⟩ := ih hi hr
    refine ⟨le_trans hle hle', ?_⟩
    simp only [EachStep, hu, Option.some.injEq, forall_eq', ← hg, ← hg']
    constructor
    · intro h
      have hum : m u = m s := le_antisymm (h ▸ hle') hle
      exact ⟨hum, h.trans hum.symm⟩
    · rintro ⟨hum, htu⟩
      exact htu.trans hum

/-! ## Histories -/

section Observe

variable {α : Type*} {upd : σ → ε → σ → α → α}

/-- The system with a history beside its state, which every step brings up to date. -/
def observe (step : σ → ε → Option σ) (upd : σ → ε → σ → α → α) (p : σ × α) (e : ε) : Option (σ × α) :=
  (step p.1 e).map fun t => (t, upd p.1 e t p.2)

theorem observe_eq_some {p q : σ × α} {e : ε} (h : observe step upd p e = some q) :
    step p.1 e = some q.1 ∧ q.2 = upd p.1 e q.1 p.2 := by
  obtain ⟨t, ht, rfl⟩ := Option.map_eq_some_iff.1 h
  exact ⟨ht, rfl⟩

theorem eachStep_observe (upd : σ → ε → σ → α → α) (a : α) {es : List ε} :
    EachStep (observe step upd) (fun p e => Q p.1 e) (s, a) es ↔ EachStep step Q s es := by
  induction es generalizing s a with
  | nil => rfl
  | cons e es ih =>
    simp only [EachStep, observe]
    cases hs : step s e with
    | none => simp
    | some t => simp [ih]

end Observe

end Lib.Transition
