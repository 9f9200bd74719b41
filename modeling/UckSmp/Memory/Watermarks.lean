import UckSmp.Lib.Transition
import UckSmp.Memory.Memctl

/-!
# The watermarks of the memory limit

`uck_memctl_can_alloc` reports when the usage is above 70, 80 or 90 percent of the limit, and remembers that it did;
`uck_memctl_account_free` forgets it when the usage is below the level again. The limit is computed when it is asked for
and zero, from the memory of the machine and a parameter, which may both be others the next time.

* `alert_warn`, `unalert_warn`: which watermarks are set after a report and after a release.
* `watermarks_rearm`: what holds of them in every run.
-/

namespace UckSmp.Memory.Memctl

open Lib.Transition

/-! ## Calls -/

inductive Level
  | p70
  | p80
  | p90
  deriving DecidableEq, Repr

def Level.pct : Level → Nat
  | .p70 => 70
  | .p80 => 80
  | .p90 => 90

/-- The watermark of a level. -/
def warn (m : Memctl) : Level → Bool
  | .p70 => m.warn70
  | .p80 => m.warn80
  | .p90 => m.warn90

inductive Ev
  | canAlloc (totalram pct nrPages : Nat)
  | accountAlloc (nrPages : Nat)
  | accountFree (nrPages : Nat)
  deriving DecidableEq, Repr

def step (m : Memctl) : Ev → Option Memctl
  | .canAlloc totalram pct nrPages => some (m.uckMemctlCanAlloc totalram pct nrPages).2
  | .accountAlloc nrPages => some (m.uckMemctlAccountAlloc nrPages)
  | .accountFree nrPages => some (m.uckMemctlAccountFree nrPages)

/-- The level that is reported when pages are allowed. -/
def alerted (m : Memctl) : Option Level :=
  if m.warn90 = false ∧ m.mark 90 < m.currentPagesTotal then some .p90
  else if m.warn80 = false ∧ m.mark 80 < m.currentPagesTotal then some .p80
  else if m.warn70 = false ∧ m.mark 70 < m.currentPagesTotal then some .p70
  else none

/-- The alert that a call issues. -/
def issued (m : Memctl) : Ev → Option Level
  | .canAlloc totalram pct nrPages =>
    if (m.uckMemctlCanAlloc totalram pct nrPages).1 then (m.withLimit totalram pct).alerted else none
  | _ => none

/-- The counter of the pages does not wrap. -/
def NoWrap (m : Memctl) : Ev → Prop
  | .accountAlloc nrPages => m.currentPagesTotal + nrPages < 2 ^ 64
  | _ => True

instance (m : Memctl) (e : Ev) : Decidable (m.NoWrap e) :=
  match e with
  | .canAlloc .. => .isTrue trivial
  | .accountAlloc _ => inferInstanceAs (Decidable (_ < _))
  | .accountFree _ => .isTrue trivial

/-- The limit that a call computes. -/
def Ev.limit : Ev → Option Nat
  | .canAlloc totalram pct _ => some (totalram * pct % 2 ^ 64 / 100)
  | _ => none

/-- The memory of the machine and the parameter give the same limit at every call. -/
def SameLimit (es : List Ev) : Prop := ∃ limit, ∀ e ∈ es, ∀ l ∈ e.limit, l = limit

/-- A call that finds a limit of zero compares it with a sum that does not wrap. -/
def SumFits (m : Memctl) : Ev → Prop
  | .canAlloc totalram pct nrPages =>
    (m.withLimit totalram pct).maxPagesTotal = 0 → m.currentPagesTotal + nrPages < 2 ^ 64
  | _ => True

variable {m m' : Memctl} {p : Level} {e : Ev}

/-! ## Levels -/

/-- The limit is a hundredth of a 64-bit number, so the levels do not wrap and are in order. -/
theorem mark_le_mark (h : m.maxPagesTotal ≤ 2 ^ 64 / 100) {a b : Nat} (hab : a ≤ b) (hb : b ≤ 100) :
    m.mark a ≤ m.mark b := by
  have hmul : ∀ c, c ≤ 100 → m.maxPagesTotal * c < 2 ^ 64 := by
    intro c hc
    have := Nat.mul_le_mul h hc
    omega
  unfold mark
  rw [Nat.mod_eq_of_lt (hmul a (Nat.le_trans hab hb)), Nat.mod_eq_of_lt (hmul b hb)]
  exact Nat.div_le_div_right (Nat.mul_le_mul_left _ hab)

/-- What is reported is new, and true. -/
theorem of_alerted (h : m.alerted = some p) : m.warn p = false ∧ m.mark p.pct < m.currentPagesTotal := by
  unfold alerted at h
  split at h
  · cases h
    assumption
  · split at h
    · cases h
      assumption
    · split at h
      · cases h
        assumption
      · cases h

/-- A report sets the watermark of its level. -/
theorem alert_warn : m.alert.warn p = true ↔ m.warn p = true ∨ m.alerted = some p := by
  unfold alert alerted
  split
  · cases p <;> simp [warn]
  · split
    · cases p <;> simp [warn]
    · split
      · cases p <;> simp [warn]
      · simp

/-- A release resets the watermarks of the levels that the usage is below. -/
theorem unalert_warn (h : m.maxPagesTotal ≤ 2 ^ 64 / 100) :
    m.unalert.warn p = true ↔ m.warn p = true ∧ m.mark p.pct ≤ m.currentPagesTotal := by
  have h78 : m.mark 70 ≤ m.mark 80 := mark_le_mark h (by decide) (by decide)
  have h89 : m.mark 80 ≤ m.mark 90 := mark_le_mark h (by decide) (by decide)
  unfold unalert
  split
  · split
    · cases p <;> simp [warn, Level.pct] <;> omega
    · split
      · cases p <;> simp [warn, Level.pct] <;> omega
      · split
        · cases p <;> simp [warn, Level.pct] <;> omega
        · cases p <;> simp [warn, Level.pct] <;> omega
  · -- without a limit, the levels are zero
    rename_i hzero
    have hmark : m.mark p.pct = 0 := by
      rw [mark, Nat.eq_zero_of_not_pos hzero, Nat.zero_mul, Nat.zero_mod]
    rw [hmark]
    exact ⟨fun hw => ⟨hw, Nat.zero_le _⟩, And.left⟩

theorem withLimit_warn (totalram pct : Nat) : (m.withLimit totalram pct).warn p = m.warn p := by
  unfold withLimit
  split <;> rfl

/-- The two ends of a call of `uck_memctl_can_alloc`. -/
theorem uckMemctlCanAlloc_cases (m : Memctl) (totalram pct n : Nat) :
    m.uckMemctlCanAlloc totalram pct n = (false, m.withLimit totalram pct) ∨
    (m.currentPagesTotal + n) % 2 ^ 64 ≤ (m.withLimit totalram pct).maxPagesTotal ∧
      m.uckMemctlCanAlloc totalram pct n = (true, (m.withLimit totalram pct).alert) := by
  simp only [uckMemctlCanAlloc, withLimit_currentPagesTotal]
  split
  · exact .inl rfl
  · rename_i hle
    exact .inr ⟨Nat.not_lt.1 hle, rfl⟩

/-! ## Every run -/

/-- What holds between calls. While there is no limit, nothing has been reported. -/
structure Inv (m : Memctl) : Prop where
  bounded : m.maxPagesTotal ≤ 2 ^ 64 / 100
  unlimited : m.maxPagesTotal = 0 → ∀ p, m.warn p = false
  armed : ∀ p, m.warn p = true → m.mark p.pct ≤ m.currentPagesTotal

theorem inv_init : Inv {} := ⟨by decide, fun _ p => by cases p <;> rfl, fun p h => by cases p <;> cases h⟩

theorem inv_withLimit (h : Inv m) (totalram pct : Nat) : Inv (m.withLimit totalram pct) := by
  by_cases hmax : m.maxPagesTotal = 0
  · -- no watermark is set
    have hwarn : ∀ p, (m.withLimit totalram pct).warn p = false := by
      intro p
      rw [withLimit_warn]
      exact h.unlimited hmax p
    refine ⟨?_, fun _ => hwarn, fun p hp => ?_⟩
    · rw [withLimit, if_pos hmax]
      have hlt : totalram * pct % 2 ^ 64 < 2 ^ 64 := Nat.mod_lt _ (by decide)
      exact Nat.div_le_div_right (Nat.le_of_lt hlt)
    · rw [hwarn p] at hp
      cases hp
  · rw [withLimit, if_neg hmax]
    exact h

/-- After a release, a watermark that is set means that the usage is at its level or above. -/
theorem armed_accountFree (h : m.maxPagesTotal ≤ 2 ^ 64 / 100) (n : Nat)
    (hp : (m.uckMemctlAccountFree n).warn p = true) :
    (m.uckMemctlAccountFree n).mark p.pct ≤ (m.uckMemctlAccountFree n).currentPagesTotal := by
  rw [uckMemctlAccountFree, unalert_currentPagesTotal, mark, unalert_maxPagesTotal]
  exact ((@unalert_warn { m with currentPagesTotal := m.currentPagesTotal - n } p h).1 hp).2

theorem inv_step (h : Inv m) (hwrap : m.NoWrap e) (hfits : m.SumFits e) (hstep : step m e = some m') : Inv m' := by
  cases e with
  | canAlloc totalram pct n =>
    cases hstep
    have hlimit := inv_withLimit h totalram pct
    obtain heq | ⟨hle, heq⟩ := uckMemctlCanAlloc_cases m totalram pct n
    · rw [heq]
      exact hlimit
    · rw [heq]
      refine ⟨?_, ?_, ?_⟩
      · rw [alert_maxPagesTotal]
        exact hlimit.bounded
      · -- pages are allowed without a limit only when none are in use
        rw [alert_maxPagesTotal]
        intro hmax p
        have hzero : m.currentPagesTotal = 0 := by
          rw [hmax, Nat.mod_eq_of_lt (hfits hmax)] at hle
          omega
        rw [Bool.eq_false_iff, ne_eq, alert_warn, not_or]
        refine ⟨Bool.eq_false_iff.1 (hlimit.unlimited hmax p), fun halerted => ?_⟩
        have hlt := (of_alerted halerted).2
        rw [withLimit_currentPagesTotal, hzero] at hlt
        exact Nat.not_lt_zero _ hlt
      · intro p hp
        rw [alert_currentPagesTotal, mark, alert_maxPagesTotal]
        rcases alert_warn.1 hp with hp | hp
        · exact hlimit.armed p hp
        · exact Nat.le_of_lt (of_alerted hp).2
  | accountAlloc n =>
    cases hstep
    refine ⟨h.bounded, h.unlimited, ?_⟩
    intro p hp
    have hcurrent : (m.uckMemctlAccountAlloc n).currentPagesTotal = m.currentPagesTotal + n := Nat.mod_eq_of_lt hwrap
    rw [hcurrent]
    exact Nat.le_trans (h.armed p hp) (Nat.le_add_right _ _)
  | accountFree n =>
    cases hstep
    have hbounded : { m with currentPagesTotal := m.currentPagesTotal - n }.maxPagesTotal ≤ 2 ^ 64 / 100 := h.bounded
    refine ⟨?_, ?_, ?_⟩
    · rw [uckMemctlAccountFree, unalert_maxPagesTotal]
      exact h.bounded
    · rw [uckMemctlAccountFree, unalert_maxPagesTotal]
      intro hmax p
      rw [Bool.eq_false_iff, ne_eq, unalert_warn hbounded]
      exact fun hp => Bool.eq_false_iff.1 (h.unlimited hmax p) hp.1
    · intro p hp
      exact armed_accountFree h.bounded n hp

/-- One limit for all calls: when it is not zero, no call finds a limit of zero; when it is, the levels stay zero. -/
theorem sumFits_or_unlimited {es : List Ev} (h : SameLimit es) :
    EachStep step SumFits {} es ∨ Always step (fun m => m.maxPagesTotal = 0) {} es := by
  obtain ⟨limit, hlimit⟩ := h
  by_cases hzero : limit = 0
  · right
    have hguard : EachStep step (fun _ e => ∀ l ∈ e.limit, l = 0) {} es :=
      EachStep.of_forall fun _ e he l hl => (hlimit e he l hl).trans hzero
    refine Always.of_eachStep (fun m => m.maxPagesTotal = 0) ?_ (fun _ h => h) rfl hguard
    intro m e m' hm hl hstep
    cases e with
    | canAlloc totalram pct n =>
      cases hstep
      have hwith : (m.withLimit totalram pct).maxPagesTotal = 0 := by
        rw [withLimit, if_pos hm]
        exact hl _ rfl
      obtain heq | ⟨-, heq⟩ := uckMemctlCanAlloc_cases m totalram pct n
      · rw [heq]
        exact hwith
      · rw [heq, alert_maxPagesTotal]
        exact hwith
    | accountAlloc n =>
      cases hstep
      exact hm
    | accountFree n =>
      cases hstep
      rw [uckMemctlAccountFree, unalert_maxPagesTotal]
      exact hm
  · left
    refine EachStep.of_forall fun m e he => ?_
    cases e with
    | canAlloc totalram pct n =>
      intro hmax
      rw [withLimit] at hmax
      split at hmax
      · exact absurd ((hlimit _ he _ rfl).symm.trans hmax) hzero
      · contradiction
    | accountAlloc n => trivial
    | accountFree n => trivial

/-- The limit stays a hundredth of a 64-bit number. -/
theorem bounded_step (h : m.maxPagesTotal ≤ 2 ^ 64 / 100) (hstep : step m e = some m') :
    m'.maxPagesTotal ≤ 2 ^ 64 / 100 := by
  cases e with
  | canAlloc totalram pct n =>
    cases hstep
    exact uckMemctlCanAlloc_maxPagesTotal_le h
  | accountAlloc n =>
    cases hstep
    exact h
  | accountFree n =>
    cases hstep
    rw [uckMemctlAccountFree, unalert_maxPagesTotal]
    exact h

/-- A watermark stays set while the usage is not below its level. -/
theorem warn_step (hbounded : m.maxPagesTotal ≤ 2 ^ 64 / 100) (h : m.warn p = true) (hstep : step m e = some m')
    (hlevel : m'.mark p.pct ≤ m'.currentPagesTotal) : m'.warn p = true := by
  cases e with
  | canAlloc totalram pct n =>
    cases hstep
    have hlimit : (m.withLimit totalram pct).warn p = true := (withLimit_warn totalram pct).trans h
    obtain heq | ⟨-, heq⟩ := uckMemctlCanAlloc_cases m totalram pct n
    · rw [heq]
      exact hlimit
    · rw [heq]
      exact alert_warn.2 (.inl hlimit)
  | accountAlloc n =>
    cases hstep
    cases p <;> exact h
  | accountFree n =>
    cases hstep
    rw [uckMemctlAccountFree, unalert_currentPagesTotal, mark, unalert_maxPagesTotal] at hlevel
    have hwarn : { m with currentPagesTotal := m.currentPagesTotal - n }.warn p = true := by cases p <;> exact h
    exact (@unalert_warn { m with currentPagesTotal := m.currentPagesTotal - n } p hbounded).2 ⟨hwarn, hlevel⟩

theorem warn_of_issued (h : m.issued e = some p) : m.warn p = false := by
  cases e with
  | canAlloc totalram pct n =>
    simp only [issued] at h
    split at h
    · rw [← withLimit_warn totalram pct]
      exact (of_alerted h).1
    · cases h
  | _ => cases h

/-- An alert sets its watermark. -/
theorem warn_after_issued (h : m.issued e = some p) (hstep : step m e = some m') : m'.warn p = true := by
  cases e with
  | canAlloc totalram pct n =>
    cases hstep
    simp only [issued] at h
    obtain heq | ⟨-, heq⟩ := uckMemctlCanAlloc_cases m totalram pct n
    · rw [heq] at h
      cases h
    · rw [heq] at h ⊢
      exact alert_warn.2 (.inr h)
  | _ => cases h

/-- The alert of a level is not issued while its watermark is set and the usage is not below the level. -/
theorem not_issued_of_warn {es : List Ev} (hbounded : m.maxPagesTotal ≤ 2 ^ 64 / 100) (h : m.warn p = true)
    (hlevel : Always step (fun m => m.mark p.pct ≤ m.currentPagesTotal) m es) :
    EachStep step (fun m e => m.issued e ≠ some p) m es := by
  induction es generalizing m with
  | nil => trivial
  | cons e es ih =>
    constructor
    · intro hissued
      rw [warn_of_issued hissued] at h
      cases h
    · intro m' hstep
      have hlevel' := hlevel.2 m' hstep
      exact ih (bounded_step hbounded hstep) (warn_step hbounded h hstep hlevel'.head) hlevel'

/-- The watermarks that are set in a run. -/
theorem armed_run {es : List Ev} {m : Memctl} (hrun : run step {} es = some m) (hwrap : EachStep step NoWrap {} es)
    (hlimit : SameLimit es ∨ EachStep step SumFits {} es) :
    m.maxPagesTotal ≤ 2 ^ 64 / 100 ∧ ∀ p, m.warn p = true → m.mark p.pct ≤ m.currentPagesTotal := by
  have hfits : EachStep step SumFits {} es ∨ Always step (fun m => m.maxPagesTotal = 0) {} es := by
    rcases hlimit with hlimit | hfits
    · exact sumFits_or_unlimited hlimit
    · exact .inl hfits
  rcases hfits with hfits | hzero
  · have hinv : Inv m := (Always.of_eachStep Inv (fun m e m' h hg hs => inv_step h hg.1 hg.2 hs) (fun _ h => h)
      inv_init (hwrap.and hfits)).last hrun
    exact ⟨hinv.bounded, hinv.armed⟩
  · have hmax := hzero.last hrun
    refine ⟨hmax ▸ Nat.zero_le _, fun p _ => ?_⟩
    rw [mark, hmax, Nat.zero_mul]
    exact Nat.zero_le _

/-- **The watermarks arm and re-arm** in every run: a watermark that is set means that the usage is at its level or
above; after an alert, the same alert is not issued until the usage falls below the level; and when a release leaves the
usage below a level, its watermark is clear. The limit is the same at every call; if it is not, then a sum that is
compared with a limit of zero must not wrap. -/
theorem watermarks_rearm {es : List Ev} {m : Memctl} (hrun : run step {} es = some m)
    (hwrap : EachStep step NoWrap {} es) (hlimit : SameLimit es ∨ EachStep step SumFits {} es) :
    (∀ p, m.warn p = true → m.mark p.pct ≤ m.currentPagesTotal) ∧
    (∀ e p m', m.issued e = some p → step m e = some m' → ∀ es',
      Always step (fun m => m.mark p.pct ≤ m.currentPagesTotal) m' es' →
      EachStep step (fun m e => m.issued e ≠ some p) m' es') ∧
    ∀ n p, (m.uckMemctlAccountFree n).currentPagesTotal < (m.uckMemctlAccountFree n).mark p.pct →
      (m.uckMemctlAccountFree n).warn p = false := by
  obtain ⟨hbounded, harmed⟩ := armed_run hrun hwrap hlimit
  refine ⟨harmed, ?_, ?_⟩
  · intro e p m' hissued hstep es' hlevel
    exact not_issued_of_warn (bounded_step hbounded hstep) (warn_after_issued hissued hstep) hlevel
  · intro n p hlt
    rw [Bool.eq_false_iff]
    intro hp
    exact Nat.not_le.2 hlt (armed_accountFree hbounded n hp)

/-- Of a limit of 800 pages, 790 are used, and all three alerts are issued. When 200 pages are released, only the
watermark of 70 percent stays. -/
def fillAndRelease : List Ev :=
  [.canAlloc 1000 80 1, .accountAlloc 790, .canAlloc 1000 80 1, .canAlloc 1000 80 1, .canAlloc 1000 80 1,
    .accountFree 200]

theorem watermarks_rearm_fill :
    ∃ m, run step {} fillAndRelease = some m ∧ m.warn .p70 = true ∧ m.mark 70 ≤ m.currentPagesTotal ∧
      m.warn .p80 = false := by
  have hrun : run step {} fillAndRelease = some ⟨800, 590, true, false, false⟩ := by decide +kernel
  have hwrap : EachStep step NoWrap {} fillAndRelease := by decide +kernel
  have hlimit : ∀ e ∈ fillAndRelease, ∀ l ∈ e.limit, l = 800 := by decide
  exact ⟨_, hrun, rfl, (watermarks_rearm hrun hwrap (.inl ⟨800, hlimit⟩)).1 .p70 rfl, rfl⟩

end UckSmp.Memory.Memctl
