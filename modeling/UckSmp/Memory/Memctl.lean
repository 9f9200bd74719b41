import Mathlib.Algebra.Ring.Nat

/-!
# The memory limit

The counters of `uck_memctl.c`: the pages that were accounted for, the limit that is computed from the memory of the
machine when it is first asked for, and the watermarks that were reported. The counters are 64 bits wide.
-/

namespace UckSmp.Memory

/-- The counters of `uck_state` and the `static` watermarks. -/
structure Memctl where
  maxPagesTotal : Nat := 0
  currentPagesTotal : Nat := 0
  warn70 : Bool := false
  warn80 : Bool := false
  warn90 : Bool := false
  deriving DecidableEq, Repr

namespace Memctl

variable (m : Memctl)

/-- `uck_memctl_init`. The watermarks are not reset. -/
def uckMemctlInit : Memctl := { m with currentPagesTotal := 0, maxPagesTotal := 0 }

/-- A share of the limit, in percent. -/
def mark (pct : Nat) : Nat := m.maxPagesTotal * pct % 2 ^ 64 / 100

/-- The limit is computed while it is zero. -/
def withLimit (totalram pct : Nat) : Memctl :=
  if m.maxPagesTotal = 0 then { m with maxPagesTotal := totalram * pct % 2 ^ 64 / 100 } else m

/-- The watermark alerts: at most one is given, the highest that is new. -/
def alert : Memctl :=
  if m.warn90 = false ∧ m.mark 90 < m.currentPagesTotal then { m with warn90 := true }
  else if m.warn80 = false ∧ m.mark 80 < m.currentPagesTotal then { m with warn80 := true }
  else if m.warn70 = false ∧ m.mark 70 < m.currentPagesTotal then { m with warn70 := true }
  else m

/-- `uck_memctl_can_alloc`, on a machine of `totalram` pages with `uck_max_pages_pct` at `pct`. -/
def uckMemctlCanAlloc (totalram pct nrPages : Nat) : Bool × Memctl :=
  let m := m.withLimit totalram pct
  if m.maxPagesTotal < (m.currentPagesTotal + nrPages) % 2 ^ 64 then (false, m) else (true, m.alert)

/-- `uck_memctl_account_alloc`. -/
def uckMemctlAccountAlloc (nrPages : Nat) : Memctl :=
  { m with currentPagesTotal := (m.currentPagesTotal + nrPages) % 2 ^ 64 }

/-- The watermarks that are reset after a release. -/
def unalert : Memctl :=
  if 0 < m.maxPagesTotal then
    if m.currentPagesTotal < m.mark 70 then { m with warn70 := false, warn80 := false, warn90 := false }
    else if m.currentPagesTotal < m.mark 80 then { m with warn80 := false, warn90 := false }
    else if m.currentPagesTotal < m.mark 90 then { m with warn90 := false }
    else m
  else m

/-- `uck_memctl_account_free`; the subtraction saturates. -/
def uckMemctlAccountFree (nrPages : Nat) : Memctl :=
  { m with currentPagesTotal := m.currentPagesTotal - nrPages }.unalert

variable {m}

theorem withLimit_currentPagesTotal (totalram pct : Nat) :
    (m.withLimit totalram pct).currentPagesTotal = m.currentPagesTotal := by
  unfold withLimit
  split <;> rfl

/-- Alerts change the watermarks only. -/
theorem alert_counters :
    m.alert.maxPagesTotal = m.maxPagesTotal ∧ m.alert.currentPagesTotal = m.currentPagesTotal := by
  unfold alert
  split
  · exact ⟨rfl, rfl⟩
  · split
    · exact ⟨rfl, rfl⟩
    · split <;> exact ⟨rfl, rfl⟩

@[simp] theorem alert_maxPagesTotal : m.alert.maxPagesTotal = m.maxPagesTotal := alert_counters.1

@[simp] theorem alert_currentPagesTotal : m.alert.currentPagesTotal = m.currentPagesTotal := alert_counters.2

theorem unalert_counters :
    m.unalert.maxPagesTotal = m.maxPagesTotal ∧ m.unalert.currentPagesTotal = m.currentPagesTotal := by
  unfold unalert
  split
  · split
    · exact ⟨rfl, rfl⟩
    · split
      · exact ⟨rfl, rfl⟩
      · split <;> exact ⟨rfl, rfl⟩
  · exact ⟨rfl, rfl⟩

@[simp] theorem unalert_maxPagesTotal : m.unalert.maxPagesTotal = m.maxPagesTotal := unalert_counters.1

@[simp] theorem unalert_currentPagesTotal : m.unalert.currentPagesTotal = m.currentPagesTotal := unalert_counters.2

/-! ## The limit -/

section Limit

variable {totalram pct n : Nat}

@[simp] theorem uckMemctlCanAlloc_currentPagesTotal :
    (m.uckMemctlCanAlloc totalram pct n).2.currentPagesTotal = m.currentPagesTotal := by
  simp only [uckMemctlCanAlloc]
  split <;> simp only [alert_currentPagesTotal, withLimit_currentPagesTotal]

theorem uckMemctlCanAlloc_maxPagesTotal :
    (m.uckMemctlCanAlloc totalram pct n).2.maxPagesTotal = (m.withLimit totalram pct).maxPagesTotal := by
  simp only [uckMemctlCanAlloc]
  split <;> simp only [alert_maxPagesTotal]

/-- The limit is never lowered: it is computed while it is zero. -/
theorem le_uckMemctlCanAlloc_maxPagesTotal :
    m.maxPagesTotal ≤ (m.uckMemctlCanAlloc totalram pct n).2.maxPagesTotal := by
  rw [uckMemctlCanAlloc_maxPagesTotal]
  unfold withLimit
  split
  · omega
  · exact Nat.le_refl _

/-- The limit is a percentage of a 64-bit number, so one more page does not wrap the counter. -/
theorem uckMemctlCanAlloc_maxPagesTotal_le (h : m.maxPagesTotal ≤ 2 ^ 64 / 100) :
    (m.uckMemctlCanAlloc totalram pct n).2.maxPagesTotal ≤ 2 ^ 64 / 100 := by
  rw [uckMemctlCanAlloc_maxPagesTotal]
  unfold withLimit
  split
  · have hlt : totalram * pct % 2 ^ 64 < 2 ^ 64 := Nat.mod_lt _ (by decide)
    exact Nat.div_le_div_right (Nat.le_of_lt hlt)
  · exact h

/-- Pages that are allowed are within the limit. -/
theorem le_of_uckMemctlCanAlloc (h : (m.uckMemctlCanAlloc totalram pct n).1 = true)
    (hn : m.currentPagesTotal + n < 2 ^ 64) :
    m.currentPagesTotal + n ≤ (m.uckMemctlCanAlloc totalram pct n).2.maxPagesTotal := by
  rw [uckMemctlCanAlloc_maxPagesTotal]
  simp only [uckMemctlCanAlloc, withLimit_currentPagesTotal, Nat.mod_eq_of_lt hn] at h
  split at h
  · cases h
  · omega

end Limit

end Memctl

end UckSmp.Memory
