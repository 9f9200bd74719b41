import Mathlib.Data.List.Induction

/-!
# A scan that keeps the best value so far

A loop goes over a list, skips the items that have no score, and keeps the first item whose score is better than the
best one seen before. It starts from a value that no item has.

* `scanned_foldl`: what the loop is left with.
* `Scanned.eq_some_iff`: that is the first of the items that no other beats.
-/

namespace Lib.Best

variable {α β : Type*} {better : β → β → Prop} {score : α → Option β} {b₀ w : β} {l : List α} {x : α}
  {r : β × Option α}

/-- One round of the loop. -/
def keep (better : β → β → Prop) [DecidableRel better] (score : α → Option β) (best : β × Option α) (x : α) :
    β × Option α :=
  match score x with
  | none => best
  | some v => if better v best.1 then (v, some x) else best

/-- The loop has gone over `l`, started from `b₀`. -/
structure Scanned (better : β → β → Prop) (score : α → Option β) (b₀ : β) (l : List α) (r : β × Option α) : Prop where
  start : r.2 = none → r.1 = b₀
  found : ∀ x, r.2 = some x → x ∈ l ∧ score x = some r.1 ∧ better r.1 b₀
  unbeaten : ∀ y ∈ l, ∀ v, score y = some v → ¬ better v r.1
  first : ∀ x, r.2 = some x → ∃ pre post, l = pre ++ x :: post ∧ ∀ y ∈ pre, ∀ v, score y = some v → better r.1 v

/-- The first of the items that no other beats, if it beats the start. -/
def First (better : β → β → Prop) (score : α → Option β) (b₀ : β) (l : List α) (x : α) : Prop :=
  ∃ pre post v, l = pre ++ x :: post ∧ score x = some v ∧ better v b₀ ∧
    (∀ y ∈ pre, ∀ w, score y = some w → better v w) ∧ ∀ y ∈ post, ∀ w, score y = some w → ¬ better w v

/-- There is only one. -/
theorem First.unique {x y : α} (hx : First better score b₀ l x) (hy : First better score b₀ l y) : x = y := by
  obtain ⟨pre, post, v, rfl, hv, -, hbefore, hafter⟩ := hx
  obtain ⟨pre', post', w, heq, hw, -, hbefore', hafter'⟩ := hy
  rcases List.append_eq_append_iff.1 heq with ⟨mid, rfl, hmid⟩ | ⟨mid, rfl, hmid⟩
  · cases mid with
    | nil => exact (List.cons.inj hmid).1
    | cons z mid =>
      obtain ⟨rfl, rfl⟩ := List.cons.inj hmid
      -- `x` comes before `y`
      exact absurd (hbefore' x (by simp) v hv) (hafter y (by simp) w hw)
  · cases mid with
    | nil => exact ((List.cons.inj hmid).1).symm
    | cons z mid =>
      obtain ⟨rfl, rfl⟩ := List.cons.inj hmid
      exact absurd (hbefore y (by simp) w hw) (hafter' x (by simp) v hv)

namespace Scanned

/-- The loop finds nothing exactly if no item has a score that is better than the start. -/
theorem eq_none_iff (h : Scanned better score b₀ l r) :
    r.2 = none ↔ ∀ x ∈ l, ∀ v, score x = some v → ¬ better v b₀ := by
  constructor
  · intro hr
    rw [← h.start hr]
    exact h.unbeaten
  · intro hno
    cases hr : r.2 with
    | none => rfl
    | some x =>
      obtain ⟨hm, hs, hb⟩ := h.found x hr
      exact absurd hb (hno x hm _ hs)

/-- The loop finds the first of the items that no other beats. -/
theorem eq_some_iff (h : Scanned better score b₀ l r) (x : α) : r.2 = some x ↔ First better score b₀ l x := by
  have hfirst : ∀ y, r.2 = some y → First better score b₀ l y := by
    intro y hy
    obtain ⟨-, hs, hb⟩ := h.found y hy
    obtain ⟨pre, post, rfl, hbefore⟩ := h.first y hy
    exact ⟨pre, post, r.1, rfl, hs, hb, hbefore, fun z hz => h.unbeaten z (by simp [hz])⟩
  refine ⟨hfirst x, fun hx => ?_⟩
  cases hr : r.2 with
  | none =>
    obtain ⟨pre, post, v, rfl, hv, hb, -⟩ := hx
    exact absurd hb (h.eq_none_iff.1 hr x (by simp) v hv)
  | some y => rw [(hfirst y hr).unique hx]

/-- An item that is not better. -/
theorem pass (h : Scanned better score b₀ l r) (hx : ∀ v, score x = some v → ¬ better v r.1) :
    Scanned better score b₀ (l ++ [x]) r where
  start := h.start
  found z hz := ⟨List.mem_append_left _ (h.found z hz).1, (h.found z hz).2⟩
  unbeaten y hy v hv := by
    obtain hy | rfl : y ∈ l ∨ y = x := by simpa using hy
    · exact h.unbeaten y hy v hv
    · exact hx v hv
  first z hz := by
    obtain ⟨pre, post, rfl, hbefore⟩ := h.first z hz
    exact ⟨pre, post ++ [x], by simp, hbefore⟩

/-- An item that is better. It also beats the start, which the best one so far does not lose to. -/
theorem take (hirrefl : ∀ a, ¬ better a a) (htrans : ∀ a b c, better a b → better b c → better a c)
    (hneg : ∀ a b c, better a b → ¬ better c b → better a c) (h : Scanned better score b₀ l r)
    (hx : score x = some w) (hw : better w r.1) :
    Scanned better score b₀ (l ++ [x]) (w, some x) where
  start := nofun
  found z hz := by
    obtain rfl := Option.some.inj hz
    refine ⟨by simp, hx, ?_⟩
    cases hr : r.2 with
    | none => exact h.start hr ▸ hw
    | some y => exact htrans _ _ _ hw (h.found y hr).2.2
  unbeaten y hy v hv := by
    obtain hy | rfl : y ∈ l ∨ y = x := by simpa using hy
    · exact fun hlt => h.unbeaten y hy v hv (htrans _ _ _ hlt hw)
    · obtain rfl := Option.some.inj (hx.symm.trans hv)
      exact hirrefl _
  first z hz := by
    obtain rfl := Option.some.inj hz
    exact ⟨l, [], rfl, fun y hy v hv => hneg _ _ _ hw (h.unbeaten y hy v hv)⟩

end Scanned

/-- What the loop is left with, when `better` is a strict order in which what is not better is no worse. -/
theorem scanned_foldl [DecidableRel better] (hirrefl : ∀ a, ¬ better a a)
    (htrans : ∀ a b c, better a b → better b c → better a c)
    (hneg : ∀ a b c, better a b → ¬ better c b → better a c) (b₀ : β) (l : List α) :
    Scanned better score b₀ l (l.foldl (keep better score) (b₀, none)) := by
  induction l using List.reverseRecOn with
  | nil => exact ⟨fun _ => rfl, nofun, nofun, nofun⟩
  | append_singleton l x ih =>
    rw [List.foldl_append, List.foldl_cons, List.foldl_nil, keep]
    cases hx : score x with
    | none => exact ih.pass fun v hv => nomatch hx.symm.trans hv
    | some w =>
      dsimp only
      split
      next hw => exact ih.take hirrefl htrans hneg hx hw
      next hw => exact ih.pass fun v hv => Option.some.inj (hx.symm.trans hv) ▸ hw

end Lib.Best
