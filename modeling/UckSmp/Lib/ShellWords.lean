import Mathlib.Data.List.Basic

/-!
# Shell words

Splitting a command line into words by the POSIX rules for blanks and single quotes: an unquoted blank ends a word, a
single quote starts a part that is taken literally up to the next single quote, adjacent parts belong to one word, and
a quote that is not closed leaves the line without meaning. Every other character stands for itself.

* `scan_word_blank`, `scan_quoted_blank`, `scan_quoted`: how the scan goes through a line, part by part.
* `scan_unclosed`: a quote that is never closed.
* `quote_not_mem_scan`: no word contains a quote.
* `length_scan_le`: the words are not longer than the line.
* `scan_take_quoted_iff`: when a text put between quotes, and perhaps cut, is read back as one word.
* `shellWords_take_join_iff`: when texts put one after the other, with blanks between them, and perhaps cut, are read
  back as the words that they are.
-/

namespace Lib.Shell

variable {α : Type} [DecidableEq α]

/-- The characters that the splitting looks at. -/
structure Lexicon (α : Type) where
  blank : α → Bool
  quote : α
  blank_quote : blank quote = false

variable (L : Lexicon α)

/-- The words of the rest of a line, where `cur` is the word that has begun, if any, and `quoted` says that a quote is
open. -/
def scan : Option (List α) → Bool → List α → Option (List (List α))
  | cur, false, [] => some cur.toList
  | _, true, [] => none
  | cur, true, c :: cs => if c = L.quote then scan cur false cs else scan (some (cur.getD [] ++ [c])) true cs
  | cur, false, c :: cs =>
    if c = L.quote then scan (some (cur.getD [])) true cs
    else if L.blank c then (scan none false cs).map (cur.toList ++ ·)
    else scan (some (cur.getD [] ++ [c])) false cs

/-- The words of a line. -/
def shellWords (line : List α) : Option (List (List α)) := scan L none false line

/-- Characters without a meaning of their own. -/
def Plain (w : List α) : Prop := ∀ c ∈ w, c ≠ L.quote ∧ L.blank c = false

instance (w : List α) : Decidable (Plain L w) := inferInstanceAs (Decidable (∀ c ∈ w, _))

variable {L}

theorem scan_word {w : List α} (hw : Plain L w) (v rest : List α) :
    scan L (some v) false (w ++ rest) = scan L (some (v ++ w)) false rest := by
  induction w generalizing v with
  | nil => simp
  | cons c w ih =>
    obtain ⟨hq, hb⟩ := hw c List.mem_cons_self
    simp only [List.cons_append, scan, hq, hb, if_false, Bool.false_eq_true, Option.getD_some]
    rw [ih fun d hd => hw d (List.mem_cons_of_mem _ hd), List.append_assoc]
    rfl

/-- A blank ends the word. -/
theorem scan_blank {b : α} (hb : L.blank b = true) (cur : Option (List α)) (rest : List α) :
    scan L cur false (b :: rest) = (scan L none false rest).map (cur.toList ++ ·) := by
  have hq : b ≠ L.quote := fun h => by simp [h, L.blank_quote] at hb
  simp [scan, hq, hb]

/-- A word that is followed by a blank. -/
theorem scan_word_blank {w : List α} (hw : Plain L w) (hne : w ≠ []) {b : α} (hb : L.blank b = true) (rest : List α) :
    scan L none false (w ++ b :: rest) = (scan L none false rest).map (w :: ·) := by
  obtain ⟨c, w, rfl⟩ := List.exists_cons_of_ne_nil hne
  obtain ⟨hq, hb'⟩ := hw c List.mem_cons_self
  simp only [List.cons_append, scan, hq, hb', if_false, Bool.false_eq_true, Option.getD_none, List.nil_append]
  rw [scan_word (fun d hd => hw d (List.mem_cons_of_mem _ hd)), scan_blank hb]
  rfl

theorem scan_open (cur : Option (List α)) (rest : List α) :
    scan L cur false (L.quote :: rest) = scan L (some (cur.getD [])) true rest := by
  simp [scan]

theorem scan_inside {w : List α} (hw : L.quote ∉ w) (v rest : List α) :
    scan L (some v) true (w ++ rest) = scan L (some (v ++ w)) true rest := by
  induction w generalizing v with
  | nil => simp
  | cons c w ih =>
    rw [List.mem_cons, not_or] at hw
    simp only [List.cons_append, scan, Ne.symm hw.1, if_false, Option.getD_some]
    rw [ih hw.2, List.append_assoc]
    rfl

/-- A quoted part, taken literally. -/
theorem scan_quoted {w : List α} (hw : L.quote ∉ w) (v rest : List α) :
    scan L (some v) true (w ++ L.quote :: rest) = scan L (some (v ++ w)) false rest := by
  rw [scan_inside hw]
  simp [scan]

/-- A quoted word that is followed by a blank. -/
theorem scan_quoted_blank {w : List α} (hw : L.quote ∉ w) {b : α} (hb : L.blank b = true) (rest : List α) :
    scan L none false (L.quote :: (w ++ L.quote :: b :: rest)) = (scan L none false rest).map (w :: ·) := by
  rw [scan_open, Option.getD_none, scan_quoted hw, scan_blank hb]
  rfl

theorem scan_unclosed {w : List α} (hw : L.quote ∉ w) (v : List α) : scan L (some v) true w = none := by
  have h := scan_inside hw v []
  rw [List.append_nil] at h
  rw [h]
  rfl

theorem quote_not_mem_scan {line : List α} {cur : Option (List α)} {quoted : Bool} {ws : List (List α)}
    (hcur : ∀ w ∈ cur, L.quote ∉ w) (h : scan L cur quoted line = some ws) : ∀ w ∈ ws, L.quote ∉ w := by
  have hgrow : ∀ {cur : Option (List α)} {c : α}, (∀ w ∈ cur, L.quote ∉ w) → c ≠ L.quote →
      ∀ w ∈ some (cur.getD [] ++ [c]), L.quote ∉ w := by
    intro cur c hcur hc w hw
    cases hw
    cases cur with
    | none => simpa using hc.symm
    | some v => simpa using ⟨hcur v rfl, hc.symm⟩
  induction line generalizing cur quoted ws with
  | nil =>
    cases quoted with
    | true => cases h
    | false =>
      cases h
      intro w hw
      exact hcur w (Option.mem_toList.1 hw)
  | cons c line ih =>
    cases quoted with
    | true =>
      simp only [scan] at h
      split at h
      · exact ih hcur h
      · exact ih (hgrow hcur ‹_›) h
    | false =>
      simp only [scan] at h
      split at h
      · refine ih (fun w hw => ?_) h
        cases hw
        cases cur with
        | none => simp
        | some v => exact hcur v rfl
      · split at h
        · obtain ⟨vs, hvs, rfl⟩ := Option.map_eq_some_iff.1 h
          intro w hw
          rcases List.mem_append.1 hw with hw | hw
          · exact hcur w (Option.mem_toList.1 hw)
          · exact ih (by simp) hvs w hw
        · exact ih (hgrow hcur ‹_›) h

/-- The words are not longer than the line. -/
theorem length_scan_le {line : List α} {cur : Option (List α)} {quoted : Bool} {ws : List (List α)}
    (h : scan L cur quoted line = some ws) : ws.flatten.length ≤ (cur.getD []).length + line.length := by
  induction line generalizing cur quoted ws with
  | nil =>
    cases quoted with
    | true => cases h
    | false => cases h; cases cur <;> simp
  | cons c line ih =>
    cases quoted with
    | true =>
      simp only [scan] at h
      split at h
      · have := ih h; simp only [List.length_cons]; omega
      · have := ih h; simp only [Option.getD_some, List.length_append, List.length_cons, List.length_nil] at *; omega
    | false =>
      simp only [scan] at h
      split at h
      · have := ih h; simp only [Option.getD_some, List.length_cons] at *; omega
      · split at h
        · obtain ⟨vs, hvs, rfl⟩ := Option.map_eq_some_iff.1 h
          have := ih hvs
          cases cur <;> simp at * <;> omega
        · have := ih h; simp only [Option.getD_some, List.length_append, List.length_cons, List.length_nil] at *; omega

/-- A text between quotes, of which `m` characters after the opening quote are there, is one word equal to the text
exactly if it has no quote and the closing quote is there. -/
theorem scan_take_quoted_iff (w : List α) (m : Nat) :
    scan L (some []) true ((w ++ [L.quote]).take m) = some [w] ↔ L.quote ∉ w ∧ w.length < m := by
  constructor
  · intro h
    have hw : L.quote ∉ w := quote_not_mem_scan (by simp) h w List.mem_cons_self
    refine ⟨hw, Nat.lt_of_not_le fun hm => ?_⟩
    rw [List.take_append_of_le_length hm, scan_unclosed fun hq => hw (List.mem_of_mem_take hq)] at h
    cases h
  · rintro ⟨hw, hm⟩
    rw [List.take_of_length_le (by simp; omega), scan_quoted hw]
    rfl

/-! ## Words with blanks between them -/

omit [DecidableEq α] in
theorem intercalate_cons (b : α) (w : List α) {ws : List (List α)} (h : ws ≠ []) :
    [b].intercalate (w :: ws) = w ++ b :: [b].intercalate ws := by
  obtain ⟨v, ws, rfl⟩ := List.exists_cons_of_ne_nil h
  simp [List.intercalate]

omit [DecidableEq α] in
theorem length_intercalate (b : α) {ws : List (List α)} (h : ws ≠ []) :
    ([b].intercalate ws).length + 1 = ws.flatten.length + ws.length := by
  induction ws with
  | nil => exact absurd rfl h
  | cons w ws ih =>
    by_cases hws : ws = []
    · subst hws
      simp [List.intercalate]
    · have hlen := ih hws
      rw [intercalate_cons b w hws]
      simp only [List.length_append, List.length_cons, List.flatten_cons]
      omega

omit [DecidableEq α] in
theorem mem_intercalate {b c : α} {ws : List (List α)} (h : c ∈ [b].intercalate ws) : c = b ∨ ∃ w ∈ ws, c ∈ w := by
  induction ws with
  | nil => simp [List.intercalate] at h
  | cons w ws ih =>
    by_cases hws : ws = []
    · subst hws
      exact .inr ⟨w, List.mem_cons_self, by simpa [List.intercalate] using h⟩
    · rw [intercalate_cons b w hws, List.mem_append, List.mem_cons] at h
      rcases h with h | h | h
      · exact .inr ⟨w, List.mem_cons_self, h⟩
      · exact .inl h
      · rcases ih h with h | ⟨v, hv, hc⟩
        · exact .inl h
        · exact .inr ⟨v, List.mem_cons_of_mem _ hv, hc⟩

/-- Words that are not empty and have no characters with a meaning are read back. -/
theorem shellWords_join {b : α} (hb : L.blank b = true) {ws : List (List α)} (h : ∀ w ∈ ws, w ≠ [] ∧ Plain L w) :
    shellWords L ([b].intercalate ws) = some ws := by
  induction ws with
  | nil => rfl
  | cons w ws ih =>
    obtain ⟨hne, hw⟩ := h w List.mem_cons_self
    by_cases hws : ws = []
    · subst hws
      obtain ⟨c, w, rfl⟩ := List.exists_cons_of_ne_nil hne
      obtain ⟨hq, hb'⟩ := hw c List.mem_cons_self
      have hend := scan_word (fun d hd => hw d (List.mem_cons_of_mem _ hd)) [c] []
      rw [List.append_nil] at hend
      simpa [shellWords, List.intercalate, scan, hq, hb'] using hend
    · rw [intercalate_cons b w hws, shellWords, scan_word_blank hw hne hb]
      show Option.map (w :: ·) (shellWords L ([b].intercalate ws)) = _
      rw [ih fun v hv => h v (List.mem_cons_of_mem _ hv)]
      rfl

/-- Without quotes there are no empty words and no blanks in words. -/
theorem plain_of_scan {line : List α} {cur : Option (List α)} {ws : List (List α)} (hline : L.quote ∉ line)
    (hcur : ∀ w ∈ cur, w ≠ [] ∧ Plain L w) (h : scan L cur false line = some ws) : ∀ w ∈ ws, w ≠ [] ∧ Plain L w := by
  induction line generalizing cur ws with
  | nil =>
    cases h
    intro w hw
    exact hcur w (Option.mem_toList.1 hw)
  | cons c line ih =>
    rw [List.mem_cons, not_or] at hline
    have hc : c ≠ L.quote := Ne.symm hline.1
    simp only [scan, hc, if_false] at h
    split at h
    · obtain ⟨vs, hvs, rfl⟩ := Option.map_eq_some_iff.1 h
      intro w hw
      rcases List.mem_append.1 hw with hw | hw
      · exact hcur w (Option.mem_toList.1 hw)
      · exact ih hline.2 (by simp) hvs w hw
    next hb =>
      refine ih hline.2 (fun w hw => ?_) h
      cases hw
      refine ⟨by simp, fun d hd => ?_⟩
      rcases List.mem_append.1 hd with hd | hd
      · cases cur with
        | none => cases hd
        | some v => exact (hcur v rfl).2 d hd
      · rw [List.mem_singleton.1 hd]
        exact ⟨hc, Bool.eq_false_iff.2 hb⟩

/-- Between two words there is at least one blank. -/
theorem length_add_scan_le {line : List α} {cur : Option (List α)} {ws : List (List α)} (hline : L.quote ∉ line)
    (h : scan L cur false line = some ws) :
    ws.flatten.length + ws.length ≤ (cur.getD []).length + line.length + 1 := by
  induction line generalizing cur ws with
  | nil =>
    cases h
    cases cur <;> simp
  | cons c line ih =>
    rw [List.mem_cons, not_or] at hline
    have hc : c ≠ L.quote := Ne.symm hline.1
    simp only [scan, hc, if_false] at h
    split at h
    · obtain ⟨vs, hvs, rfl⟩ := Option.map_eq_some_iff.1 h
      have hlen := ih hline.2 hvs
      cases cur with
      | none => simp at hlen ⊢; omega
      | some v => simp at hlen ⊢; omega
    · have hlen := ih hline.2 h
      simp only [Option.getD_some, List.length_append, List.length_cons, List.length_nil] at hlen ⊢
      omega

/-- Texts with blanks between them, of which `n` characters are there, are the words that they are exactly if none of
them is empty or has a character with a meaning, and nothing is cut off. -/
theorem shellWords_take_join_iff {b : α} (hb : L.blank b = true) (ws : List (List α)) (n : Nat) :
    shellWords L (([b].intercalate ws).take n) = some ws ↔
      (∀ w ∈ ws, w ≠ [] ∧ Plain L w) ∧ ([b].intercalate ws).length ≤ n := by
  constructor
  · intro h
    have hquote : L.quote ∉ ([b].intercalate ws).take n := by
      intro hq
      rcases mem_intercalate (List.mem_of_mem_take hq) with hq | ⟨w, hw, hq⟩
      · rw [← hq, L.blank_quote] at hb
        cases hb
      · exact quote_not_mem_scan (by simp) h w hw hq
    refine ⟨plain_of_scan hquote (by simp) h, ?_⟩
    by_cases hws : ws = []
    · subst hws
      exact Nat.zero_le n
    · have hlen := length_intercalate b hws
      have hle := length_add_scan_le hquote h
      simp only [Option.getD_none, List.length_nil, List.length_take] at hle
      omega
  · rintro ⟨hws, hn⟩
    rw [List.take_of_length_le hn]
    exact shellWords_join hb hws

end Lib.Shell
