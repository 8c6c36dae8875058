import ImportWeave.Text.Basic
import Mathlib.Data.List.Infix

/-! # Pieces and words of a text

A text is split at all its separators, or at the first place where a word stands. -/

namespace ImportWeave.Text

variable {cs : List Char}

/-! ## Separators -/

theorem splitOn_eq_splitOnP (p : Char → Bool) (cs : List Char) : splitOn p cs = cs.splitOnP p := by
  induction cs with
  | nil => exact List.splitOnP_nil.symm
  | cons c cs ih =>
      rw [splitOn, List.splitOnP_cons_eq_if_modifyHead, ih]
      split
      · rfl
      · cases h : cs.splitOnP p with
        | nil => exact absurd h (List.splitOnP_ne_nil p cs)
        | cons piece pieces => rfl

/-- Pieces do not hold the separators that they stand between. -/
theorem not_of_mem_splitOn {p : Char → Bool} {cs piece : List Char} (h : piece ∈ splitOn p cs) :
    ∀ c ∈ piece, p c = false := by
  induction cs generalizing piece with
  | nil =>
      rw [List.mem_singleton.mp h]
      simp
  | cons c cs ih =>
      rw [splitOn] at h
      split at h
      · rcases List.mem_cons.mp h with rfl | h
        · simp
        · exact ih h
      · next hc =>
          split at h
          · next none => exact absurd (splitOn_eq_splitOnP p cs ▸ none) (List.splitOnP_ne_nil p cs)
          · next first pieces e =>
              rcases List.mem_cons.mp h with rfl | h
              · exact List.forall_mem_cons.mpr ⟨by simpa using hc, ih (e ▸ List.mem_cons_self)⟩
              · exact ih (e ▸ List.mem_cons_of_mem _ h)

theorem splitOn_append_cons {p : Char → Bool} {separator : Char} (h : p separator = true)
    (cs ds : List Char) : splitOn p (cs ++ separator :: ds) = splitOn p cs ++ splitOn p ds := by
  simp only [splitOn_eq_splitOnP, List.splitOnP_append_cons cs ds h]

theorem splitOn_eq_singleton {p : Char → Bool} (h : ∀ c ∈ cs, p c = false) : splitOn p cs = [cs] := by
  rw [splitOn_eq_splitOnP, List.splitOnP_eq_singleton h]

/-! ## The first place of a word -/

theorem isPrefixOf?_eq_none {word : List Char} (h : ¬ word <+: cs) : word.isPrefixOf? cs = none := by
  cases found : word.isPrefixOf? cs with
  | none => rfl
  | some after => exact absurd ⟨after, List.isPrefixOf?_eq_some_iff_append_eq.mp found⟩ h

theorem isPrefixOf?_append (word cs : List Char) : word.isPrefixOf? (word ++ cs) = some cs :=
  List.isPrefixOf?_eq_some_iff_append_eq.mpr rfl

/-- A text that a word does not stand in is not split at it. -/
theorem splitOnce?_eq_none {word : List Char} (h : ¬ word <:+: cs) : splitOnce? word cs = none := by
  induction cs with
  | nil => rw [splitOnce?, isPrefixOf?_eq_none fun first => h first.isInfix]
  | cons c cs ih =>
      have later : ¬ word <:+: cs := fun inside => h (List.infix_cons inside)
      rw [splitOnce?, isPrefixOf?_eq_none fun first => h first.isInfix]
      simp only [ih later, Option.map_none]

/-- A text is split at a word, if the first character of the word does not come before. -/
theorem splitOnce?_append {c : Char} (h : c ∉ cs) (word after : List Char) :
    splitOnce? (c :: word) (cs ++ (c :: word) ++ after) = some (cs, after) := by
  induction cs with
  | nil =>
      rw [List.nil_append, splitOnce?.eq_def, isPrefixOf?_append]
  | cons d cs ih =>
      rw [List.mem_cons, not_or] at h
      have here : (c :: word).isPrefixOf? (d :: (cs ++ (c :: word) ++ after)) = none := by
        refine isPrefixOf?_eq_none fun first => h.1 ?_
        exact (List.cons_prefix_cons.mp first).1
      rw [List.cons_append, List.cons_append, splitOnce?, here]
      simp only [ih h.2, Option.map_some]

/-! ## A word in front -/

theorem dropWord_append (word cs : List Char) : dropWord word (word ++ cs) = cs := by
  rw [dropWord, isPrefixOf?_append]
  rfl

theorem dropWord_of_not_prefix {word : List Char} (h : ¬ word <+: cs) : dropWord word cs = cs := by
  rw [dropWord, isPrefixOf?_eq_none h]
  rfl

end ImportWeave.Text
