import ImportWeave.Text.Basic
import Mathlib.Data.List.TakeWhile

/-! # Trimmed texts

A text is trimmed if there is no white space at its ends. Trimming takes off the white space that stands
there and nothing else. -/

namespace ImportWeave.Text

variable {cs : List Char}

theorem notMem_of_all_isSpace {c : Char} (h : isSpace c = false) {blank : List Char}
    (all : blank.all isSpace = true) : c ∉ blank := by
  intro hc
  rw [List.all_eq_true.mp all c hc] at h
  cases h

/-! ## White space in front -/

theorem trimStart_of_head? (h : ∀ c ∈ cs.head?, isSpace c = false) : trimStart cs = cs := by
  cases cs with
  | nil => rfl
  | cons c cs => exact List.dropWhile_cons_of_neg (by simp [h c rfl])

theorem trimStart_append_of_all {blank : List Char} (h : blank.all isSpace = true) (cs : List Char) :
    trimStart (blank ++ cs) = trimStart cs :=
  List.dropWhile_append_of_pos (List.all_eq_true.mp h)

theorem trimStart_append_cons {c : Char} (hc : isSpace c = false) (cs ds : List Char) :
    trimStart (cs ++ c :: ds) = trimStart cs ++ c :: ds := by
  induction cs with
  | nil => simp [trimStart, hc]
  | cons b cs ih =>
      cases hb : isSpace b with
      | true => simpa [trimStart, hb] using ih
      | false => simp [trimStart, hb]

theorem exists_trimStart (cs : List Char) :
    ∃ blank, cs = blank ++ trimStart cs ∧ blank.all isSpace = true :=
  ⟨cs.takeWhile isSpace, List.takeWhile_append_dropWhile.symm, List.all_takeWhile⟩

theorem isSpace_of_head?_trimStart (cs : List Char) : ∀ c ∈ (trimStart cs).head?, isSpace c = false := by
  intro c hc
  have := List.head?_dropWhile_not isSpace cs
  rw [← trimStart, hc] at this
  simpa using this

/-! ## White space behind -/

theorem trimEnd_eq (cs : List Char) : trimEnd cs = (trimStart cs.reverse).reverse := rfl

theorem trimEnd_of_getLast? (h : ∀ c ∈ cs.getLast?, isSpace c = false) : trimEnd cs = cs := by
  rw [List.getLast?_eq_head?_reverse] at h
  rw [trimEnd_eq, trimStart_of_head? h, List.reverse_reverse]

theorem trimEnd_append_of_all {blank : List Char} (h : blank.all isSpace = true) (cs : List Char) :
    trimEnd (cs ++ blank) = trimEnd cs := by
  rw [trimEnd_eq, List.reverse_append, trimStart_append_of_all (by rwa [List.all_reverse]), trimEnd_eq]

theorem trimEnd_append_cons_space {b c : Char} (hb : isSpace b = false) (hc : isSpace c = true)
    (cs : List Char) : trimEnd (cs ++ [b, c]) = cs ++ [b] := by
  simp [trimEnd, hb, hc]

theorem exists_trimEnd (cs : List Char) :
    ∃ blank, cs = trimEnd cs ++ blank ∧ blank.all isSpace = true := by
  obtain ⟨blank, split, hblank⟩ := exists_trimStart cs.reverse
  refine ⟨blank.reverse, ?_, by rwa [List.all_reverse]⟩
  rw [trimEnd_eq, ← List.reverse_append, ← split, List.reverse_reverse]

theorem isSpace_of_getLast?_trimEnd (cs : List Char) :
    ∀ c ∈ (trimEnd cs).getLast?, isSpace c = false := by
  rw [trimEnd_eq, List.getLast?_reverse]
  exact isSpace_of_head?_trimStart cs.reverse

/-! ## White space at both ends -/

/-- No white space at either end. -/
structure IsTrimmed (cs : List Char) : Prop where
  first : ∀ c ∈ cs.head?, isSpace c = false
  last : ∀ c ∈ cs.getLast?, isSpace c = false

theorem isTrimmed_trimEnd (h : ∀ c ∈ cs.head?, isSpace c = false) : IsTrimmed (trimEnd cs) where
  first := by
    intro c hc
    obtain ⟨blank, split, -⟩ := exists_trimEnd cs
    apply h
    rw [split, List.head?_append, hc]
    rfl
  last := isSpace_of_getLast?_trimEnd cs

theorem isTrimmed_trim (cs : List Char) : IsTrimmed (trim cs) :=
  isTrimmed_trimEnd (isSpace_of_head?_trimStart cs)

theorem exists_trim (cs : List Char) :
    ∃ left right, cs = left ++ trim cs ++ right ∧ left.all isSpace = true ∧ right.all isSpace = true := by
  obtain ⟨left, front, hleft⟩ := exists_trimStart cs
  obtain ⟨right, back, hright⟩ := exists_trimEnd (trimStart cs)
  refine ⟨left, right, ?_, hleft, hright⟩
  rw [trim, List.append_assoc, ← back, ← front]

theorem mem_of_mem_trim {c : Char} (h : c ∈ trim cs) : c ∈ cs := by
  obtain ⟨left, right, split, -, -⟩ := exists_trim cs
  rw [split]
  exact List.mem_append_left right (List.mem_append_right left h)

theorem IsTrimmed.trim_eq (h : IsTrimmed cs) : trim cs = cs := by
  rw [trim, trimStart_of_head? h.first, trimEnd_of_getLast? h.last]

/-- A trimmed text is what is left of it with white space around it. -/
theorem IsTrimmed.trim_append (h : IsTrimmed cs) {left right : List Char} (hl : left.all isSpace = true)
    (hr : right.all isSpace = true) : trim (left ++ cs ++ right) = cs := by
  cases cs with
  | nil =>
      have blank : (left ++ right).all isSpace = true := by rw [List.all_append, hl, hr, Bool.and_self]
      have := trimStart_append_of_all blank []
      rw [List.append_nil] at this
      rw [List.append_nil, trim, this]
      rfl
  | cons c cs =>
      have visible : isSpace c = false := h.first c rfl
      rw [List.append_assoc, trim, trimStart_append_of_all hl, List.cons_append,
        trimStart_of_head? (by rintro _ ⟨⟩; exact visible), ← List.cons_append,
        trimEnd_append_of_all hr, trimEnd_of_getLast? h.last]

theorem trim_append_of_all {left right : List Char} (hl : left.all isSpace = true)
    (hr : right.all isSpace = true) (cs : List Char) : trim (left ++ cs ++ right) = trim cs := by
  obtain ⟨before, behind, split, hbefore, hbehind⟩ := exists_trim cs
  have text : left ++ cs ++ right = (left ++ before) ++ trim cs ++ (behind ++ right) := by
    calc
      left ++ cs ++ right = left ++ (before ++ trim cs ++ behind) ++ right := by rw [← split]
      _ = _ := by simp
  rw [text]
  apply (isTrimmed_trim cs).trim_append
  · rw [List.all_append, hl, hbefore, Bool.and_self]
  · rw [List.all_append, hbehind, hr, Bool.and_self]

theorem trim_eq_nil_iff : trim cs = [] ↔ cs.all isSpace = true := by
  constructor
  · intro h
    obtain ⟨left, right, split, hl, hr⟩ := exists_trim cs
    rw [split, h, List.append_nil, List.all_append, hl, hr, Bool.and_self]
  · intro blank
    simpa using @trim_append_of_all cs [] blank rfl []

end ImportWeave.Text
