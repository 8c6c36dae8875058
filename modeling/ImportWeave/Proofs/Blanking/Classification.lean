import ImportWeave.Proofs.Blanking.Characters

/-! # Blanking as classification

A classifier looks at a source one byte at a time and says of each byte whether it is kept. It knows five
regions of a source and keeps a stack of open substitutions, each with its depth in braces. The second byte
of a mark or of an escape gets its verdict together with the first one. Depths are numbers here and words
in the machine that blanks, so the two agree as long as no depth outgrows a word. -/

namespace ImportWeave

namespace Blanking

inductive Region where
  | code
  | lineComment
  | blockComment
  | string (quote : UInt8)
  | template
deriving DecidableEq, Repr

inductive Verdict where
  | keep
  | blank
deriving DecidableEq, Repr

/-- A blanked byte that ends a line is still there. -/
def Verdict.apply : Verdict → UInt8 → UInt8
  | .keep, b => b
  | .blank, b => blankByte b

structure Classifier where
  region : Region
  /-- The depths of the open substitutions, the innermost first. -/
  depths : List Nat
  /-- The verdict on the byte that follows, if the byte before it has decided that too. -/
  pending : Option Verdict
deriving DecidableEq, Repr

namespace Classifier

def start : Classifier := ⟨.code, [], none⟩

def openBrace : List Nat → List Nat
  | [] => []
  | depth :: outer => (depth + 1) :: outer

/-- The brace that closes a substitution leads back into the text of its template. -/
def closeBrace : List Nat → Region × List Nat
  | [] => (.code, [])
  | 0 :: outer => (.template, outer)
  | (depth + 1) :: outer => (.code, depth :: outer)

/-- What follows a byte of code that does not open a comment. -/
def behind (b : UInt8) (depths : List Nat) : Region × List Nat :=
  if b = singleQuote ∨ b = doubleQuote then (.string b, depths)
  else if b = backtick then (.template, depths)
  else if b = leftBrace then (.code, openBrace depths)
  else if b = rightBrace then closeBrace depths
  else (.code, depths)

/-- The verdict on the byte `b` in front of the byte `next`, and the classifier behind it. -/
def classify (κ : Classifier) (b : UInt8) (next : Option UInt8) : Verdict × Classifier :=
  match κ.pending with
  | some verdict => (verdict, { κ with pending := none })
  | none =>
    match κ.region with
    | .code =>
      if b = slash ∧ next = some slash then (.blank, { κ with region := .lineComment })
      -- the star is read here, so it cannot close the comment that it opens
      else if b = slash ∧ next = some star then
        (.blank, { κ with region := .blockComment, pending := some .blank })
      else (.keep, ⟨(behind b κ.depths).1, (behind b κ.depths).2, none⟩)
    | .lineComment => if isLineEnd b then (.keep, { κ with region := .code }) else (.blank, κ)
    | .blockComment =>
      if b = star ∧ next = some slash then
        (.blank, { κ with region := .code, pending := some .blank })
      else (.blank, κ)
    | .string quote =>
      if b = quote ∨ b = lineFeed then (.keep, { κ with region := .code })
      else if b = backslash then (.blank, { κ with pending := some .blank })
      else (.blank, κ)
    | .template =>
      if b = backslash then (.blank, { κ with pending := some .blank })
      else if b = backtick then (.keep, { κ with region := .code })
      else if b = dollar ∧ next = some leftBrace then (.keep, ⟨.code, 0 :: κ.depths, some .keep⟩)
      else (.blank, κ)

/-- What is left of a source by the verdicts on its bytes. -/
def blanked (κ : Classifier) : List UInt8 → List UInt8
  | [] => []
  | b :: bs =>
    (κ.classify b bs.head?).1.apply b :: blanked (κ.classify b bs.head?).2 bs

end Classifier

theorem toNat_add_one {depth : UInt32} (h : depth.toNat + 1 < UInt32.size) :
    (depth + 1).toNat = depth.toNat + 1 := by
  rw [UInt32.toNat_add, UInt32.toNat_one]
  exact Nat.mod_eq_of_lt h

theorem toNat_sub_one {depth : UInt32} (h : depth ≠ 0) : (depth - 1).toNat + 1 = depth.toNat := by
  have pos : 1 ≤ depth.toNat := by
    apply Nat.one_le_iff_ne_zero.mpr
    intro zero
    exact h (UInt32.toNat_inj.mp zero)
  have le : (1 : UInt32) ≤ depth := UInt32.le_iff_toNat_le.mpr pos
  rw [UInt32.toNat_sub_of_le _ _ le, UInt32.toNat_one]
  exact Nat.sub_add_cancel pos

namespace State

/-- The classifier that a state of the machine stands for. -/
def classifier (σ : State) : Classifier :=
  let depths := σ.substitutions.map UInt32.toNat
  match σ.mode with
  | .code => ⟨.code, depths, none⟩
  | .lineComment => ⟨.lineComment, depths, none⟩
  | .blockOpening => ⟨.blockComment, depths, some .blank⟩
  | .blockComment => ⟨.blockComment, depths, none⟩
  | .blockClosing => ⟨.code, depths, some .blank⟩
  | .literal quote => ⟨.string quote, depths, none⟩
  | .literalEscape quote => ⟨.string quote, depths, some .blank⟩
  | .template => ⟨.template, depths, none⟩
  | .templateEscape => ⟨.template, depths, some .blank⟩
  | .substitutionOpening => ⟨.code, 0 :: depths, some .keep⟩

/-! ## Depths that fit into words -/

/-- No depth outgrows a word, even if `braces` more braces are opened in it. -/
structure HasRoom (substitutions : List UInt32) (braces : Nat) : Prop where
  fresh : braces < UInt32.size
  opened : ∀ depth ∈ substitutions, depth.toNat + braces < UInt32.size

variable {σ : State} {substitutions : List UInt32} {braces : Nat}

namespace HasRoom

theorem mono {fewer : Nat} (h : HasRoom substitutions braces) (le : fewer ≤ braces) :
    HasRoom substitutions fewer where
  fresh := Nat.lt_of_le_of_lt le h.fresh
  opened := fun depth hd => Nat.lt_of_le_of_lt (Nat.add_le_add_left le _) (h.opened depth hd)

theorem push (h : HasRoom substitutions braces) : HasRoom (0 :: substitutions) braces where
  fresh := h.fresh
  opened := List.forall_mem_cons.mpr ⟨by simpa using h.fresh, h.opened⟩

theorem deepen (h : HasRoom substitutions (braces + 1)) :
    HasRoom (Blanking.deepen substitutions) braces := by
  have less := h.mono (Nat.le_succ braces)
  cases substitutions with
  | nil => exact less
  | cons depth outer =>
      obtain ⟨here, -⟩ := List.forall_mem_cons.mp h.opened
      refine ⟨less.fresh, List.forall_mem_cons.mpr ⟨?_, (List.forall_mem_cons.mp less.opened).2⟩⟩
      rw [toNat_add_one (by omega)]
      omega

theorem closeBrace (h : HasRoom substitutions braces) :
    HasRoom (closeBrace substitutions).substitutions braces := by
  cases substitutions with
  | nil => exact h
  | cons depth outer =>
      obtain ⟨here, outside⟩ := List.forall_mem_cons.mp h.opened
      rw [State.closeBrace]
      split
      · exact ⟨h.fresh, outside⟩
      · next deep =>
          have less := toNat_sub_one deep
          exact ⟨h.fresh, List.forall_mem_cons.mpr ⟨by omega, outside⟩⟩

end HasRoom

/-- All that a step can do to the open substitutions: nothing, open a brace in the innermost, close one, or
open one more substitution. -/
theorem substitutions_step (σ : State) (b : UInt8) (next : Option UInt8) :
    (σ.step b next).substitutions = σ.substitutions ∨
      (b = leftBrace ∧ (σ.step b next).substitutions = deepen σ.substitutions) ∨
      (σ.step b next).substitutions = (closeBrace σ.substitutions).substitutions ∨
      (σ.step b next).substitutions = 0 :: σ.substitutions := by
  rcases σ with ⟨mode, substitutions⟩
  cases mode with
  | code =>
      simp only [step]
      split
      · exact .inl rfl
      · split
        · exact .inl rfl
        · split
          · exact .inl rfl
          · split
            · exact .inl rfl
            · split
              · next brace => exact .inr (.inl ⟨brace, rfl⟩)
              · split
                · exact .inr (.inr (.inl rfl))
                · exact .inl rfl
  | lineComment | blockComment => simp only [step]; split <;> exact .inl rfl
  | literal | template =>
      left
      simp only [step]
      repeat' split
      all_goals rfl
  | blockOpening | blockClosing | literalEscape | templateEscape => exact .inl rfl
  | substitutionOpening => exact .inr (.inr (.inr rfl))

/-- A byte takes up room only if it is an opening brace. -/
theorem hasRoom_step {b : UInt8} {bs : List UInt8}
    (h : HasRoom σ.substitutions ((b :: bs).count leftBrace)) (next : Option UInt8) :
    HasRoom (σ.step b next).substitutions (bs.count leftBrace) := by
  have less := h.mono List.count_le_count_cons
  rcases substitutions_step σ b next with e | ⟨rfl, e⟩ | e | e
  · rwa [e]
  · rw [List.count_cons_self] at h
    rw [e]
    exact h.deepen
  · rw [e]
    exact less.closeBrace
  · rw [e]
    exact less.push

/-! ## The machine as a classifier -/

theorem map_deepen (h : ∀ depth ∈ substitutions, depth.toNat + 1 < UInt32.size) :
    (deepen substitutions).map UInt32.toNat =
      Classifier.openBrace (substitutions.map UInt32.toNat) := by
  cases substitutions with
  | nil => rfl
  | cons depth outer =>
      rw [deepen, List.map_cons, toNat_add_one (h depth List.mem_cons_self)]
      rfl

theorem classifier_closeBrace (substitutions : List UInt32) :
    (closeBrace substitutions).classifier =
      ⟨(Classifier.closeBrace (substitutions.map UInt32.toNat)).1,
        (Classifier.closeBrace (substitutions.map UInt32.toNat)).2, none⟩ := by
  cases substitutions with
  | nil => rfl
  | cons depth outer =>
      rw [closeBrace]
      split
      · next zero =>
          rw [zero]
          rfl
      · next deep =>
          rw [List.map_cons, ← toNat_sub_one deep]
          rfl

/-- In code that opens no comment, words count as numbers do. -/
theorem classifier_step_code {b : UInt8} {next : Option UInt8}
    (line : ¬ (b = slash ∧ next = some slash)) (block : ¬ (b = slash ∧ next = some star))
    (room : b = leftBrace → ∀ depth ∈ substitutions, depth.toNat + 1 < UInt32.size) :
    (step ⟨.code, substitutions⟩ b next).classifier =
      ⟨(Classifier.behind b (substitutions.map UInt32.toNat)).1,
        (Classifier.behind b (substitutions.map UInt32.toNat)).2, none⟩ := by
  simp only [step, if_neg line, if_neg block, Classifier.behind]
  split
  · rfl
  · split
    · rfl
    · split
      · next brace => exact congrArg (Classifier.mk .code · none) (map_deepen (room brace))
      · split
        · exact classifier_closeBrace substitutions
        · rfl

/-- One byte: the machine shows what the verdict leaves of it, and goes on as the classifier does. -/
theorem exists_classify {b : UInt8}
    (room : b = leftBrace → ∀ depth ∈ σ.substitutions, depth.toNat + 1 < UInt32.size)
    (next : Option UInt8) :
    ∃ verdict, σ.classifier.classify b next = (verdict, (σ.step b next).classifier) ∧
      verdict.apply b = σ.output b next := by
  rcases σ with ⟨mode, substitutions⟩
  cases mode with
  | code =>
      change ∃ verdict, Classifier.classify ⟨.code, _, none⟩ b next = _ ∧ _
      by_cases line : b = slash ∧ next = some slash
      · simp only [Classifier.classify, step, if_pos line]
        exact ⟨.blank, rfl, by simp [Verdict.apply, output, shows, line]⟩
      · by_cases block : b = slash ∧ next = some star
        · simp only [Classifier.classify, step, if_neg line, if_pos block]
          exact ⟨.blank, rfl, by simp [Verdict.apply, output, shows, block]⟩
        · rw [output_code line block, classifier_step_code line block room]
          simp only [Classifier.classify, if_neg line, if_neg block]
          exact ⟨.keep, rfl, rfl⟩
  | lineComment =>
      change ∃ verdict, Classifier.classify ⟨.lineComment, _, none⟩ b next = _ ∧ _
      simp only [Classifier.classify, step]
      split
      · next lineEnd => exact ⟨.keep, rfl, (if_pos lineEnd).symm⟩
      · exact ⟨.blank, rfl, rfl⟩
  | blockComment =>
      change ∃ verdict, Classifier.classify ⟨.blockComment, _, none⟩ b next = _ ∧ _
      simp only [Classifier.classify, step]
      split <;> exact ⟨.blank, rfl, rfl⟩
  | literal quote =>
      have shown : output ⟨.literal quote, substitutions⟩ b next =
          if b = quote ∨ b = lineFeed then b else blankByte b := by simp [output, shows]
      change ∃ verdict, Classifier.classify ⟨.string quote, _, none⟩ b next = _ ∧ _
      simp only [Classifier.classify, step, shown]
      split
      · exact ⟨.keep, rfl, rfl⟩
      · split <;> exact ⟨.blank, rfl, rfl⟩
  | template =>
      have shown : output ⟨.template, substitutions⟩ b next =
          if b = backtick ∨ b = dollar ∧ next = some leftBrace then b else blankByte b := by
        simp [output, shows]
      change ∃ verdict, Classifier.classify ⟨.template, _, none⟩ b next = _ ∧ _
      simp only [Classifier.classify, step, shown]
      split
      · next escape =>
          have other : ¬ (b = backtick ∨ b = dollar ∧ next = some leftBrace) := by
            simp +decide [escape]
          exact ⟨.blank, rfl, (if_neg other).symm⟩
      · split
        · next tick => exact ⟨.keep, rfl, (if_pos (.inl tick)).symm⟩
        · next other =>
            split
            · next opening => exact ⟨.keep, rfl, (if_pos (.inr opening)).symm⟩
            · next text => exact ⟨.blank, rfl, (if_neg (not_or.mpr ⟨other, text⟩)).symm⟩
  -- here the verdict was given with the byte before
  | blockOpening | blockClosing | literalEscape | templateEscape => exact ⟨.blank, rfl, rfl⟩
  | substitutionOpening => exact ⟨.keep, rfl, rfl⟩

/-- All bytes: what the machine shows is what the verdicts leave. The induction is on the bytes, and the
room for the braces among them carries it. -/
theorem outputs_eq_blanked {bs : List UInt8} (h : HasRoom σ.substitutions (bs.count leftBrace)) :
    outputs none σ bs = σ.classifier.blanked bs := by
  induction bs generalizing σ with
  | nil => rfl
  | cons b bs ih =>
      have room : b = leftBrace → ∀ depth ∈ σ.substitutions, depth.toNat + 1 < UInt32.size := by
        rintro rfl depth hd
        have := h.opened depth hd
        rw [List.count_cons_self] at this
        omega
      obtain ⟨verdict, classified, shown⟩ := exists_classify room bs.head?
      rw [outputs, peek_none, Classifier.blanked, classified, shown, ih (hasRoom_step h _)]

end State

end Blanking

open Blanking

/-- The bytes of the blanked source are those of the source by the verdicts of the classifier, as long as
fewer braces are opened than words can count. -/
theorem blankSource_eq_classified (source : String)
    (few : (bytesOf source).count leftBrace < UInt32.size) :
    bytesOf (blankSource source) = Classifier.start.blanked (bytesOf source) := by
  have room : State.HasRoom State.start.substitutions ((bytesOf source).count leftBrace) :=
    ⟨few, by simp [State.start]⟩
  rw [bytesOf_blankSource, blankBytes, code_eq_outputs]
  exact State.outputs_eq_blanked room

/-- Nested templates with braces and an escaped backtick, a comment that its own star does not close, a
literal that ends with its line, and an escape at the very end. -/
theorem blankSource_classified_nested :
    let source := "`a\\`$\x7b \x7bb: `$\x7bc\x7d`\x7d \x7dd` /*/ e */ 'f\n\"\\"
    (bytesOf source).count leftBrace < UInt32.size ∧
      bytesOf (blankSource source) = bytesOf "`   $\x7b \x7bb: `$\x7bc\x7d`\x7d \x7d `          ' \n\" " ∧
      bytesOf (blankSource source) = Classifier.start.blanked (bytesOf source) := by
  intro source
  have few : (bytesOf source).count leftBrace < UInt32.size := by decide +kernel
  refine ⟨few, ?_, blankSource_eq_classified source few⟩
  rw [blankSource_eq_classified source few]
  decide +kernel

end ImportWeave
