import ImportWeave.Proofs.Blanking.Characters

/-! # Live offsets

An offset of a source is live if a letter put there would be code. The machine that blanks the source
decides this: the offset is live exactly if the machine is in code there. What it has read last decides it
as well, where that is a brace that opens names, or the end of a statement. -/

namespace ImportWeave

open Blanking

/-- A letter put at this offset of the source is code: blanking shows it. -/
def IsLiveOffset (source : String) (offset : Nat) : Prop :=
  (bytesOf (blankSource (String.ofList ((Text.splitAtByte source.toList offset).1 ++ 'x' ::
    (Text.splitAtByte source.toList offset).2))))[offset]? = some (UInt8.ofNat 'x'.toNat)

instance (source : String) (offset : Nat) : Decidable (IsLiveOffset source offset) :=
  inferInstanceAs (Decidable (_ = _))

namespace Blanking

def tab : UInt8 := 0x09
def semicolon : UInt8 := 0x3B
def letter : UInt8 := 0x78

end Blanking

namespace Blanking.State

/-- The state in front of a byte of the source. -/
def before (source : String) (offset : Nat) : State :=
  after (bytesOf source)[offset]? start ((bytesOf source).take offset)

theorem before_eq {source : String} {front rest : List Char} (h : source.toList = front ++ rest) :
    before source (Text.byteLength front) =
      after (Text.encode rest).head? start (Text.encode front) := by
  rw [before, bytesOf_eq_encode, h, Text.encode_append, ← Text.length_encode, List.take_left,
    List.getElem?_append_right (Nat.le_refl _), Nat.sub_self, List.head?_eq_getElem?]

/-- What is shown for the byte after some others. -/
theorem getElem?_outputs (next : Option UInt8) (σ : State) (bs : List UInt8) (b : UInt8)
    (cs : List UInt8) :
    (outputs next σ (bs ++ b :: cs))[bs.length]? =
      some ((after (some b) σ bs).output b (peek cs next)) := by
  rw [outputs_append, peek_cons, List.getElem?_append_right (by simp), length_outputs, Nat.sub_self]
  rfl

/-! ## Bytes that lead neither into code nor out of it -/

section Plain

variable {σ : State} {b : UInt8} (plain : isPlain b = true) (expects : σ.Expects (some b))
  (opening : σ.mode ≠ .substitutionOpening) (next : Option UInt8)

include plain expects opening

/-- A plain byte leaves code as it is, and does not lead there. -/
theorem mode_step_of_isPlain : (σ.step b next).mode = .code ↔ σ.mode = .code := by
  rcases σ with ⟨mode, substitutions⟩
  rw [isPlain_iff] at plain
  cases mode with
  | code => simp [step, plain, apply_ite State.mode]
  | lineComment => simp [step, isLineEnd, plain]
  | blockComment => simp [step, plain]
  | literal quote =>
      rcases expects with rfl | rfl
      · simp [step, plain]
      · simp [step, plain]
  | template => simp [step, plain]
  | literalEscape | templateEscape => simp [step]
  | blockOpening | blockClosing => simp [Expects, plain] at expects
  | substitutionOpening => exact absurd rfl opening

/-- A plain byte that is not a space is shown in code alone. -/
theorem output_of_isPlain (notSpace : b ≠ space) : σ.output b next = b ↔ σ.mode = .code := by
  rw [isPlain_iff] at plain
  have shown : σ.output b next = b ↔ σ.shows b next = true := by
    have blank : blankByte b = space := by simp [blankByte, isLineEnd, plain]
    cases h : σ.shows b next with
    | false => simp [output, h, blank, notSpace.symm]
    | true => simp [output, h]
  rw [shown]
  rcases σ with ⟨mode, substitutions⟩
  cases mode with
  | literal quote =>
      rcases expects with rfl | rfl
      · simp [shows, plain]
      · simp [shows, plain]
  | code | template => simp [shows, plain]
  | lineComment | blockOpening | blockComment | blockClosing | literalEscape | templateEscape =>
      simp [shows]
  | substitutionOpening => exact absurd rfl opening

end Plain

/-- Only in front of a brace is the machine about to open a substitution. -/
theorem Expects.ne_substitutionOpening {σ : State} {b : UInt8} (h : σ.Expects (some b))
    (hb : b ≠ leftBrace) : σ.mode ≠ .substitutionOpening := by
  rcases σ with ⟨mode, substitutions⟩
  rintro rfl
  exact hb (Option.some.inj h)

theorem mode_closeBrace (substitutions : List UInt32) :
    (closeBrace substitutions).mode = if substitutions.head? = some 0 then .template else .code := by
  cases substitutions with
  | nil => rfl
  | cons depth outer => simp [closeBrace, apply_ite State.mode]

/-- Only behind a dollar sign is the machine about to open a substitution. -/
theorem ne_substitutionOpening_of_step {b : UInt8} (h : b ≠ dollar) (σ : State)
    (next : Option UInt8) : (σ.step b next).mode ≠ .substitutionOpening := by
  rcases σ with ⟨mode, substitutions⟩
  cases mode with
  | code =>
      simp only [step, apply_ite State.mode, mode_closeBrace]
      repeat' split
      all_goals simp
  | lineComment | blockComment | literal | template =>
      simp only [step, h, apply_ite State.mode, false_and, if_false]
      repeat' split
      all_goals simp
  | blockOpening | blockClosing | literalEscape | templateEscape | substitutionOpening => simp [step]

/-! ## The end of a statement -/

/-- The byte ends something that stands in code. A quotation mark closes a literal, and a brace does not
lead back into a template. -/
def Ends (σ : State) (b : UInt8) : Prop :=
  if b = singleQuote ∨ b = doubleQuote then σ.mode = .literal b
  else σ.mode = .code ∧ (b = rightBrace → σ.substitutions.head? ≠ some 0)

theorem mode_step_quote {σ : State} {quote : UInt8} (h : quote = singleQuote ∨ quote = doubleQuote)
    (expects : σ.Expects (some quote)) (next : Option UInt8) :
    (σ.step quote next).mode = .code ↔ σ.Ends quote := by
  rcases σ with ⟨mode, substitutions⟩
  rw [Ends, if_pos h]
  cases mode with
  | literal opened =>
      rcases h with rfl | rfl
      · rcases expects with rfl | rfl <;> simp +decide [step]
      · rcases expects with rfl | rfl <;> simp +decide [step]
  | code | lineComment | blockComment | template | literalEscape | templateEscape =>
      rcases h with rfl | rfl <;> simp +decide [step]
  | blockOpening | blockClosing | substitutionOpening =>
      rcases h with rfl | rfl <;> simp +decide [Expects] at expects

theorem mode_step_rightBrace {σ : State} (expects : σ.Expects (some rightBrace))
    (next : Option UInt8) : (σ.step rightBrace next).mode = .code ↔ σ.Ends rightBrace := by
  rcases σ with ⟨mode, substitutions⟩
  rw [Ends, if_neg (by decide)]
  cases mode with
  | code => simp +decide [step, mode_closeBrace]
  | lineComment | blockComment | template => simp +decide [step]
  | literal quote =>
      rcases expects with rfl | rfl
      · simp +decide [step]
      · simp +decide [step]
  | literalEscape | templateEscape => simp [step]
  | blockOpening | blockClosing | substitutionOpening => simp +decide [Expects] at expects

/-- A byte that may end a statement leads into code exactly if it ends something there. -/
theorem mode_step_endMark {σ : State} {b : UInt8}
    (h : (b = singleQuote ∨ b = doubleQuote) ∨ b = rightBrace ∨ b = semicolon)
    (expects : σ.Expects (some b)) (next : Option UInt8) :
    (σ.step b next).mode = .code ↔ σ.Ends b := by
  rcases h with quote | rfl | rfl
  · exact mode_step_quote quote expects next
  · exact mode_step_rightBrace expects next
  · rw [mode_step_of_isPlain (by decide) expects (expects.ne_substitutionOpening (by decide)), Ends,
      if_neg (by decide)]
    simp +decide

/-- Blanks lead neither into code nor out of it. -/
theorem mode_after_blanks {σ : State} {next : Option UInt8} {bs : List UInt8}
    (h : ∀ b ∈ bs, b = space ∨ b = tab) (expects : σ.Expects (peek bs next)) :
    (after next σ bs).mode = .code ↔ σ.mode = .code := by
  induction bs generalizing σ with
  | nil => rfl
  | cons b bs ih =>
      rw [List.forall_mem_cons] at h
      rw [peek_cons] at expects
      have plain : isPlain b = true ∧ b ≠ leftBrace := by rcases h.1 with rfl | rfl <;> decide
      rw [after, ih h.2 (expects_step expects _),
        mode_step_of_isPlain plain.1 expects (expects.ne_substitutionOpening plain.2)]

end Blanking.State

/-! ## Live offsets and the state there -/

open Blanking.State

theorem isLiveOffset_iff {source : String} {front rest : List Char}
    (h : source.toList = front ++ rest) :
    IsLiveOffset source (Text.byteLength front) ↔
      (after (some letter) start (Text.encode front)).mode = .code := by
  have expects : (after (some letter) start (Text.encode front)).Expects (some letter) :=
    expects_after (expects_start _)
  rw [IsLiveOffset, h, Text.splitAtByte_byteLength, bytesOf_blankSource, blankBytes_eq_outputs,
    String.toList_ofList, Text.encode_append, Text.encode_cons, Text.utf8EncodeChar_of_lt (by decide),
    List.singleton_append, ← Text.length_encode, getElem?_outputs, Option.some.injEq]
  exact output_of_isPlain (by decide) expects (expects.ne_substitutionOpening (by decide)) _ (by decide)

/-- The last byte of a text is a dollar sign only if its last character is. -/
theorem ne_substitutionOpening_after {cs : List Char} (h : cs.getLast? ≠ some '$')
    (next : Option UInt8) : (after next start (Text.encode cs)).mode ≠ .substitutionOpening := by
  rcases List.eq_nil_or_concat cs with rfl | ⟨front, c, rfl⟩
  · simp [after, start]
  · have hc : c ≠ '$' := by simpa using h
    have notMem : dollar ∉ String.utf8EncodeChar c :=
      Text.notMem_utf8EncodeChar (by decide) fun e => hc (Char.toNat_inj.mp e)
    obtain ⟨bs, b, hb⟩ := List.eq_nil_or_concat (String.utf8EncodeChar c) |>.resolve_left
      (Text.utf8EncodeChar_ne_nil c)
    have : b ≠ dollar := by
      rintro rfl
      exact notMem (by simp [hb])
    simp only [List.concat_eq_append] at hb ⊢
    rw [Text.encode_append, Text.encode_cons, Text.encode_nil, List.append_nil, hb,
      ← List.append_assoc, after_append]
    exact ne_substitutionOpening_of_step this _ _

/-- Behind a brace that does not open a substitution, an offset is live exactly if the brace is shown. -/
theorem isLiveOffset_leftBrace {source : String} {front rest : List Char}
    (h : source.toList = front ++ '\x7b' :: rest) (hfront : front.getLast? ≠ some '$') :
    IsLiveOffset source (Text.byteLength (front ++ ['\x7b'])) ↔
      (blankBytes source)[Text.byteLength front]? = some leftBrace := by
  have split : source.toList = (front ++ ['\x7b']) ++ rest := by simpa using h
  have brace : Text.encode ['\x7b'] = [leftBrace] := rfl
  have expects : (after (some leftBrace) start (Text.encode front)).Expects (some leftBrace) :=
    expects_after (expects_start _)
  have opening := ne_substitutionOpening_after hfront (some leftBrace)
  have shown : (blankBytes source)[Text.byteLength front]? = some leftBrace ↔
      (after (some leftBrace) start (Text.encode front)).mode = .code := by
    rw [blankBytes_eq_outputs, split, List.append_assoc, Text.encode_append, Text.encode_append, brace,
      List.singleton_append, ← Text.length_encode, getElem?_outputs, Option.some.injEq]
    exact output_of_isPlain (by decide) expects opening _ (by decide)
  rw [isLiveOffset_iff split, shown, Text.encode_append, brace, after_append]
  exact mode_step_of_isPlain (by decide) expects opening _

end ImportWeave
