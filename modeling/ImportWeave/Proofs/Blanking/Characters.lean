import ImportWeave.Proofs.Blanking.OnePass
import ImportWeave.Text.Offset

/-! # Blanking keeps characters whole

The marks that blanking looks for are single bytes, none of which occurs inside the bytes of a longer
character. So a longer character is shown or blanked as a whole, and the blanked bytes are the bytes of a
text. -/

namespace ImportWeave

namespace Text

/-- The bytes of characters in a row. -/
def encode (cs : List Char) : List UInt8 := cs.flatMap String.utf8EncodeChar

@[simp] theorem encode_nil : encode [] = [] := rfl

@[simp] theorem encode_cons (c : Char) (cs : List Char) :
    encode (c :: cs) = String.utf8EncodeChar c ++ encode cs := rfl

@[simp] theorem encode_append (cs ds : List Char) : encode (cs ++ ds) = encode cs ++ encode ds := by
  simp [encode]

@[simp] theorem length_encode (cs : List Char) : (encode cs).length = byteLength cs := by
  induction cs with
  | nil => rfl
  | cons c cs ih => rw [encode_cons, List.length_append, String.length_utf8EncodeChar, ih, byteLength_cons]

theorem utf8EncodeChar_of_lt {c : Char} (h : c.toNat < 128) :
    String.utf8EncodeChar c = [UInt8.ofNat c.toNat] := by
  have : c.val.toNat ≤ 0x7f := Nat.le_of_lt_succ h
  simp only [String.utf8EncodeChar, if_pos this]
  rfl

/-- All bytes of a longer character are beyond the single-byte ones. -/
theorem le_of_mem_utf8EncodeChar {c : Char} (h : 128 ≤ c.toNat) :
    ∀ b ∈ String.utf8EncodeChar c, 128 ≤ b.toNat := by
  have h' : ¬ c.val.toNat ≤ 0x7f := Nat.not_le.mpr h
  intro b hb
  simp only [String.utf8EncodeChar, if_neg h'] at hb
  split at hb
  · simp only [List.mem_cons, List.not_mem_nil, or_false] at hb
    rcases hb with rfl | rfl <;> simp only [UInt8.toNat_ofNat'] <;> omega
  · split at hb
    · simp only [List.mem_cons, List.not_mem_nil, or_false] at hb
      rcases hb with rfl | rfl | rfl <;> simp only [UInt8.toNat_ofNat'] <;> omega
    · simp only [List.mem_cons, List.not_mem_nil, or_false] at hb
      rcases hb with rfl | rfl | rfl | rfl <;> simp only [UInt8.toNat_ofNat'] <;> omega

/-- A single-byte character is found by its byte: no other character has this byte. -/
theorem notMem_utf8EncodeChar {c : Char} {b : UInt8} (hb : b.toNat < 128) (h : c.toNat ≠ b.toNat) :
    b ∉ String.utf8EncodeChar c := by
  intro mem
  by_cases lt : c.toNat < 128
  · rw [utf8EncodeChar_of_lt lt, List.mem_singleton] at mem
    apply h
    rw [mem, UInt8.toNat_ofNat', Nat.mod_eq_of_lt (Nat.lt_trans lt (by decide))]
  · exact absurd (le_of_mem_utf8EncodeChar (Nat.not_lt.mp lt) b mem) (Nat.not_le.mpr hb)

theorem utf8EncodeChar_ne_nil (c : Char) : String.utf8EncodeChar c ≠ [] := by
  have := String.length_utf8EncodeChar c
  have pos := c.utf8Size_pos
  intro h
  rw [h, List.length_nil] at this
  omega

end Text

theorem bytesOf_eq_encode (text : String) : bytesOf text = Text.encode text.toList := by
  rw [bytesOf, ← String.utf8Encode_toList, List.utf8Encode, List.toList_data_toByteArray]
  rfl

theorem Text.encode_injective : Function.Injective encode := by
  intro cs ds h
  have bytes : (String.ofList cs).toByteArray.data.toList = (String.ofList ds).toByteArray.data.toList := by
    rw [← bytesOf, ← bytesOf, bytesOf_eq_encode, bytesOf_eq_encode, String.toList_ofList,
      String.toList_ofList, h]
  exact String.ofList_injective
    (String.toByteArray_inj.mp (ByteArray.ext (Array.toList_inj.mp bytes)))

/-- Bytes that are those of characters are the bytes of a text. -/
theorem bytesOf_fromUTF8? {bs : List UInt8} {cs : List Char} (h : bs = Text.encode cs) :
    (String.fromUTF8? ⟨bs.toArray⟩).map bytesOf = some bs := by
  have valid : ByteArray.IsValidUTF8 ⟨bs.toArray⟩ := by
    refine .intro cs ?_
    apply ByteArray.ext
    rw [List.utf8Encode, List.data_toByteArray, h]
    rfl
  rw [String.fromUTF8?, dif_pos valid]
  rfl

namespace Blanking

open State

/-- A byte of a longer character. -/
def IsHigh (b : UInt8) : Prop := 128 ≤ b.toNat

theorem IsHigh.ne {b m : UInt8} (h : IsHigh b) (hm : m.toNat < 128) : b ≠ m := by
  rintro rfl
  exact absurd hm (Nat.not_lt.mpr h)

theorem IsHigh.isPlain {b : UInt8} (h : IsHigh b) : isPlain b = true := by
  rw [isPlain_iff]
  refine ⟨h.ne ?_, h.ne ?_, h.ne ?_, h.ne ?_, h.ne ?_, h.ne ?_, h.ne ?_, h.ne ?_, h.ne ?_, h.ne ?_⟩ <;>
    decide

theorem IsHigh.isLineEnd {b : UInt8} (h : IsHigh b) : isLineEnd b = false := by
  simp [Blanking.isLineEnd, isPlain_iff.mp h.isPlain]

theorem IsHigh.isMark {b : UInt8} (h : IsHigh b) : isMark b = false := by
  have brace : b ≠ leftBrace := h.ne (by decide)
  simp [State.isMark, isPlain_iff.mp h.isPlain, brace]

/-- What a state promises about the byte that follows. The modes that stand inside a mark of two bytes are
only entered in front of the second one, and literals are only those in quotation marks. -/
def State.Expects (σ : State) (next : Option UInt8) : Prop :=
  match σ.mode with
  | .blockOpening => next = some star
  | .blockClosing => next = some slash
  | .substitutionOpening => next = some leftBrace
  | .literal quote | .literalEscape quote => quote = singleQuote ∨ quote = doubleQuote
  | .code | .lineComment | .blockComment | .template | .templateEscape => True

theorem State.expects_closeBrace (substitutions : List UInt32) (next : Option UInt8) :
    (closeBrace substitutions).Expects next := by
  cases substitutions with
  | nil => exact trivial
  | cons depth outer =>
      rw [closeBrace]
      split <;> exact trivial

theorem State.expects_step {σ : State} {b : UInt8} (h : σ.Expects (some b)) (next : Option UInt8) :
    (σ.step b next).Expects next := by
  rcases σ with ⟨mode, substitutions⟩
  cases mode with
  | code =>
      simp only [step]
      split
      · exact trivial
      · split
        · next hb => exact hb.2
        · split
          · next hb => exact hb
          · split
            · exact trivial
            · split
              · exact trivial
              · split
                · exact expects_closeBrace _ _
                · exact trivial
  | lineComment => simp only [step]; split <;> exact trivial
  | blockOpening => exact trivial
  | blockComment =>
      simp only [step]
      split
      · next hb => exact hb.2
      · exact trivial
  | blockClosing => exact trivial
  | literal quote =>
      simp only [step]
      split
      · exact trivial
      · split <;> exact h
  | literalEscape quote => exact h
  | template =>
      simp only [step]
      split
      · exact trivial
      · split
        · exact trivial
        · split
          · next hb => exact hb.2
          · exact trivial
  | templateEscape => exact trivial
  | substitutionOpening => exact trivial

theorem State.expects_after {σ : State} {next : Option UInt8} {bs : List UInt8}
    (h : σ.Expects (peek bs next)) : (after next σ bs).Expects next := by
  induction bs generalizing σ with
  | nil => exact h
  | cons b bs ih => exact ih (expects_step h _)

theorem State.expects_start (next : Option UInt8) : start.Expects next := trivial

/-- A longer character is code: it is shown. -/
theorem outputs_code_of_isHigh (substitutions : List UInt32) (next : Option UInt8) {bs : List UInt8}
    (h : ∀ b ∈ bs, IsHigh b) : outputs next ⟨.code, substitutions⟩ bs = bs := by
  induction bs with
  | nil => rfl
  | cons b bs ih =>
      rw [List.forall_mem_cons] at h
      rw [outputs, step_code_of_not_isMark h.1.isMark, output_code_of_not_isMark h.1.isMark, ih h.2]

/-- The inside of a comment, a template, or a literal in quotation marks. -/
def Mode.IsHidden (mode : Mode) : Prop :=
  mode = .lineComment ∨ mode = .blockComment ∨ mode = .template ∨ mode = .literal singleQuote ∨
    mode = .literal doubleQuote

theorem Mode.isHidden_literal {quote : UInt8} (h : quote = singleQuote ∨ quote = doubleQuote) :
    (Mode.literal quote).IsHidden := by
  rcases h with rfl | rfl
  · exact .inr (.inr (.inr (.inl rfl)))
  · exact .inr (.inr (.inr (.inr rfl)))

/-- In text that is blanked, a byte of a longer character is blanked and changes nothing. -/
theorem step_of_isHigh {σ : State} {b : UInt8} (h : IsHigh b) (next : Option UInt8)
    (hidden : σ.mode.IsHidden) : σ.step b next = σ ∧ σ.output b next = blankByte b := by
  rcases σ with ⟨mode, substitutions⟩
  have plain := isPlain_iff.mp h.isPlain
  rcases hidden with rfl | rfl | rfl | rfl | rfl
  · simp [step, output, shows, isLineEnd, plain]
  · simp [step, output, shows, plain]
  · simp [step, output, shows, plain]
  · simp [step, output, shows, plain]
  · simp [step, output, shows, plain]

theorem outputs_of_isHigh {σ : State} (next : Option UInt8) {bs : List UInt8}
    (h : ∀ b ∈ bs, IsHigh b) (hidden : σ.mode.IsHidden) : outputs next σ bs = blanks bs := by
  induction bs with
  | nil => rfl
  | cons b bs ih =>
      rw [List.forall_mem_cons] at h
      obtain ⟨hs, ho⟩ := step_of_isHigh h.1 (peek bs next) hidden
      rw [outputs, hs, ho, ih h.2]
      rfl

/-- The bytes of a longer character are shown together or blanked together. -/
theorem outputs_eq_or_eq_blanks {σ : State} {next : Option UInt8} {bs : List UInt8}
    (h : ∀ b ∈ bs, IsHigh b) (expects : σ.Expects (peek bs next)) (nonempty : bs ≠ []) :
    outputs next σ bs = bs ∨ outputs next σ bs = blanks bs := by
  rcases σ with ⟨mode, substitutions⟩
  obtain ⟨b, bs, rfl⟩ := List.exists_cons_of_ne_nil nonempty
  rw [peek_cons] at expects
  have hb := (List.forall_mem_cons.mp h).1
  have hbs := (List.forall_mem_cons.mp h).2
  cases mode with
  | code => exact .inl (outputs_code_of_isHigh _ _ h)
  | lineComment => exact .inr (outputs_of_isHigh _ h (.inl rfl))
  | blockComment => exact .inr (outputs_of_isHigh _ h (.inr (.inl rfl)))
  | template => exact .inr (outputs_of_isHigh _ h (.inr (.inr (.inl rfl))))
  | literal quote => exact .inr (outputs_of_isHigh _ h (Mode.isHidden_literal expects))
  | literalEscape quote =>
      have rest : outputs next ⟨.literal quote, substitutions⟩ bs = blanks bs :=
        outputs_of_isHigh _ hbs (Mode.isHidden_literal expects)
      exact .inr (congrArg (blankByte b :: ·) rest)
  | templateEscape =>
      have rest : outputs next ⟨.template, substitutions⟩ bs = blanks bs :=
        outputs_of_isHigh _ hbs (.inr (.inr (.inl rfl)))
      exact .inr (congrArg (blankByte b :: ·) rest)
  -- the other modes expect a mark, which a byte of a longer character is not
  | blockOpening => exact absurd (Option.some.inj expects) (hb.ne (by decide))
  | blockClosing => exact absurd (Option.some.inj expects) (hb.ne (by decide))
  | substitutionOpening => exact absurd (Option.some.inj expects) (hb.ne (by decide))

/-- All bytes but those that end a line are blanked to spaces. -/
theorem blanks_eq_encode {bs : List UInt8} (h : ∀ b ∈ bs, isLineEnd b = false) :
    blanks bs = Text.encode (List.replicate bs.length ' ') := by
  induction bs with
  | nil => rfl
  | cons b bs ih =>
      rw [List.forall_mem_cons] at h
      have first : blankByte b = space := if_neg (by simp [h.1])
      rw [blanks, List.map_cons, ← blanks, first, ih h.2]
      rfl

/-- What is shown for one character is the bytes of characters. -/
theorem exists_encode_outputs_char {σ : State} {next : Option UInt8} {c : Char}
    (expects : σ.Expects (peek (String.utf8EncodeChar c) next)) :
    ∃ ds, outputs next σ (String.utf8EncodeChar c) = Text.encode ds := by
  by_cases h : c.toNat < 128
  · have enc := Text.utf8EncodeChar_of_lt h
    have single (d : Char) (hd : d.toNat < 128) : Text.encode [d] = [UInt8.ofNat d.toNat] := by
      rw [Text.encode_cons, Text.encode_nil, List.append_nil, Text.utf8EncodeChar_of_lt hd]
    rw [enc]
    simp only [outputs, output, blankByte]
    split
    · exact ⟨[c], (single c h).symm⟩
    · split
      · exact ⟨[c], (single c h).symm⟩
      · exact ⟨[' '], rfl⟩
  · have high := Text.le_of_mem_utf8EncodeChar (Nat.not_lt.mp h)
    rcases outputs_eq_or_eq_blanks high expects (Text.utf8EncodeChar_ne_nil c) with e | e
    · exact ⟨[c], by rw [e, Text.encode_cons, Text.encode_nil, List.append_nil]⟩
    · exact ⟨_, e.trans (blanks_eq_encode fun b hb => IsHigh.isLineEnd (high b hb))⟩

/-- What is shown for a text is the bytes of a text. The induction is on the characters, and what the
state expects of the first byte carries it. -/
theorem exists_encode_outputs {σ : State} {next : Option UInt8} {cs : List Char}
    (expects : σ.Expects (peek (Text.encode cs) next)) :
    ∃ ds, outputs next σ (Text.encode cs) = Text.encode ds := by
  induction cs generalizing σ with
  | nil => exact ⟨[], rfl⟩
  | cons c cs ih =>
      rw [Text.encode_cons, peek_append] at expects
      obtain ⟨ds, hd⟩ := exists_encode_outputs_char expects
      obtain ⟨es, he⟩ := ih (expects_after expects)
      exact ⟨ds ++ es, by rw [Text.encode_cons, outputs_append, hd, he, Text.encode_append]⟩

end Blanking

open Blanking

theorem blankBytes_eq_outputs (source : String) :
    blankBytes source = State.outputs none .start (Text.encode source.toList) := by
  rw [blankBytes, code_eq_outputs, bytesOf_eq_encode]
  rfl

/-- The blanked bytes are those of a text. -/
theorem exists_fromUTF8?_blankBytes (source : String) :
    ∃ text, String.fromUTF8? ⟨(blankBytes source).toArray⟩ = some text ∧
      bytesOf text = blankBytes source := by
  obtain ⟨ds, hd⟩ :=
    exists_encode_outputs (State.expects_start (State.peek (Text.encode source.toList) none))
  exact Option.map_eq_some_iff.mp (bytesOf_fromUTF8? ((blankBytes_eq_outputs source).trans hd))

theorem fromUTF8?_blankBytes (source : String) :
    String.fromUTF8? ⟨(blankBytes source).toArray⟩ = some (blankSource source) := by
  obtain ⟨text, ht, -⟩ := exists_fromUTF8?_blankBytes source
  rw [blankSource, ht]
  rfl

theorem bytesOf_blankSource (source : String) : bytesOf (blankSource source) = blankBytes source := by
  obtain ⟨text, ht, hb⟩ := exists_fromUTF8?_blankBytes source
  rw [blankSource, ht]
  exact hb

end ImportWeave
