import ImportWeave.Json.Token
import Mathlib.Data.List.Forall2

/-! # Quoted text is read back

Each character of a text is one element of the quoted text. An escaped quotation mark does not end the text
early, so the quoted text ends by itself, whatever follows it. -/

namespace ImportWeave.Json

namespace Quoted

/-- The element stands for the character: it is the character, or its number, which is not half of a
surrogate pair. -/
def Element.StandsFor (c : Char) : Element → Prop
  | .char d => d = c
  | .unit code => code = c.toNat ∧ code < 0xD800

/-- One more element in front of what was read. -/
def prepend (element : Element) (read : List Element × List Char) : List Element × List Char :=
  (element :: read.1, read.2)

/-! ## One element -/

theorem scan_unit {a b c d : Char} {code : Nat} (h : unit? a b c d = some code) (cs : List Char) :
    scan (backslash :: 'u' :: a :: b :: c :: d :: cs) = (scan cs).map (prepend (.unit code)) := by
  rw [backslash, scan, h]
  cases scan cs <;> rfl

theorem scan_shortEscape {e c : Char} (h : shortEscapes.lookup e = some c) (cs : List Char) :
    scan (backslash :: e :: cs) = (scan cs).map (prepend (.char c)) := by
  have notUnit : e ≠ 'u' := by
    rintro rfl
    cases h
  rw [backslash, scan, h]
  · cases scan cs <;> rfl
  · intro _ _ _ _ _ unit
    exact absurd unit notUnit

theorem scan_unescaped {c : Char} (notQuote : c ≠ quote) (notBackslash : c ≠ backslash)
    (visible : ¬ c.toNat < 0x20) (cs : List Char) :
    scan (c :: cs) = (scan cs).map (prepend (.char c)) := by
  rw [scan, if_neg notQuote, if_neg (not_or.mpr ⟨notBackslash, visible⟩)]
  · cases scan cs <;> rfl
  · intro _ _ _ _ _ escape
    exact absurd escape notBackslash
  · intro _ _ escape
    exact absurd escape notBackslash

theorem hexValue?_hexDigit : ∀ n < 16, hexValue? (hexDigit n) = some n := by decide

theorem unit?_hexDigits {n : Nat} (h : n < 256) :
    unit? '0' '0' (hexDigit (n / 16)) (hexDigit (n % 16)) = some n := by
  have zero : hexValue? '0' = some 0 := by decide
  have high := hexValue?_hexDigit (n / 16) (by omega)
  have low := hexValue?_hexDigit (n % 16) (by omega)
  have value : ((0 * 16 + 0) * 16 + n / 16) * 16 + n % 16 = n := by omega
  simp only [unit?, zero, high, low, Option.bind_eq_bind, Option.bind_some, Option.pure_def, value]

/-- A character as it is written is read as one element, which stands for it. -/
theorem scan_encodeChar (c : Char) : ∃ element : Element, element.StandsFor c ∧
    ∀ cs, scan (encodeChar c ++ cs) = (scan cs).map (prepend element) := by
  unfold encodeChar
  -- Seven characters have an escape of two characters; of the rest, only the control characters are numbers.
  split_ifs with quoted escaped backspace formFeed lineFeed carriageReturn tab control
  · exact ⟨.char quote, quoted.symm, scan_shortEscape rfl⟩
  · exact ⟨.char backslash, escaped.symm, scan_shortEscape rfl⟩
  · exact ⟨.char '\x08', backspace.symm, scan_shortEscape rfl⟩
  · exact ⟨.char '\x0c', formFeed.symm, scan_shortEscape rfl⟩
  · exact ⟨.char '\n', lineFeed.symm, scan_shortEscape rfl⟩
  · exact ⟨.char '\r', carriageReturn.symm, scan_shortEscape rfl⟩
  · exact ⟨.char '\t', tab.symm, scan_shortEscape rfl⟩
  · exact ⟨.unit c.toNat, ⟨rfl, by omega⟩, scan_unit (unit?_hexDigits (by omega))⟩
  · exact ⟨.char c, rfl, scan_unescaped quoted escaped control⟩

/-! ## The whole text -/

/-- The elements are read up to the closing quotation mark. -/
theorem scan_flatMap_encodeChar (text rest : List Char) :
    ∃ elements, List.Forall₂ Element.StandsFor text elements ∧
      scan (text.flatMap encodeChar ++ quote :: rest) = some (elements, rest) := by
  induction text with
  | nil => exact ⟨[], .nil, by simp [quote, scan]⟩
  | cons c text ih =>
      obtain ⟨element, standsFor, step⟩ := scan_encodeChar c
      obtain ⟨elements, all, read⟩ := ih
      refine ⟨element :: elements, .cons standsFor all, ?_⟩
      rw [List.flatMap_cons, List.append_assoc, step, read]
      rfl

/-- A number below those of surrogates is a character of its own, whatever element is next. -/
theorem join_unit {code : Nat} (h : code < 0xD800) (elements : List Element) :
    join (.unit code :: elements) = (join elements).map (Char.ofNat code :: ·) := by
  have notHigh : ¬ (0xD800 ≤ code ∧ code < 0xDC00) := by omega
  have notLow : ¬ (0xDC00 ≤ code ∧ code < 0xE000) := by omega
  have notHalf : ¬ (0xD800 ≤ code ∧ code < 0xE000) := by omega
  -- A pair of units is tried before a single one, so it matters whether another unit is next.
  rcases elements with _ | ⟨_ | low, elements⟩
  · simp only [join, if_neg notHalf]
  · simp only [join, if_neg notHalf]
  · rw [join, if_neg notHigh, if_neg notLow]

theorem join_eq_of_standsFor {text : List Char} {elements : List Element}
    (h : List.Forall₂ Element.StandsFor text elements) : join elements = some text := by
  induction h with
  | nil => rw [join]
  | @cons c element text elements standsFor all ih =>
      cases element with
      | char d =>
          obtain rfl : d = c := standsFor
          rw [join, ih]
          rfl
      | unit code =>
          obtain ⟨rfl, low⟩ : code = c.toNat ∧ code < 0xD800 := standsFor
          rw [join_unit low, ih, Char.ofNat_toNat]
          rfl

end Quoted

/-- A string literal is the first token of a text that begins with it. -/
theorem Token.first?_encode (text : String) (rest : List Char) :
    first? ((Quoted.encode text).toList ++ rest) = some (.str (some text), rest) := by
  obtain ⟨elements, standsFor, read⟩ := Quoted.scan_flatMap_encodeChar text.toList rest
  have literal : (Quoted.encode text).toList ++ rest =
      '\x22' :: (text.toList.flatMap Quoted.encodeChar ++ Quoted.quote :: rest) := by
    simp [Quoted.encode, Quoted.quote]
  have joined : (Quoted.join elements).map String.ofList = some text := by
    rw [Quoted.join_eq_of_standsFor standsFor, Option.map_some, String.ofList_toList]
  rw [literal, first?, read, Option.map_some]
  exact congrArg (fun value => some (Token.str value, rest)) joined

end ImportWeave.Json
