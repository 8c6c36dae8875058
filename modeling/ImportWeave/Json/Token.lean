import ImportWeave.Json.Basic
import ImportWeave.Json.Quoted

/-! # JSON tokens -/

namespace ImportWeave.Json

inductive Token where
  | openArr
  | closeArr
  | openObj
  | closeObj
  | colon
  | comma
  | null
  | bool (value : Bool)
  | num (value : Number)
  /-- A string literal, or none if it holds half a surrogate pair. -/
  | str (value : Option String)
deriving DecidableEq, Repr

namespace Token

/-- The white space of JSON. -/
def isGap (c : Char) : Bool := c == ' ' || c == '\t' || c == '\n' || c == '\r'

/-- The number that a row of decimal digits writes. -/
def natOf (digits : List Char) : Nat :=
  digits.foldl (fun n c => n * 10 + Number.digitValue c) 0

/-- At least one digit. -/
def digits? (cs : List Char) : Option (List Char × List Char) :=
  match cs.takeWhile Char.isDigit with
  | [] => none
  | digits => some (digits, cs.dropWhile Char.isDigit)

theorem length_digits? {cs digits rest : List Char} (h : digits? cs = some (digits, rest)) :
    rest.length < cs.length := by
  simp only [digits?] at h
  split at h
  · simp at h
  · next hd =>
      obtain ⟨rfl, rfl⟩ := Prod.mk.inj (Option.some.inj h)
      have hl := congrArg List.length (List.takeWhile_append_dropWhile (p := Char.isDigit) (l := cs))
      have hp := List.length_pos_iff.mpr hd
      rw [List.length_append] at hl
      omega

/-- Digits with no zero in front of others. -/
def whole? : List Char → Option (List Char × List Char)
  | '0' :: cs => some (['0'], cs)
  | cs => digits? cs

theorem length_whole? {cs digits rest : List Char} (h : whole? cs = some (digits, rest)) :
    rest.length < cs.length := by
  unfold whole? at h
  split at h
  · simp_all
  · exact length_digits? h

/-- The digits after a decimal point, if there is one. -/
def fraction? : List Char → Option (List Char × List Char)
  | '.' :: cs => digits? cs
  | cs => some ([], cs)

theorem length_fraction? {cs digits rest : List Char} (h : fraction? cs = some (digits, rest)) :
    rest.length ≤ cs.length := by
  unfold fraction? at h
  split at h
  · have := length_digits? h
    simp only [List.length_cons]
    omega
  · simp_all

/-- The sign of an exponent. -/
def sign : List Char → Bool × List Char
  | '-' :: cs => (true, cs)
  | '+' :: cs => (false, cs)
  | cs => (false, cs)

theorem length_sign (cs : List Char) : (sign cs).2.length ≤ cs.length := by
  unfold sign
  split <;> simp

/-- The power of ten at the end of a number, if there is one. -/
def exponent? : List Char → Option (Option Int × List Char)
  | [] => some (none, [])
  | c :: cs =>
    if c = 'e' ∨ c = 'E' then
      (digits? (sign cs).2).map fun (digits, rest) =>
        (some (if (sign cs).1 then -(natOf digits : Int) else natOf digits), rest)
    else some (none, c :: cs)

theorem length_exponent? {cs rest : List Char} {exponent : Option Int}
    (h : exponent? cs = some (exponent, rest)) : rest.length ≤ cs.length := by
  unfold exponent? at h
  split at h
  · simp_all
  · next c cs =>
      split at h
      · obtain ⟨⟨digits, tail⟩, hd, e⟩ := Option.map_eq_some_iff.mp h
        obtain ⟨-, rfl⟩ := Prod.mk.inj e
        have := length_digits? hd
        have := length_sign cs
        simp only [List.length_cons]
        omega
      · simp_all

/-- A number without its sign. -/
def unsigned? (negative : Bool) (cs : List Char) : Option (Number × List Char) := do
  let (whole, afterWhole) ← whole? cs
  let (fraction, afterFraction) ← fraction? afterWhole
  let (exponent, rest) ← exponent? afterFraction
  return (.ofDigits negative whole fraction exponent, rest)

theorem length_unsigned? {negative : Bool} {cs rest : List Char} {number : Number}
    (h : unsigned? negative cs = some (number, rest)) : rest.length < cs.length := by
  simp only [unsigned?, Option.bind_eq_bind, Option.bind_eq_some_iff, Option.pure_def,
    Option.some.injEq, Prod.mk.injEq, Prod.exists] at h
  obtain ⟨_, _, hw, _, _, hf, _, _, he, _, rfl⟩ := h
  have := length_whole? hw
  have := length_fraction? hf
  have := length_exponent? he
  omega

def number? : List Char → Option (Number × List Char)
  | '-' :: cs => unsigned? true cs
  | cs => unsigned? false cs

theorem length_number? {cs rest : List Char} {number : Number}
    (h : number? cs = some (number, rest)) : rest.length < cs.length := by
  unfold number? at h
  split at h
  · have := length_unsigned? h
    simp only [List.length_cons]
    omega
  · exact length_unsigned? h

/-- The token at the beginning of a text, and what follows it. -/
def first? : List Char → Option (Token × List Char)
  | '[' :: cs => some (.openArr, cs)
  | ']' :: cs => some (.closeArr, cs)
  | '\x7b' :: cs => some (.openObj, cs)
  | '\x7d' :: cs => some (.closeObj, cs)
  | ':' :: cs => some (.colon, cs)
  | ',' :: cs => some (.comma, cs)
  | 'n' :: 'u' :: 'l' :: 'l' :: cs => some (.null, cs)
  | 't' :: 'r' :: 'u' :: 'e' :: cs => some (.bool true, cs)
  | 'f' :: 'a' :: 'l' :: 's' :: 'e' :: cs => some (.bool false, cs)
  | '\x22' :: cs => (Quoted.scan cs).map fun (elements, rest) =>
      (.str ((Quoted.join elements).map String.ofList), rest)
  | cs => (number? cs).map fun (number, rest) => (.num number, rest)

theorem length_first? {cs rest : List Char} {token : Token}
    (h : first? cs = some (token, rest)) : rest.length < cs.length := by
  unfold first? at h
  split at h
  case h_10 =>
    obtain ⟨⟨elements, tail⟩, hs, e⟩ := Option.map_eq_some_iff.mp h
    obtain ⟨-, rfl⟩ := Prod.mk.inj e
    have := Quoted.length_scan hs
    simp only [List.length_cons]
    omega
  case h_11 =>
    obtain ⟨⟨number, tail⟩, hn, e⟩ := Option.map_eq_some_iff.mp h
    obtain ⟨-, rfl⟩ := Prod.mk.inj e
    exact length_number? hn
  all_goals
    obtain ⟨-, rfl⟩ := Prod.mk.inj (Option.some.inj h)
    simp only [List.length_cons]
    omega

/-- All tokens of a text. -/
def scan (cs : List Char) : Option (List Token) :=
  match cs with
  | [] => some []
  | c :: cs =>
    if isGap c then scan cs
    else match _ : first? (c :: cs) with
      | none => none
      | some (token, rest) => (scan rest).map (token :: ·)
termination_by cs.length
decreasing_by
  · simp
  · exact length_first? ‹_›

end Token

end ImportWeave.Json
