/-! # Quoted text

The string literals of JSON. Writing escapes the quotation mark, the backslash and the control
characters; reading takes every escape of the format. -/

namespace ImportWeave.Json.Quoted

def quote : Char := '\x22'
def backslash : Char := '\\'

/-- The two-character escapes: the character that follows the backslash, and what it stands for. -/
def shortEscapes : List (Char × Char) :=
  [(quote, quote), (backslash, backslash), ('/', '/'), ('b', '\x08'), ('f', '\x0c'), ('n', '\n'),
   ('r', '\r'), ('t', '\t')]

def hexDigit (n : Nat) : Char := Nat.digitChar n

/-- One character as it stands in quoted text. -/
def encodeChar (c : Char) : List Char :=
  if c = quote then [backslash, quote]
  else if c = backslash then [backslash, backslash]
  else if c = '\x08' then [backslash, 'b']
  else if c = '\x0c' then [backslash, 'f']
  else if c = '\n' then [backslash, 'n']
  else if c = '\r' then [backslash, 'r']
  else if c = '\t' then [backslash, 't']
  else if c.toNat < 0x20 then
    [backslash, 'u', '0', '0', hexDigit (c.toNat / 16), hexDigit (c.toNat % 16)]
  else [c]

/-- The text between quotation marks, escaped. -/
def encode (text : String) : String :=
  String.ofList (quote :: (text.toList.flatMap encodeChar ++ [quote]))

/-- What one element of quoted text stands for: a character, or a UTF-16 unit given by its number. -/
inductive Element where
  | char (c : Char)
  | unit (code : Nat)
deriving DecidableEq, Repr

def hexValue? (c : Char) : Option Nat :=
  if c.isDigit then some (c.toNat - '0'.toNat)
  else if 'a' ≤ c ∧ c ≤ 'f' then some (c.toNat - 'a'.toNat + 10)
  else if 'A' ≤ c ∧ c ≤ 'F' then some (c.toNat - 'A'.toNat + 10)
  else none

/-- Four hexadecimal digits. -/
def unit? (a b c d : Char) : Option Nat := do
  let a ← hexValue? a
  let b ← hexValue? b
  let c ← hexValue? c
  let d ← hexValue? d
  return ((a * 16 + b) * 16 + c) * 16 + d

/-- Reads up to the closing quotation mark, and gives what follows it. -/
def scan : List Char → Option (List Element × List Char)
  | [] => none
  | '\\' :: 'u' :: a :: b :: c :: d :: cs => do
    let code ← unit? a b c d
    let (elements, rest) ← scan cs
    return (.unit code :: elements, rest)
  | '\\' :: e :: cs => do
    let c ← shortEscapes.lookup e
    let (elements, rest) ← scan cs
    return (.char c :: elements, rest)
  | c :: cs =>
    if c = quote then some ([], cs)
    else if c = backslash ∨ c.toNat < 0x20 then none
    else do
      let (elements, rest) ← scan cs
      return (.char c :: elements, rest)

theorem length_scan {cs : List Char} {elements : List Element} {rest : List Char}
    (h : scan cs = some (elements, rest)) : rest.length < cs.length := by
  fun_induction scan cs generalizing elements with
  | case1 => simp at h
  | case2 a b c d cs ih =>
      simp only [Option.bind_eq_bind, Option.pure_def, Option.bind_eq_some_iff, Option.some.injEq,
        Prod.mk.injEq, Prod.exists] at h
      obtain ⟨_, _, e, r, hs, _, rfl⟩ := h
      have := ih hs
      simp only [List.length_cons]
      omega
  | case3 e cs _ ih =>
      simp only [Option.bind_eq_bind, Option.pure_def, Option.bind_eq_some_iff, Option.some.injEq,
        Prod.mk.injEq, Prod.exists] at h
      obtain ⟨_, _, e, r, hs, _, rfl⟩ := h
      have := ih hs
      simp only [List.length_cons]
      omega
  | case4 => simp_all
  | case5 => simp at h
  | case6 c cs _ _ _ _ ih =>
      simp only [Option.bind_eq_bind, Option.pure_def, Option.bind_eq_some_iff, Option.some.injEq,
        Prod.mk.injEq, Prod.exists] at h
      obtain ⟨e, r, hs, _, rfl⟩ := h
      have := ih hs
      simp only [List.length_cons]
      omega

/-- The characters that the elements stand for, two units of a surrogate pair joined. Half a pair
stands for none. -/
def join : List Element → Option (List Char)
  | [] => some []
  | .char c :: elements => (join elements).map (c :: ·)
  | .unit high :: .unit low :: elements =>
    if 0xD800 ≤ high ∧ high < 0xDC00 then
      if 0xDC00 ≤ low ∧ low < 0xE000 then
        (join elements).map (Char.ofNat (0x10000 + (high - 0xD800) * 0x400 + (low - 0xDC00)) :: ·)
      else none
    else if 0xDC00 ≤ high ∧ high < 0xE000 then none
    else (join (.unit low :: elements)).map (Char.ofNat high :: ·)
  | .unit code :: elements =>
    if 0xD800 ≤ code ∧ code < 0xE000 then none else (join elements).map (Char.ofNat code :: ·)

end ImportWeave.Json.Quoted
