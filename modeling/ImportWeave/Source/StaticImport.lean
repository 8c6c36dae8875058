import ImportWeave.Source.BoundNames
import ImportWeave.Text.Offset
import ImportWeave.Text.Word

/-! # Import statements of a source

The statements are found by their text alone: inside comments and literals too. -/

namespace ImportWeave

/-- An import statement at bytes `start` to `stop` of a source. -/
structure StaticImport where
  specifier : String
  start : Nat
  stop : Nat
  code : String
  /-- What stands between `import` and `from`, and nothing where there is no `from`. -/
  clause : String
  /-- The names that the clause binds. -/
  boundNames : List String := []
deriving DecidableEq, Repr

namespace StaticImport

/-- The clause starts with names in braces. -/
def hasNamedBrace (i : StaticImport) : Bool := i.clause.toList.head? = some '\x7b'

/-- A statement at the beginning of a text. -/
structure Found where
  code : List Char
  clause : List Char
  specifier : List Char
deriving DecidableEq, Repr

def isQuote (c : Char) : Bool := c == '\x22' || c == '\x27'

/-- The white space that a clause may hold. -/
def isClauseSpace (c : Char) : Bool := c == '\t' || c == '\n' || c == '\r' || c == ' '

def isClauseChar (c : Char) : Bool :=
  Text.isWord c || isClauseSpace c || "$*,/\x7b\x7d@.".toList.contains c

/-- The clause in the text between `import` and the specifier. That text is blank, or it ends with
`from`, in front of which there is either a clause or white space that could be one. -/
def clause? (head : List Char) : Option (List Char) :=
  match Text.trim head with
  | [] => some []
  | text => match "from".toList.isSuffixOf? text with
    | none => none
    | some text => match Text.trimEnd text with
      | [] => if (head.takeWhile Text.isSpace).any isClauseSpace then some [] else none
      | clause => if clause.all isClauseChar then some clause else none

/-- The specifier in quotation marks of one kind, and what follows it. White space around it is not
part of it, and it stands on one line. -/
def quoted? : List Char → Option (List Char × List Char)
  | [] => none
  | quote :: cs =>
    match cs.dropWhile (· ≠ quote) with
    | [] => none
    | _ :: rest =>
      let specifier := Text.trim (cs.takeWhile (· ≠ quote))
      if isQuote quote && !specifier.contains '\n' then some (specifier, rest) else none

def isTabOrSpace (c : Char) : Bool := c == ' ' || c == '\t'

/-- What follows an attribute clause, if the text starts with one. -/
def afterAttributes? (cs : List Char) : Option (List Char) := do
  let cs := cs.dropWhile isTabOrSpace
  let cs ← ("with".toList.isPrefixOf? cs).or ("assert".toList.isPrefixOf? cs)
  match Text.trimStart cs with
  | '\x7b' :: cs => match cs.dropWhile (· ≠ '\x7d') with
    | _ :: rest => some rest
    | [] => none
  | _ => none

/-- What follows blanks and a semicolon. -/
def afterSemicolon (cs : List Char) : List Char :=
  match cs.dropWhile isTabOrSpace with
  | ';' :: rest => rest
  | rest => rest

/-- What follows the statement whose specifier ends here. -/
def afterStatement (cs : List Char) : List Char := afterSemicolon ((afterAttributes? cs).getD cs)

/-- The statement that a text starts with. -/
def find? (cs : List Char) : Option Found := do
  let afterImport ← "import".toList.isPrefixOf? cs
  let clause ← clause? (afterImport.takeWhile (!isQuote ·))
  let (specifier, rest) ← quoted? (afterImport.dropWhile (!isQuote ·))
  return ⟨cs.take (cs.length - (afterStatement rest).length), clause, specifier⟩

/-- A statement may start at the beginning of a text, after white space, and after the end of another
statement or block. -/
def isBoundary : Option Char → Bool
  | none => true
  | some c => Text.isSpace c || c == ';' || c == '\x7d'

def Found.located (f : Found) (offset : Nat) : StaticImport where
  specifier := String.ofList f.specifier
  start := offset
  stop := offset + Text.byteLength f.code
  code := String.ofList f.code
  clause := String.ofList f.clause
  boundNames := Clause.boundNames (String.ofList f.clause)

/-- The statements in a text that starts at byte `offset`, after the character `before`. A statement is
looked for once `skip` characters are past, which belong to the last one. One that does not stand at a
boundary is left out, but what it covers is still skipped. -/
def scan (skip : Nat) (before : Option Char) (offset : Nat) : List Char → List StaticImport
  | [] => []
  | c :: cs =>
    match skip with
    | skip + 1 => scan skip (some c) (offset + c.utf8Size) cs
    | 0 => match find? (c :: cs) with
      | none => scan 0 (some c) (offset + c.utf8Size) cs
      | some found =>
        (if isBoundary before then [found.located offset] else []) ++
          scan (found.code.length - 1) (some c) (offset + c.utf8Size) cs

/-- All import statements of a source, from first to last. -/
def locate (source : String) : List StaticImport := scan 0 none 0 source.toList

end StaticImport

end ImportWeave
