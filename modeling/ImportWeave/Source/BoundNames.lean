import ImportWeave.Text.Basic

/-! # Names bound by an import clause

The clause of an import statement is what stands between `import` and `from`. -/

namespace ImportWeave.Clause

/-- What stands before and after the last closing brace. -/
def splitLastBrace? (cs : List Char) : Option (List Char × List Char) :=
  match cs.reverse.dropWhile (· ≠ '\x7d') with
  | [] => none
  | _ :: before => some (before.reverse, (cs.reverse.takeWhile (· ≠ '\x7d')).reverse)

/-- The clause without its braces, and what is between the first that opens and the last that closes. -/
def splitBraces (cs : List Char) : List Char × Option (List Char) :=
  match Text.splitOnce? ['\x7b'] cs with
  | none => (cs, none)
  | some (before, inside) => match splitLastBrace? inside with
    | none => (cs, none)
    | some (inside, after) => (before ++ after, some inside)

def typeWord : List Char := "type ".toList

/-- The name bound by one part outside of braces: the part itself, or the name of a namespace object. -/
def outerName? (part : List Char) : Option (List Char) :=
  match Text.trim part with
  | [] => none
  | '*' :: cs => do
    let (_, name) ← Text.splitOnce? "as".toList cs
    let name := Text.trim name
    if name = [] then none else some name
  | name => some name

/-- The name bound by one part inside braces. -/
def innerName? (part : List Char) : Option (List Char) :=
  let part := Text.trim (Text.dropWord typeWord (Text.trim part))
  if part = [] then none
  else match Text.splitOnce? " as ".toList part with
    | some (_, name) => some (Text.trim name)
    | none => some part

def isComma (c : Char) : Bool := c == ','

/-- The names that a clause binds: those outside of braces first. -/
def boundNames (clause : String) : List String :=
  let (outer, inner) := splitBraces (Text.dropWord typeWord (Text.trim clause.toList))
  let inner := match inner with
    | none => []
    | some inside => (Text.splitOn isComma inside).filterMap innerName?
  ((Text.splitOn isComma outer).filterMap outerName? ++ inner).map String.ofList

end ImportWeave.Clause
