import ImportWeave.Text.Basic

/-! # Module specifiers

Specifiers name modules: a package, or a file by a path whose parts are separated by slashes of either
kind. -/

namespace ImportWeave.Specifier

def isSlash (c : Char) : Bool := c == '/' || c == '\\'

/-- A drive letter with its colon and a slash, and the path that follows them. -/
def drive? : List Char → Option (Char × List Char)
  | letter :: ':' :: slash :: path =>
    if letter.isAlpha && isSlash slash then some (letter, path) else none
  | _ => none

def startsWithSlash : List Char → Bool
  | c :: _ => isSlash c
  | [] => false

/-- The path starts at a root: a slash, or a drive. -/
def isAbsolute (specifier : String) : Bool :=
  startsWithSlash specifier.toList || (drive? specifier.toList).isSome

/-- The specifier names a file: it starts with a point or at a root, or is a URL. -/
def isFile (specifier : String) : Bool :=
  specifier.toList.head? == some '.' || isAbsolute specifier ||
    (Text.splitOnce? "://".toList specifier.toList).isSome

def isLowerAscii (c : Char) : Bool := 'a' ≤ c && c ≤ 'z'

/-- The specifier without its last point and the lower-case letters after it, if it ends in such. -/
def withoutExtension (specifier : String) : String :=
  let backwards := specifier.toList.reverse
  match backwards.takeWhile isLowerAscii, backwards.dropWhile isLowerAscii with
  | _ :: _, '.' :: stem => String.ofList stem.reverse
  | _, _ => specifier

end ImportWeave.Specifier
