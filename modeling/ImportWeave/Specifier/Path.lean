import ImportWeave.Specifier.Basic
import ImportWeave.Text.Basic

/-! # Paths

The normal form of a path, by its text alone, and the way from one directory to another. -/

namespace ImportWeave

/-- A root, which is empty for a path that starts at none, and the parts below it. -/
structure Path where
  root : String
  segments : List String
deriving DecidableEq, Repr

namespace Path

/-- One more part of a path, whose last part comes first. A step up takes the last part away; above a
root it leads nowhere. -/
def enter (rooted : Bool) (parts : List String) (part : String) : List String :=
  if part = "" ∨ part = "." then parts
  else if part = ".." then
    match parts with
    | last :: above => if last ≠ ".." then above else if rooted then parts else part :: parts
    | [] => if rooted then [] else [part]
  else part :: parts

def normalize (rooted : Bool) (parts : List String) : List String :=
  (parts.foldl (enter rooted) []).reverse

/-- The root of a path, and the text after it. Drive letters are written in upper case. -/
def splitRoot (cs : List Char) : String × List Char :=
  match Specifier.drive? cs with
  | some (letter, path) => (String.ofList [letter.toUpper, ':', '/'], path)
  | none => match cs with
    | [] => ("", [])
    | c :: path => if Specifier.isSlash c then ("/", path) else ("", cs)

def parts (cs : List Char) : List String :=
  (Text.splitOn Specifier.isSlash cs).map String.ofList

/-- The normal form of the path that a text writes. -/
def ofString (text : String) : Path :=
  let (root, path) := splitRoot text.toList
  ⟨root, normalize (root ≠ "") (parts path)⟩

def render (path : Path) : String := path.root ++ "/".intercalate path.segments

/-- What is left of two lists after the beginning that they share. -/
def dropShared : List String → List String → List String × List String
  | a :: as, b :: bs => if a = b then dropShared as bs else (a :: as, b :: bs)
  | as, bs => (as, bs)

/-- The way from directory `dir` to `target`: up from the one to what they share, then down to the
other. There is none between different roots, and then `target` is written in full. -/
def relative (dir target : String) : String :=
  let source := ofString dir
  let goal := ofString target
  if source.root ≠ goal.root then goal.render
  else
    let (up, down) := dropShared source.segments goal.segments
    "/".intercalate (up.map (fun _ => "..") ++ down)

end Path

end ImportWeave
