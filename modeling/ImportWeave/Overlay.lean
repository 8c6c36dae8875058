import ImportWeave.Text.Offset

/-! # Overlays

A text with insertions that are recorded, and applied when the result is asked for. Offsets are those of
the text as it was at the start. -/

namespace ImportWeave

/-- The neighbour that an insertion sticks to: the text before its offset, or the text after it. -/
inductive Side where
  | left
  | right
deriving DecidableEq, Repr

structure Insertion where
  offset : Nat
  side : Side
  text : String
deriving DecidableEq, Repr

namespace Insertion

/-- By offset, and at one offset the left side first. -/
def precedes (i j : Insertion) : Bool :=
  i.offset < j.offset || (i.offset == j.offset && (i.side == .left || j.side == .right))

end Insertion

structure Overlay where
  /-- The text without insertions. -/
  base : String
  intro : String := ""
  outro : String := ""
  /-- In the order in which they were recorded. -/
  insertions : List Insertion := []
deriving DecidableEq, Repr

namespace Overlay

def ofString (base : String) : Overlay := { base }

def size (o : Overlay) : Nat := Text.byteLength o.base.toList

/-- The offset in the text that an insertion asked for at `offset` goes to. -/
def clamp (o : Overlay) (offset : Nat) : Nat := Text.floorOffset o.base.toList offset

/-- In front of all that is there. -/
def prepend (o : Overlay) (text : String) : Overlay := { o with intro := text ++ o.intro }

/-- After all that is there. -/
def append (o : Overlay) (text : String) : Overlay := { o with outro := o.outro ++ text }

/-- After the text that ends at `offset`, and the insertions already there on this side. -/
def appendLeft (o : Overlay) (offset : Nat) (text : String) : Overlay :=
  if o.clamp offset = 0 then { o with intro := o.intro ++ text }
  else { o with insertions := o.insertions ++ [⟨o.clamp offset, .left, text⟩] }

/-- Before the text that starts at `offset`, and after the insertions already there on this side. -/
def appendRight (o : Overlay) (offset : Nat) (text : String) : Overlay :=
  if o.clamp offset = o.size then { o with outro := o.outro ++ text }
  else { o with insertions := o.insertions ++ [⟨o.clamp offset, .right, text⟩] }

/-- Something other than empty text has been inserted. -/
def hasChanged (o : Overlay) : Bool :=
  o.intro ≠ "" || o.outro ≠ "" || o.insertions.any (·.text ≠ "")

/-- The rest of a text from byte `offset` on, with sorted insertions. There is no result if an insertion
falls inside a character, outside of the text, or behind the one before it. -/
def weave? (text : List Char) (offset : Nat) : List Insertion → Option (List Char)
  | [] => Text.slice? text offset (Text.byteLength text)
  | i :: insertions => do
    let before ← Text.slice? text offset i.offset
    let after ← weave? text i.offset insertions
    return before ++ i.text.toList ++ after

/-- The text with all insertions. -/
def text? (o : Overlay) : Option String := do
  let body ← weave? o.base.toList 0 (o.insertions.mergeSort Insertion.precedes)
  return o.intro ++ String.ofList body ++ o.outro

def text (o : Overlay) : String := o.text?.getD o.base

/-- A new overlay over the result. -/
def rebase (o : Overlay) : Overlay := ofString o.text

end Overlay

end ImportWeave
