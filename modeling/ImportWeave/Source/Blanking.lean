/-! # Blanking

A copy of a source in which comments and the contents of string and template literals are spaces. All
bytes keep their offsets and lines their ends, so a span of the source is code exactly if the copy shows
something there. Regular expression literals are not told from other code. -/

namespace ImportWeave.Blanking

def lineFeed : UInt8 := 0x0A
def carriageReturn : UInt8 := 0x0D
def space : UInt8 := 0x20
def doubleQuote : UInt8 := 0x22
def dollar : UInt8 := 0x24
def singleQuote : UInt8 := 0x27
def star : UInt8 := 0x2A
def slash : UInt8 := 0x2F
def backslash : UInt8 := 0x5C
def backtick : UInt8 := 0x60
def leftBrace : UInt8 := 0x7B
def rightBrace : UInt8 := 0x7D

def isLineEnd (b : UInt8) : Bool := b == lineFeed || b == carriageReturn

def blankByte (b : UInt8) : UInt8 := if isLineEnd b then b else space

def blanks (bs : List UInt8) : List UInt8 := bs.map blankByte

/-! Each kind of text that is blanked is split off by a function of its own, which gives what follows it
as well. -/

/-- Up to the end of the line. -/
def lineComment (bs : List UInt8) : List UInt8 × List UInt8 :=
  (bs.takeWhile (!isLineEnd ·), bs.dropWhile (!isLineEnd ·))

/-- Up to the end of the comment, after its opening. -/
def blockComment : List UInt8 → List UInt8 × List UInt8
  | [] => ([], [])
  | b :: bs =>
    if b = star ∧ bs.head? = some slash then ([b, slash], bs.tail)
    else (b :: (blockComment bs).1, (blockComment bs).2)

/-- Up to the closing quotation mark or the end of the line, which are not part of it. A backslash takes
the next byte with it. -/
def literal (quote : UInt8) : List UInt8 → List UInt8 × List UInt8
  | [] => ([], [])
  | b :: bs =>
    if b = quote ∨ b = lineFeed then ([], b :: bs)
    else if b = backslash then
      match bs with
      | [] => ([b], [])
      | escaped :: bs => (b :: escaped :: (literal quote bs).1, (literal quote bs).2)
    else (b :: (literal quote bs).1, (literal quote bs).2)

/-- Up to the end of the template or the next substitution, which are not part of it. -/
def templateText : List UInt8 → List UInt8 × List UInt8
  | [] => ([], [])
  | b :: bs =>
    if b = backslash then
      match bs with
      | [] => ([b], [])
      | escaped :: bs => (b :: escaped :: (templateText bs).1, (templateText bs).2)
    else if b = backtick ∨ (b = dollar ∧ bs.head? = some leftBrace) then ([], b :: bs)
    else (b :: (templateText bs).1, (templateText bs).2)

theorem length_lineComment (bs : List UInt8) : (lineComment bs).2.length ≤ bs.length := by
  have := congrArg List.length
    (List.takeWhile_append_dropWhile (p := fun b => !isLineEnd b) (l := bs))
  rw [List.length_append] at this
  simp only [lineComment]
  omega

theorem length_blockComment (bs : List UInt8) : (blockComment bs).2.length ≤ bs.length := by
  fun_induction blockComment bs with
  | case1 => simp
  | case2 => simp; omega
  | case3 b bs _ ih => simp only [List.length_cons]; omega

theorem length_literal (quote : UInt8) (bs : List UInt8) :
    (literal quote bs).2.length ≤ bs.length := by
  fun_induction literal quote bs with
  | case1 => simp
  | case2 => simp
  | case3 => simp
  | case4 _ _ bs ih => simp only [List.length_cons]; omega
  | case5 b bs _ _ ih => simp only [List.length_cons]; omega

theorem length_templateText (bs : List UInt8) : (templateText bs).2.length ≤ bs.length := by
  fun_induction templateText bs with
  | case1 => simp
  | case2 => simp
  | case3 _ bs ih => simp only [List.length_cons]; omega
  | case4 => simp
  | case5 b bs _ _ ih => simp only [List.length_cons]; omega

/-- What a template shows up to the point where code goes on. -/
structure Resumed where
  shown : List UInt8
  /-- The open substitutions, the innermost first, each with the number of its open braces as a word. -/
  substitutions : List UInt32
  rest : List UInt8

/-- Blanks the text of a template that starts here. -/
def template (substitutions : List UInt32) (bs : List UInt8) : Resumed :=
  let shown := blanks (templateText bs).1
  match (templateText bs).2 with
  | [] => ⟨shown, substitutions, []⟩
  | b :: rest =>
    if b = backtick then ⟨shown ++ [b], substitutions, rest⟩
    else ⟨shown ++ b :: rest.take 1, 0 :: substitutions, rest.drop 1⟩

theorem length_template (substitutions : List UInt32) (bs : List UInt8) :
    (template substitutions bs).rest.length ≤ bs.length := by
  have h := length_templateText bs
  simp only [template]
  split
  · simp
  · next b rest e =>
      rw [e, List.length_cons] at h
      split <;> simp <;> omega

/-- One more brace is open in the innermost substitution. -/
def deepen : List UInt32 → List UInt32
  | [] => []
  | depth :: outer => (depth + 1) :: outer

/-- Blanks code that starts here, inside the given substitutions. -/
def code (substitutions : List UInt32) (bs : List UInt8) : List UInt8 :=
  match bs with
  | [] => []
  | b :: bs =>
    if b = slash ∧ bs.head? = some slash then
      blanks (b :: (lineComment bs).1) ++ code substitutions (lineComment bs).2
    else if b = slash ∧ bs.head? = some star then
      blanks (b :: star :: (blockComment bs.tail).1) ++ code substitutions (blockComment bs.tail).2
    else if b = singleQuote ∨ b = doubleQuote then
      b :: (blanks (literal b bs).1 ++
        ((literal b bs).2.take 1 ++ code substitutions ((literal b bs).2.drop 1)))
    else if b = backtick then
      b :: ((template substitutions bs).shown ++
        code (template substitutions bs).substitutions (template substitutions bs).rest)
    else if b = leftBrace then b :: code (deepen substitutions) bs
    else if b = rightBrace then
      match substitutions with
      | [] => b :: code [] bs
      | depth :: outer =>
        if depth = 0 then
          b :: ((template outer bs).shown ++
            code (template outer bs).substitutions (template outer bs).rest)
        else b :: code ((depth - 1) :: outer) bs
    else b :: code substitutions bs
termination_by bs.length
decreasing_by
  · have := length_lineComment bs; simp only [List.length_cons]; omega
  · have := length_blockComment bs.tail
    simp only [List.length_tail, List.length_cons] at *
    omega
  · have := length_literal b bs; simp only [List.length_drop, List.length_cons]; omega
  · have := length_template substitutions bs; simp only [List.length_cons]; omega
  · simp
  · simp
  · have := length_template outer bs; simp only [List.length_cons]; omega
  · simp
  · simp

end ImportWeave.Blanking

namespace ImportWeave

open Blanking

/-- The bytes of a text. -/
def bytesOf (text : String) : List UInt8 := text.toByteArray.data.toList

/-- The source with its comments and literal contents blanked, as bytes. -/
def blankBytes (source : String) : List UInt8 := code [] (bytesOf source)

/-- The source with its comments and literal contents blanked. -/
def blankSource (source : String) : String :=
  (String.fromUTF8? ⟨(blankBytes source).toArray⟩).getD source

end ImportWeave
