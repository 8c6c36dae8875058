import ImportWeave.Source.Blanking

/-! # Blanking in one pass

A machine that reads a source byte by byte, with a look at the byte that follows. It remembers what kind
of text it is in, and the open substitutions of templates. Blanking shows what this machine shows. -/

namespace ImportWeave.Blanking

/-- The kind of text that the next byte belongs to. -/
inductive Mode where
  | code
  | lineComment
  /-- Before the star of the mark that opens a comment. -/
  | blockOpening
  | blockComment
  /-- Before the slash of the mark that closes a comment. -/
  | blockClosing
  | literal (quote : UInt8)
  /-- After a backslash in a literal. -/
  | literalEscape (quote : UInt8)
  | template
  /-- After a backslash in a template. -/
  | templateEscape
  /-- Before the brace of the mark that opens a substitution. -/
  | substitutionOpening
deriving DecidableEq, Repr

structure State where
  mode : Mode
  /-- The open substitutions, the innermost first, each with the number of its open braces as a word. -/
  substitutions : List UInt32
deriving DecidableEq, Repr

namespace State

def start : State := ⟨.code, []⟩

/-- A brace is closed in code. The one that closes a substitution leads back into its template. -/
def closeBrace : List UInt32 → State
  | [] => ⟨.code, []⟩
  | depth :: outer => if depth = 0 then ⟨.template, outer⟩ else ⟨.code, (depth - 1) :: outer⟩

/-- The state after the byte `b`, in front of the byte `next`. -/
def step (σ : State) (b : UInt8) (next : Option UInt8) : State :=
  match σ.mode with
  | .code =>
    if b = slash ∧ next = some slash then ⟨.lineComment, σ.substitutions⟩
    else if b = slash ∧ next = some star then ⟨.blockOpening, σ.substitutions⟩
    else if b = singleQuote ∨ b = doubleQuote then ⟨.literal b, σ.substitutions⟩
    else if b = backtick then ⟨.template, σ.substitutions⟩
    else if b = leftBrace then ⟨.code, deepen σ.substitutions⟩
    else if b = rightBrace then closeBrace σ.substitutions
    else σ
  | .lineComment => if isLineEnd b then ⟨.code, σ.substitutions⟩ else σ
  | .blockOpening => ⟨.blockComment, σ.substitutions⟩
  | .blockComment =>
    if b = star ∧ next = some slash then ⟨.blockClosing, σ.substitutions⟩ else σ
  | .blockClosing => ⟨.code, σ.substitutions⟩
  | .literal quote =>
    if b = quote ∨ b = lineFeed then ⟨.code, σ.substitutions⟩
    else if b = backslash then ⟨.literalEscape quote, σ.substitutions⟩
    else σ
  | .literalEscape quote => ⟨.literal quote, σ.substitutions⟩
  | .template =>
    if b = backslash then ⟨.templateEscape, σ.substitutions⟩
    else if b = backtick then ⟨.code, σ.substitutions⟩
    else if b = dollar ∧ next = some leftBrace then ⟨.substitutionOpening, σ.substitutions⟩
    else σ
  | .templateEscape => ⟨.template, σ.substitutions⟩
  | .substitutionOpening => ⟨.code, 0 :: σ.substitutions⟩

/-- The byte `b` in front of the byte `next` is shown as it is. -/
def shows (σ : State) (b : UInt8) (next : Option UInt8) : Bool :=
  match σ.mode with
  | .code => !(b == slash && (next == some slash || next == some star))
  | .literal quote => b == quote || b == lineFeed
  | .template => b == backtick || (b == dollar && next == some leftBrace)
  | .substitutionOpening => true
  | .lineComment | .blockOpening | .blockComment | .blockClosing | .literalEscape _
  | .templateEscape => false

def output (σ : State) (b : UInt8) (next : Option UInt8) : UInt8 :=
  if σ.shows b next then b else blankByte b

/-- A byte with a meaning in code. All others leave it as it is. -/
def isMark (b : UInt8) : Bool :=
  b == slash || b == singleQuote || b == doubleQuote || b == backtick || b == leftBrace ||
    b == rightBrace

theorem step_code_of_not_isMark {b : UInt8} (h : isMark b = false) (substitutions : List UInt32)
    (next : Option UInt8) : step ⟨.code, substitutions⟩ b next = ⟨.code, substitutions⟩ := by
  simp only [isMark, Bool.or_eq_false_iff, beq_eq_false_iff_ne] at h
  simp [step, h]

/-- In code a byte is shown, unless it opens a comment. -/
theorem output_code {b : UInt8} {next : Option UInt8} (line : ¬ (b = slash ∧ next = some slash))
    (block : ¬ (b = slash ∧ next = some star)) (substitutions : List UInt32) :
    output ⟨.code, substitutions⟩ b next = b := by
  have shown : shows ⟨.code, substitutions⟩ b next = true := by
    by_cases h : b = slash
    · have hl : next ≠ some slash := fun e => line ⟨h, e⟩
      have hb : next ≠ some star := fun e => block ⟨h, e⟩
      simp [shows, hl, hb]
    · simp [shows, h]
  rw [output, if_pos shown]

theorem output_code_of_not_isMark {b : UInt8} (h : isMark b = false) (substitutions : List UInt32)
    (next : Option UInt8) : output ⟨.code, substitutions⟩ b next = b := by
  have : b ≠ slash := by
    rintro rfl
    cases h
  exact output_code (fun h => this h.1) (fun h => this h.1) substitutions

/-- Neither the end of a line nor a byte of a mark that blanking looks for, apart from opening braces. -/
def isPlain (b : UInt8) : Bool :=
  !(b == lineFeed || b == carriageReturn || b == slash || b == star || b == singleQuote ||
    b == doubleQuote || b == backslash || b == backtick || b == dollar || b == rightBrace)

theorem isPlain_iff {b : UInt8} :
    isPlain b = true ↔ b ≠ lineFeed ∧ b ≠ carriageReturn ∧ b ≠ slash ∧ b ≠ star ∧
      b ≠ singleQuote ∧ b ≠ doubleQuote ∧ b ≠ backslash ∧ b ≠ backtick ∧ b ≠ dollar ∧
      b ≠ rightBrace := by
  simp [isPlain, and_assoc]

/-- The byte in front of which the last of these bytes stands, or else the next of them. -/
def peek (bs : List UInt8) (next : Option UInt8) : Option UInt8 := bs.head?.or next

@[simp] theorem peek_nil (next : Option UInt8) : peek [] next = next := rfl
@[simp] theorem peek_cons (b : UInt8) (bs : List UInt8) (next : Option UInt8) :
    peek (b :: bs) next = some b := rfl
@[simp] theorem peek_none (bs : List UInt8) : peek bs none = bs.head? := by simp [peek]

theorem peek_append (bs cs : List UInt8) (next : Option UInt8) :
    peek (bs ++ cs) next = peek bs (peek cs next) := by
  cases bs <;> rfl

/-- What is shown for bytes in front of the byte `next`. -/
def outputs (next : Option UInt8) (σ : State) : List UInt8 → List UInt8
  | [] => []
  | b :: bs => σ.output b (peek bs next) :: outputs next (σ.step b (peek bs next)) bs

/-- The state after bytes in front of the byte `next`. -/
def after (next : Option UInt8) (σ : State) : List UInt8 → State
  | [] => σ
  | b :: bs => after next (σ.step b (peek bs next)) bs

theorem outputs_append (next : Option UInt8) (σ : State) (bs cs : List UInt8) :
    outputs next σ (bs ++ cs) =
      outputs (peek cs next) σ bs ++ outputs next (after (peek cs next) σ bs) cs := by
  induction bs generalizing σ with
  | nil => rfl
  | cons b bs ih => simp only [List.cons_append, outputs, after, peek_append, ih]

theorem after_append (next : Option UInt8) (σ : State) (bs cs : List UInt8) :
    after next σ (bs ++ cs) = after next (after (peek cs next) σ bs) cs := by
  induction bs generalizing σ with
  | nil => rfl
  | cons b bs ih => simp only [List.cons_append, after, peek_append, ih]

@[simp] theorem length_outputs (next : Option UInt8) (σ : State) (bs : List UInt8) :
    (outputs next σ bs).length = bs.length := by
  induction bs generalizing σ with
  | nil => rfl
  | cons b bs ih => rw [outputs, List.length_cons, List.length_cons, ih]

end State

/-! ## The parts of a source

One lemma for each kind of text that is split off: the machine blanks it, and goes on with what follows
it. -/

open State

variable (substitutions : List UInt32)

theorem isMark_of_isLineEnd {b : UInt8} (h : isLineEnd b = true) : isMark b = false := by
  rcases (by simpa [isLineEnd] using h : b = lineFeed ∨ b = carriageReturn) with rfl | rfl <;> decide

theorem outputs_lineComment (bs : List UInt8) :
    outputs none ⟨.lineComment, substitutions⟩ bs =
      blanks (lineComment bs).1 ++ outputs none ⟨.code, substitutions⟩ (lineComment bs).2 := by
  induction bs with
  | nil => rfl
  | cons b bs ih =>
      simp only [lineComment] at ih ⊢
      cases h : isLineEnd b with
      | false => simp [outputs, step, output, shows, blanks, h, ih]
      | true =>
          have mark := isMark_of_isLineEnd h
          rw [List.takeWhile_cons_of_neg (by simp [h]), List.dropWhile_cons_of_neg (by simp [h]),
            outputs, outputs, step_code_of_not_isMark mark, output_code_of_not_isMark mark]
          simp [step, output, shows, blankByte, blanks, h]

theorem outputs_blockComment (bs : List UInt8) :
    outputs none ⟨.blockComment, substitutions⟩ bs =
      blanks (blockComment bs).1 ++ outputs none ⟨.code, substitutions⟩ (blockComment bs).2 := by
  fun_induction blockComment bs with
  | case1 => rfl
  | case2 b bs h =>
      obtain ⟨rfl, hs⟩ := h
      obtain ⟨rest, rfl⟩ : ∃ rest, bs = slash :: rest := by
        cases bs <;> simp_all
      simp [outputs, step, output, shows, blanks]
  | case3 b bs h ih => simp [outputs, step, output, shows, blanks, h, ih]

theorem outputs_literal (quote : UInt8) (bs : List UInt8) :
    outputs none ⟨.literal quote, substitutions⟩ bs =
      blanks (literal quote bs).1 ++ ((literal quote bs).2.take 1 ++
        outputs none ⟨.code, substitutions⟩ ((literal quote bs).2.drop 1)) := by
  fun_induction literal quote bs with
  | case1 => rfl
  | case2 b bs h => simp [outputs, step, output, shows, blanks, h]
  | case3 h => simp [outputs, output, shows, blanks, h]
  | case4 escaped bs h ih => simp [outputs, step, output, shows, blanks, h, ih]
  | case5 b bs h h' ih => simp [outputs, step, output, shows, blanks, h, h', ih]

theorem outputs_templateText (bs : List UInt8) :
    outputs none ⟨.template, substitutions⟩ bs =
      blanks (templateText bs).1 ++ outputs none ⟨.template, substitutions⟩ (templateText bs).2 := by
  fun_induction templateText bs with
  | case1 => rfl
  | case2 => rfl
  | case3 escaped bs ih => simp +decide [outputs, step, output, shows, blanks, ih]
  | case4 b bs h h' => rfl
  | case5 b bs h h' ih =>
      obtain ⟨tick, opening⟩ := not_or.mp h'
      have shown : shows ⟨.template, substitutions⟩ b bs.head? = false := by
        simpa [shows] using ⟨tick, not_and.mp opening⟩
      simp only [outputs, peek_none, step, output, shown, if_neg h, if_neg tick, if_neg opening, ih]
      rfl

/-- The text of a template ends with the source, a backtick, or the mark that opens a substitution. -/
theorem templateText_rest (bs : List UInt8) :
    (templateText bs).2 = [] ∨ (∃ rest, (templateText bs).2 = backtick :: rest) ∨
      ∃ rest, (templateText bs).2 = dollar :: leftBrace :: rest := by
  fun_induction templateText bs with
  | case1 => exact .inl rfl
  | case2 => exact .inl rfl
  | case3 escaped bs ih => exact ih
  | case4 b bs h h' =>
      rcases h' with rfl | ⟨rfl, head⟩
      · exact .inr (.inl ⟨bs, rfl⟩)
      · cases bs with
        | nil => cases head
        | cons c bs =>
            rw [List.head?_cons, Option.some.injEq] at head
            exact .inr (.inr ⟨bs, by rw [head]⟩)
  | case5 b bs h h' ih => exact ih

theorem outputs_template (bs : List UInt8) :
    outputs none ⟨.template, substitutions⟩ bs =
      (template substitutions bs).shown ++
        outputs none ⟨.code, (template substitutions bs).substitutions⟩
          (template substitutions bs).rest := by
  rw [outputs_templateText, template]
  rcases templateText_rest bs with e | ⟨rest, e⟩ | ⟨rest, e⟩
  · rw [e]
    rfl
  · rw [e]
    simp +decide [outputs, step, output, shows]
  · rw [e]
    simp +decide [outputs, step, output, shows]

/-- Blanking shows what the machine shows. -/
theorem code_eq_outputs (bs : List UInt8) :
    code substitutions bs = outputs none ⟨.code, substitutions⟩ bs := by
  fun_induction code substitutions bs with
  | case1 => rfl
  | case2 substitutions b bs h ih =>
      rw [ih]
      simp [outputs, step, output, shows, blanks, h, outputs_lineComment]
  | case3 substitutions b bs h h' ih =>
      obtain ⟨rfl, head⟩ := h'
      obtain ⟨rest, rfl⟩ : ∃ rest, bs = star :: rest := by
        cases bs <;> simp_all
      rw [ih]
      simp +decide [outputs, step, output, shows, blanks, outputs_blockComment]
  | case4 substitutions b bs h h' quote ih =>
      rw [ih, outputs, peek_none, output_code h h', step]
      simp only [if_neg h, if_neg h', if_pos quote, outputs_literal]
  | case5 substitutions bs h h' quote ih =>
      rw [ih]
      simp +decide [outputs, step, output, shows, outputs_template]
  | case6 substitutions bs h h' quote tick ih =>
      rw [ih]
      simp +decide [outputs, step, output, shows]
  | case7 bs h h' quote tick opening ih =>
      rw [ih]
      simp +decide [outputs, step, output, shows, closeBrace]
  | case8 bs outer h h' quote tick opening ih =>
      rw [ih]
      simp +decide [outputs, step, output, shows, closeBrace, outputs_template]
  | case9 bs depth outer deep h h' quote tick opening ih =>
      rw [ih]
      simp +decide [outputs, step, output, shows, closeBrace, deep]
  | case10 substitutions b bs h h' quote tick opening closing ih =>
      rw [ih, outputs, peek_none, output_code h h', step]
      simp only [if_neg h, if_neg h', if_neg quote, if_neg tick, if_neg opening, if_neg closing]

end ImportWeave.Blanking
