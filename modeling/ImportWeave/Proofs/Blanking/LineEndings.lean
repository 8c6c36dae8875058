import ImportWeave.Proofs.Blanking.LiveOffsets
import Mathlib.Order.Lattice.Nat

/-! # Blanking and line endings

Lines end with a line feed, or with a carriage return and a line feed. If all lines of a source are made to
end in the second way, blanking reads the same text as comments, literals and code, with one exception: a
backslash takes one byte with it. In a literal that goes on in the next line this is the line feed, but the
carriage return if there is one, and then the line feed ends the literal. -/

namespace ImportWeave

namespace Text

/-- A carriage return in front of each line feed. -/
def crlf (cs : List Char) : List Char := cs.flatMap fun c => if c = '\n' then ['\r', '\n'] else [c]

end Text

/-- The text with a carriage return in front of each line feed. -/
def withCrlf (text : String) : String := String.ofList (Text.crlf text.toList)

namespace Blanking

/-- A carriage return in front of each line feed. -/
def crlf (bs : List UInt8) : List UInt8 :=
  bs.flatMap fun b => if b = lineFeed then [carriageReturn, lineFeed] else [b]

@[simp] theorem crlf_append (bs cs : List UInt8) : crlf (bs ++ cs) = crlf bs ++ crlf cs :=
  List.flatMap_append

@[simp] theorem crlf_lineFeed_cons (bs : List UInt8) :
    crlf (lineFeed :: bs) = carriageReturn :: lineFeed :: crlf bs := rfl

theorem crlf_cons_of_ne {b : UInt8} (h : b ≠ lineFeed) (bs : List UInt8) :
    crlf (b :: bs) = b :: crlf bs := by
  rw [crlf, List.flatMap_cons, if_neg h]
  rfl

theorem crlf_of_notMem {bs : List UInt8} (h : lineFeed ∉ bs) : crlf bs = bs := by
  induction bs with
  | nil => rfl
  | cons b bs ih =>
      rw [List.mem_cons, not_or] at h
      rw [crlf_cons_of_ne (Ne.symm h.1), ih h.2]

end Blanking

open Blanking

/-- A line feed is a character and a byte, and no other character has this byte. -/
theorem Text.encode_crlf (cs : List Char) : encode (crlf cs) = Blanking.crlf (encode cs) := by
  induction cs with
  | nil => rfl
  | cons c cs ih =>
      rw [crlf, List.flatMap_cons, ← crlf, encode_append, encode_cons, crlf_append, ih]
      congr 1
      split
      · next feed =>
          subst feed
          rfl
      · next other =>
          have notMem : lineFeed ∉ String.utf8EncodeChar c :=
            notMem_utf8EncodeChar (by decide) fun e => other (Char.toNat_inj.mp e)
          rw [crlf_of_notMem notMem, encode_cons, encode_nil, List.append_nil]

theorem bytesOf_withCrlf (text : String) : bytesOf (withCrlf text) = crlf (bytesOf text) := by
  rw [bytesOf_eq_encode, bytesOf_eq_encode, withCrlf, String.toList_ofList, Text.encode_crlf]

theorem bytesOf_injective : Function.Injective bytesOf := by
  intro text text' h
  rw [bytesOf_eq_encode, bytesOf_eq_encode] at h
  exact String.toList_inj.mp (Text.encode_injective h)

namespace Blanking

/-- The first byte of what becomes of bytes that start with `next`. -/
def lead (next : Option UInt8) : Option UInt8 :=
  next.map fun b => if b = lineFeed then carriageReturn else b

theorem head?_crlf (bs : List UInt8) : (crlf bs).head? = lead bs.head? := by
  cases bs with
  | nil => rfl
  | cons b bs =>
      by_cases feed : b = lineFeed
      · subst feed
        rfl
      · simp [crlf_cons_of_ne feed, lead, feed]

/-- A mark comes next exactly if it did before. -/
theorem lead_eq_some_iff {mark : UInt8} (h : isLineEnd mark = false) (next : Option UInt8) :
    lead next = some mark ↔ next = some mark := by
  simp only [isLineEnd, Bool.or_eq_false_iff, beq_eq_false_iff_ne] at h
  cases next with
  | none => rfl
  | some b =>
      by_cases feed : b = lineFeed
      · simp [lead, feed, h.1.symm, h.2.symm]
      · simp [lead, feed]

namespace State

theorem peek_crlf (bs : List UInt8) (next : Option UInt8) :
    peek (crlf bs) (lead next) = lead (peek bs next) := by
  rw [peek, peek, head?_crlf]
  cases bs <;> rfl

/-! ## One byte -/

theorem step_lead (σ : State) (b : UInt8) (next : Option UInt8) :
    σ.step b (lead next) = σ.step b next := by
  rcases σ with ⟨mode, substitutions⟩
  cases mode <;>
    simp only [step, lead_eq_some_iff (by decide : isLineEnd slash = false),
      lead_eq_some_iff (by decide : isLineEnd star = false),
      lead_eq_some_iff (by decide : isLineEnd leftBrace = false)]

theorem shows_lead (σ : State) (b : UInt8) (next : Option UInt8) :
    σ.shows b (lead next) = σ.shows b next := by
  have mark {m : UInt8} (h : isLineEnd m = false) : (lead next == some m) = (next == some m) := by
    rw [Bool.eq_iff_iff, beq_iff_eq, beq_iff_eq, lead_eq_some_iff h]
  rcases σ with ⟨mode, substitutions⟩
  cases mode <;>
    simp only [shows, mark (by decide : isLineEnd slash = false),
      mark (by decide : isLineEnd star = false), mark (by decide : isLineEnd leftBrace = false)]

theorem output_lead (σ : State) (b : UInt8) (next : Option UInt8) :
    σ.output b (lead next) = σ.output b next := by rw [output, output, shows_lead]

/-- What ends a line is always there, shown or blanked. -/
theorem output_of_isLineEnd {b : UInt8} (h : isLineEnd b = true) (σ : State) (next : Option UInt8) :
    σ.output b next = b := by
  have blank : blankByte b = b := if_pos h
  rw [output, blank, ite_self]

theorem output_ne_lineFeed {b : UInt8} (h : b ≠ lineFeed) (σ : State) (next : Option UInt8) :
    σ.output b next ≠ lineFeed := by
  unfold output blankByte
  split
  · exact h
  · split
    · exact h
    · decide

/-- Behind a backslash in a literal. -/
def EscapesInLiteral (σ : State) : Prop := ∃ quote, σ.mode = .literalEscape quote

/-- A carriage return and a line feed do what the line feed does alone, if it is not escaped in a literal.
In a line comment the first of the two ends it, and in a literal the second. -/
theorem step_crlf {σ : State} (h : ¬ σ.EscapesInLiteral) (next : Option UInt8) :
    (σ.step carriageReturn (some lineFeed)).step lineFeed next = σ.step lineFeed next := by
  rcases σ with ⟨mode, substitutions⟩
  cases mode with
  | literalEscape quote => exact absurd ⟨quote, rfl⟩ h
  | literal quote =>
      by_cases closing : carriageReturn = quote
      · subst closing
        rfl
      · simp +decide [step, closing]
  | code | lineComment | blockOpening | blockComment | blockClosing | template | templateEscape
  | substitutionOpening => rfl

/-- An escaped line feed leaves a literal open. Behind a carriage return, which is escaped then, it ends the
literal. -/
theorem step_crlf_of_escapesInLiteral {σ : State} (h : σ.EscapesInLiteral) (next : Option UInt8) :
    (σ.step carriageReturn (some lineFeed)).step lineFeed next = ⟨.code, σ.substitutions⟩ ∧
      (σ.step lineFeed next).mode ≠ .code ∧
      (σ.step lineFeed next).substitutions = σ.substitutions := by
  rcases σ with ⟨mode, substitutions⟩
  obtain ⟨quote, rfl⟩ := h
  refine ⟨?_, ?_, rfl⟩
  · simp [step]
  · simp [step]

/-! ## All bytes -/

/-- No line feed among the bytes is escaped in a literal. -/
def Unbroken (σ : State) (bs : List UInt8) : Prop :=
  ∀ front rest, bs = front ++ lineFeed :: rest →
    ¬ (after (some lineFeed) σ front).EscapesInLiteral

theorem Unbroken.tail {σ : State} {b : UInt8} {bs : List UInt8} (h : σ.Unbroken (b :: bs))
    (next : Option UInt8) : (σ.step b (peek bs next)).Unbroken bs := by
  rintro front rest rfl
  have := h (b :: front) rest rfl
  rwa [after, ← peek_cons lineFeed rest next, ← peek_append] at this

/-- Without such a line feed, carriage returns change neither what is read nor what is shown. The induction
is on the bytes. -/
theorem run_crlf {σ : State} {bs : List UInt8} (h : σ.Unbroken bs) (next : Option UInt8) :
    after (lead next) σ (crlf bs) = after next σ bs ∧
      outputs (lead next) σ (crlf bs) = crlf (outputs next σ bs) := by
  induction bs generalizing σ with
  | nil => exact ⟨rfl, rfl⟩
  | cons b bs ih =>
      obtain ⟨state, shown⟩ := ih (h.tail next)
      by_cases feed : b = lineFeed
      · subst feed
        have unescaped : ¬ σ.EscapesInLiteral := h [] bs rfl
        have both := step_crlf unescaped (peek bs next)
        simp only [crlf_lineFeed_cons, after, outputs, peek_cons, peek_crlf, step_lead, both,
          output_of_isLineEnd (by decide : isLineEnd carriageReturn = true),
          output_of_isLineEnd (by decide : isLineEnd lineFeed = true)]
        exact ⟨state, by rw [shown]⟩
      · rw [crlf_cons_of_ne feed, after, after, outputs, outputs, peek_crlf, step_lead, output_lead,
          crlf_cons_of_ne (output_ne_lineFeed feed σ _)]
        exact ⟨state, by rw [shown]⟩

/-- Behind a line feed that is escaped in a literal, what follows is read as code and no longer as a part of
the literal. This makes a difference, unless it is shown alike. -/
theorem outputs_crlf_iff {σ : State} {front rest : List UInt8} (h : σ.Unbroken front)
    (escaped : (after (some lineFeed) σ front).EscapesInLiteral) :
    let inside := after rest.head? σ (front ++ [lineFeed])
    outputs none σ (crlf (front ++ lineFeed :: rest)) =
        crlf (outputs none σ (front ++ lineFeed :: rest)) ↔
      outputs none ⟨.code, inside.substitutions⟩ (crlf rest) = crlf (outputs none inside rest) := by
  intro inside
  let τ := after (some lineFeed) σ front
  have behind : inside = τ.step lineFeed rest.head? := after_append _ _ _ _
  obtain ⟨outside, -, same⟩ := step_crlf_of_escapesInLiteral escaped rest.head?
  obtain ⟨state, shown⟩ := run_crlf h (some lineFeed)
  have unix : outputs none σ (front ++ lineFeed :: rest) =
      outputs (some lineFeed) σ front ++ lineFeed :: outputs none inside rest := by
    rw [outputs_append, peek_cons, outputs, output_of_isLineEnd (by decide), peek_none, behind]
  have windows : outputs none σ (crlf (front ++ lineFeed :: rest)) =
      crlf (outputs (some lineFeed) σ front) ++
        carriageReturn :: lineFeed :: outputs none ⟨.code, inside.substitutions⟩ (crlf rest) := by
    have first : peek (carriageReturn :: lineFeed :: crlf rest) none = lead (some lineFeed) := rfl
    rw [crlf_append, crlf_lineFeed_cons, outputs_append, first, state, shown, outputs, outputs,
      output_of_isLineEnd (by decide), output_of_isLineEnd (by decide), peek_cons, peek_none, head?_crlf,
      step_lead, outside, behind, same]
  rw [unix, windows, crlf_append, crlf_lineFeed_cons, List.append_cancel_left_eq, List.cons_inj_right,
    List.cons_inj_right]

/-! ## The state in front of a byte -/

variable {source : String} {front rest : List UInt8}

theorem before_of_bytes (h : bytesOf source = front ++ rest) :
    before source front.length = after rest.head? start front := by
  rw [before, h, List.take_left, List.getElem?_append_right (Nat.le_refl _), Nat.sub_self,
    List.head?_eq_getElem?]

theorem before_withCrlf (h : bytesOf source = front ++ rest) :
    before (withCrlf source) (crlf front).length = after (lead rest.head?) start (crlf front) := by
  have split : bytesOf (withCrlf source) = crlf front ++ crlf rest := by
    rw [bytesOf_withCrlf, h, crlf_append]
  rw [before_of_bytes split, head?_crlf]

/-- The state behind a line feed, with a carriage return in front of it. -/
theorem before_withCrlf_lineFeed (h : bytesOf source = front ++ lineFeed :: rest) :
    before (withCrlf source) (crlf (front ++ [lineFeed])).length =
      ((before (withCrlf source) (crlf front).length).step carriageReturn (some lineFeed)).step lineFeed
        rest.head? := by
  have split : bytesOf source = (front ++ [lineFeed]) ++ rest := by simpa using h
  rw [before_withCrlf split, before_withCrlf h, crlf_append, after_append]
  exact step_lead _ _ _

end State

end Blanking

open State

/-- A literal goes on behind this line feed, which has a backslash in front of it. -/
def IsContinuation (source : String) (n : Nat) : Prop :=
  (bytesOf source)[n]? = some lineFeed ∧ (State.before source n).EscapesInLiteral

section

variable {source : String}

theorem isContinuation_iff {n : Nat} :
    IsContinuation source n ↔ ∃ front rest, bytesOf source = front ++ lineFeed :: rest ∧
      front.length = n ∧ (after (some lineFeed) start front).EscapesInLiteral := by
  constructor
  · rintro ⟨feed, escaped⟩
    obtain ⟨lt, feed⟩ := List.getElem?_eq_some_iff.mp feed
    have split : bytesOf source = (bytesOf source).take n ++ lineFeed :: (bytesOf source).drop (n + 1) := by
      rw [← feed, ← List.drop_eq_getElem_cons, List.take_append_drop]
    have length : ((bytesOf source).take n).length = n := List.length_take_of_le (Nat.le_of_lt lt)
    refine ⟨_, _, split, length, ?_⟩
    have state := before_of_bytes split
    rw [length] at state
    rwa [state] at escaped
  · rintro ⟨front, rest, split, rfl, escaped⟩
    refine ⟨by simp [split], ?_⟩
    rw [before_of_bytes split]
    exact escaped

/-- Before the first continuation, no line feed is escaped in a literal. -/
theorem unbroken_of_forall {front rest : List UInt8} (split : bytesOf source = front ++ rest)
    (h : ∀ m < front.length, ¬ IsContinuation source m) : start.Unbroken front := by
  rintro before after rfl escaped
  refine h before.length (by simp) (isContinuation_iff.mpr ⟨before, after ++ rest, ?_, rfl, escaped⟩)
  simpa using split

/-- If literals go on in the next line, what stands behind the first such line feed decides. -/
theorem outputs_crlf_iff_of_isLeast {n : Nat} (least : IsLeast {n | IsContinuation source n} n) :
    let inside := State.before source (n + 1)
    let rest := (bytesOf source).drop (n + 1)
    outputs none start (crlf (bytesOf source)) = crlf (outputs none start (bytesOf source)) ↔
      outputs none ⟨.code, inside.substitutions⟩ (crlf rest) = crlf (outputs none inside rest) := by
  intro inside rest
  obtain ⟨front, rest', split, rfl, escaped⟩ := isContinuation_iff.mp least.1
  have unbroken : start.Unbroken front :=
    unbroken_of_forall split fun m lt continued => absurd (least.2 continued) (Nat.not_le.mpr lt)
  have behind : inside = after rest'.head? start (front ++ [lineFeed]) := by
    have further : bytesOf source = (front ++ [lineFeed]) ++ rest' := by simpa using split
    rw [← before_of_bytes further, List.length_append, List.length_singleton]
  have remaining : rest = rest' := by simp [rest, split]
  rw [behind, remaining, split]
  exact outputs_crlf_iff unbroken escaped

/-- If the states in front of all bytes are the same, then no literal goes on in the next line. -/
theorem not_isContinuation_of_before
    (same : ∀ front rest, bytesOf source = front ++ rest →
      State.before (withCrlf source) (crlf front).length = State.before source front.length) (n : Nat) :
    ¬ IsContinuation source n := by
  intro continued
  obtain ⟨front, rest, split, -, escaped⟩ := isContinuation_iff.mp continued
  have further : bytesOf source = (front ++ [lineFeed]) ++ rest := by simpa using split
  have behind := same _ _ further
  rw [before_withCrlf_lineFeed split, same _ _ split, before_of_bytes split, before_of_bytes further,
    after_append] at behind
  obtain ⟨outside, inside, -⟩ := step_crlf_of_escapesInLiteral escaped rest.head?
  rw [List.head?_cons, outside] at behind
  exact inside (congrArg State.mode behind).symm

theorem blankSource_withCrlf_eq_iff :
    blankSource (withCrlf source) = withCrlf (blankSource source) ↔
      outputs none start (crlf (bytesOf source)) = crlf (outputs none start (bytesOf source)) := by
  rw [← bytesOf_injective.eq_iff, bytesOf_blankSource, bytesOf_withCrlf, bytesOf_blankSource, blankBytes,
    blankBytes, code_eq_outputs, code_eq_outputs, bytesOf_withCrlf]
  rfl

end

/-- With a carriage return in front of each line feed, a source is read as it is without them exactly if no
literal goes on in the next line. If one does, all that stands behind the first such line feed is read as
code and not as a part of the literal, and the blanked source is the same up to its line ends exactly if this
makes no difference to what is shown. -/
theorem blankSource_withCrlf_iff (source : String) :
    ((∀ front rest, bytesOf source = front ++ rest →
        State.before (withCrlf source) (crlf front).length = State.before source front.length) ↔
      ∀ n, ¬ IsContinuation source n) ∧
    (blankSource (withCrlf source) = withCrlf (blankSource source) ↔
      ∀ n, IsLeast {n | IsContinuation source n} n →
        let inside := State.before source (n + 1)
        let rest := (bytesOf source).drop (n + 1)
        outputs none ⟨.code, inside.substitutions⟩ (crlf rest) = crlf (outputs none inside rest)) := by
  refine ⟨⟨not_isContinuation_of_before, fun none front rest split => ?_⟩, ?_⟩
  · have unbroken := unbroken_of_forall split fun m _ => none m
    rw [before_withCrlf split, before_of_bytes split, (run_crlf unbroken _).1]
  · rw [blankSource_withCrlf_eq_iff]
    constructor
    · exact fun same n least => (outputs_crlf_iff_of_isLeast least).mp same
    · intro alike
      by_cases continued : ∃ n, IsContinuation source n
      · have least : IsLeast {n | IsContinuation source n} (sInf {n | IsContinuation source n}) :=
          ⟨Nat.sInf_mem continued, fun m hm => Nat.sInf_le hm⟩
        exact (outputs_crlf_iff_of_isLeast least).mpr (alike _ least)
      · have unbroken := unbroken_of_forall (List.append_nil (bytesOf source)).symm
          fun m _ hm => continued ⟨m, hm⟩
        exact (run_crlf unbroken none).2

/-- A string that goes on in the next line. With a carriage return its second line is code, and the quotation
mark that closes it opens another string. -/
theorem blankSource_withCrlf_in_literal :
    let source := "\x22a\\\nb\x22"
    '\r' ∉ source.toList ∧ blankSource (withCrlf source) = "\x22  \r\nb\x22" ∧
      withCrlf (blankSource source) = "\x22  \r\n \x22" ∧
      blankSource (withCrlf source) ≠ withCrlf (blankSource source) := by
  decide +kernel

end ImportWeave
