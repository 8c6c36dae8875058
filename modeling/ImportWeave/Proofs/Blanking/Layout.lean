import ImportWeave.Proofs.Blanking.Characters
import ImportWeave.Proofs.Overlay.Pieces
import Mathlib.Data.List.Chain
import Mathlib.Data.List.Forall2

/-! # The layout of a blanked source

Blanking works in place: a byte stays or becomes a space, and what ends a line stays. The result is a text
with its characters where the source has them, and no comment opens in it. What is shown for a byte depends
on the bytes in front of it and on the next one, so text that is added to a source changes nothing but,
perhaps, its last byte. -/

namespace ImportWeave

namespace Blanking

/-- A byte stays as it is, or it does not end a line and there is a space in its place. -/
def StaysOrSpace (b shown : UInt8) : Prop :=
  shown = b ∨ shown = space ∧ b ≠ lineFeed ∧ b ≠ carriageReturn

theorem staysOrSpace_blankByte (b : UInt8) : StaysOrSpace b (blankByte b) := by
  unfold blankByte
  split
  · exact .inl rfl
  · next other =>
      simp only [isLineEnd, Bool.or_eq_true, beq_iff_eq, not_or] at other
      exact .inr ⟨rfl, other⟩

theorem blankByte_ne_slash (b : UInt8) : blankByte b ≠ slash := by
  unfold blankByte
  split
  · next lineEnd =>
      rintro rfl
      exact absurd lineEnd (by decide)
  · decide

/-- Two bytes that open a comment, side by side. -/
def OpenComment (b next : UInt8) : Prop := b = slash ∧ (next = slash ∨ next = star)

namespace State

theorem staysOrSpace_output (σ : State) (b : UInt8) (next : Option UInt8) :
    StaysOrSpace b (σ.output b next) := by
  unfold output
  split
  · exact .inl rfl
  · exact staysOrSpace_blankByte b

theorem forall₂_outputs (next : Option UInt8) (σ : State) (bs : List UInt8) :
    List.Forall₂ StaysOrSpace bs (outputs next σ bs) := by
  induction bs generalizing σ with
  | nil => exact .nil
  | cons b bs ih => exact .cons (staysOrSpace_output σ b _) (ih _)

/-- A slash is only shown in code, and only if the next byte does not make it open a comment. -/
theorem not_openComment_of_output {σ : State} {b next : UInt8} (expects : σ.Expects (some b))
    (slashed : σ.output b (some next) = slash) : ¬ OpenComment slash next := by
  have shown : σ.shows b (some next) = true := by
    by_contra hidden
    rw [output, if_neg hidden] at slashed
    exact blankByte_ne_slash b slashed
  rw [output, if_pos shown] at slashed
  subst slashed
  rcases σ with ⟨mode, substitutions⟩
  cases mode with
  | code => simpa [shows, OpenComment] using shown
  | literal quote => rcases expects with rfl | rfl <;> simp +decide [shows] at shown
  | template => simp +decide [shows] at shown
  | substitutionOpening => exact absurd (Option.some.inj expects) (by decide)
  | lineComment | blockOpening | blockComment | blockClosing | literalEscape | templateEscape =>
      cases shown

/-- No comment opens in what is shown. -/
theorem isChain_outputs {σ : State} {next : Option UInt8} {bs : List UInt8}
    (expects : σ.Expects (peek bs next)) :
    (outputs next σ bs).IsChain fun b c => ¬ OpenComment b c := by
  induction bs generalizing σ with
  | nil => exact .nil
  | cons b bs ih =>
      have rest := ih (expects_step expects (peek bs next))
      cases bs with
      | nil => exact .singleton _
      | cons c bs =>
          refine List.isChain_cons_cons.mpr ⟨?_, rest⟩
          rintro ⟨slashed, second⟩
          have alone := not_openComment_of_output expects slashed
          rcases staysOrSpace_output (σ.step b (some c)) c (peek bs next) with e | ⟨e, -⟩
          · exact alone ⟨rfl, e ▸ second⟩
          · rw [peek_cons, e] at second
            exact absurd second (by decide)

/-- The byte behind others matters for the last of them alone. -/
theorem getElem?_outputs_of_lt (next next' : Option UInt8) (σ : State) {bs : List UInt8} {i : Nat}
    (h : i + 1 < bs.length) : (outputs next σ bs)[i]? = (outputs next' σ bs)[i]? := by
  induction bs generalizing σ i with
  | nil => cases h
  | cons b bs ih =>
      cases bs with
      | nil => simp at h
      | cons c bs =>
          cases i with
          | zero => rfl
          | succ i => exact ih _ (Nat.lt_of_succ_lt_succ h)

end State

end Blanking

open Blanking

theorem byteLength_blankSource (source : String) :
    Text.byteLength (blankSource source).toList = Text.byteLength source.toList := by
  rw [← Text.length_encode, ← bytesOf_eq_encode, bytesOf_blankSource, blankBytes_eq_outputs,
    State.length_outputs, Text.length_encode]

/-- The two parts of a source are shown as texts of their own, so the blanked source has an offset between
characters where the source has one. -/
theorem isOffset_blankSource {source : String} {n : Nat} (h : Text.IsOffset source.toList n) :
    Text.IsOffset (blankSource source).toList n := by
  obtain ⟨front, rest, split, rfl⟩ := Text.isOffset_iff.mp h
  let next := State.peek (Text.encode rest) none
  have begins := State.expects_start (State.peek (Text.encode front) next)
  obtain ⟨shownFront, hf⟩ := exists_encode_outputs begins
  obtain ⟨shownRest, hr⟩ := exists_encode_outputs (State.expects_after begins)
  have text : (blankSource source).toList = shownFront ++ shownRest := by
    apply Text.encode_injective
    rw [← bytesOf_eq_encode, bytesOf_blankSource, blankBytes_eq_outputs, split, Text.encode_append,
      State.outputs_append, hf, hr, Text.encode_append]
  have size : Text.byteLength shownFront = Text.byteLength front := by
    rw [← Text.length_encode, ← hf, State.length_outputs, Text.length_encode]
  exact Text.isOffset_iff.mpr ⟨shownFront, shownRest, text, size.symm⟩

/-- Blanking gives a text, of as many bytes as the source. A byte stays or a space stands for it, and what
ends a line stays. Offsets between characters are still such offsets, and no comment opens in the text. -/
theorem blankSource_keeps_layout (source : String) :
    String.fromUTF8? ⟨(blankBytes source).toArray⟩ = some (blankSource source) ∧
    (blankBytes source).length = (bytesOf source).length ∧
    List.Forall₂ StaysOrSpace (bytesOf source) (blankBytes source) ∧
    (∀ n, Text.IsOffset source.toList n → Text.IsOffset (blankSource source).toList n) ∧
    (blankBytes source).IsChain fun b c => ¬ OpenComment b c := by
  have inPlace : List.Forall₂ StaysOrSpace (bytesOf source) (blankBytes source) := by
    rw [blankBytes, code_eq_outputs]
    exact State.forall₂_outputs ..
  have chain : (blankBytes source).IsChain fun b c => ¬ OpenComment b c := by
    rw [blankBytes_eq_outputs]
    exact State.isChain_outputs (State.expects_start _)
  exact ⟨fromUTF8?_blankBytes source, inPlace.length_eq.symm, inPlace,
    fun n h => isOffset_blankSource h, chain⟩

/-- Text that is added to a source leaves all that is shown for the source as it is, but for the last
byte. -/
theorem blankSource_append_stable (source added : String) (i : Nat)
    (inside : i + 1 < (bytesOf source).length) :
    (bytesOf (blankSource (source ++ added)))[i]? = (bytesOf (blankSource source))[i]? := by
  rw [bytesOf_eq_encode] at inside
  rw [bytesOf_blankSource, bytesOf_blankSource, blankBytes_eq_outputs, blankBytes_eq_outputs,
    String.toList_append, Text.encode_append, State.outputs_append,
    List.getElem?_append_left (by rw [State.length_outputs]; omega)]
  exact State.getElem?_outputs_of_lt _ _ _ inside

-- the last byte may turn out to open a comment
example : (bytesOf (blankSource ("/" ++ "/")))[0]? ≠ (bytesOf (blankSource "/"))[0]? := by
  decide +kernel

/-- A source that ends with an escape in a literal, inside a template, and what goes on from there. -/
theorem blankSource_append_stable_in_literal :
    let source := "`$\x7b'a\\"
    let added := "'\x7d` // b'"
    4 + 1 < (bytesOf source).length ∧
      (bytesOf (blankSource (source ++ added)))[4]? = some space ∧
      (bytesOf (blankSource (source ++ added)))[4]? = (bytesOf (blankSource source))[4]? := by
  intro source added
  have inside : 4 + 1 < (bytesOf source).length := by decide +kernel
  have stable := blankSource_append_stable source added 4 inside
  refine ⟨inside, ?_, stable⟩
  rw [stable]
  decide +kernel

end ImportWeave
