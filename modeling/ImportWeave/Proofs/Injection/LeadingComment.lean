import ImportWeave.Injection
import ImportWeave.Proofs.Blanking.Characters
import ImportWeave.Proofs.Overlay.Pieces
import ImportWeave.Proofs.StaticImport.Resumption

/-! # A comment in front of a source

A line with a comment in front of a source is blanked and leaves the rest of the source as it is. The
statements that are located are those of the source exactly if no statement that begins in the comment
counts as code, and if what is taken of the source by one that begins there makes no difference. -/

namespace ImportWeave

/-! ## Texts behind others -/

namespace Text

theorem splitAtByte_append_add (front cs : List Char) (n : Nat) :
    splitAtByte (front ++ cs) (byteLength front + n) =
      (front ++ (splitAtByte cs n).1, (splitAtByte cs n).2) := by
  induction front with
  | nil => simp
  | cons c front ih =>
      have size : byteLength (c :: front) + n - c.utf8Size = byteLength front + n := by
        rw [byteLength_cons]
        omega
      have fits : c.utf8Size ≤ byteLength (c :: front) + n := by
        rw [byteLength_cons]
        omega
      rw [List.cons_append, splitAtByte, if_pos fits, size, ih]
      rfl

/-- A part of a text is found behind another one as well. -/
theorem slice?_append_add (front cs : List Char) (start stop : Nat) :
    slice? (front ++ cs) (byteLength front + start) (byteLength front + stop) =
      slice? cs start stop := by
  simp only [slice?, splitAtByte_append_add, byteLength_append, Nat.add_left_cancel_iff]

theorem byteLength_replicate_space (n : Nat) : byteLength (List.replicate n ' ') = n := by
  induction n with
  | zero => rfl
  | succ n ih =>
      rw [List.replicate_succ, byteLength_cons, ih]
      exact Nat.add_comm 1 n

/-- A part of a text that ends inside its beginning belongs to the beginning. -/
theorem subset_of_slice? {front cs part : List Char} {start stop : Nat}
    (h : slice? (front ++ cs) start stop = some part) (inside : stop ≤ byteLength front) :
    part ⊆ front := by
  obtain ⟨before, after, split, -, hstop⟩ := slice?_eq_some_iff.mp h
  obtain ⟨more, beginning, -⟩ := eq_append_of_byteLength_le split.symm (hstop ▸ inside)
  rw [beginning, List.append_assoc]
  exact fun c hc => List.mem_append_right _ (List.mem_append_left _ hc)

end Text

namespace StaticImport

theorem isLive_shift (i : StaticImport) (front shown : List Char) :
    (i.shift (Text.byteLength front)).isLive (front ++ shown) = i.isLive shown := by
  simp only [isLive, shift, Text.slice?_append_add]

theorem isLive_of_stop_le {i : StaticImport} {blank : List Char} (h : Text.isBlank blank = true)
    (inside : i.stop ≤ Text.byteLength blank) (shown : List Char) :
    i.isLive (blank ++ shown) = false := by
  rw [isLive]
  split
  · rfl
  · next part slice =>
      have subset := Text.subset_of_slice? slice inside
      simp only [Text.isBlank, List.all_eq_true, Bool.not_eq_false'] at h ⊢
      exact fun c hc => h c (subset hc)

end StaticImport

/-- A comment on a line of its own. -/
def commentLine (text : String) : String := "//" ++ text ++ "\n"

/-! ## Blanking -/

namespace Blanking

theorem isLineEnd_of_mem_encode {cs : List Char} (h : ∀ c ∈ cs, c ≠ '\n' ∧ c ≠ '\r') :
    ∀ b ∈ Text.encode cs, isLineEnd b = false := by
  intro b hb
  obtain ⟨c, hc, hb⟩ := List.mem_flatMap.mp hb
  by_cases low : c.toNat < 128
  · rw [Text.utf8EncodeChar_of_lt low, List.mem_singleton] at hb
    have value : b.toNat = c.toNat := by
      rw [hb, UInt8.toNat_ofNat']
      omega
    obtain ⟨notLineFeed, notReturn⟩ := h c hc
    simp only [isLineEnd, Bool.or_eq_false_iff, beq_eq_false_iff_ne]
    constructor
    · rintro rfl
      exact notLineFeed (Char.toNat_inj.mp value.symm)
    · rintro rfl
      exact notReturn (Char.toNat_inj.mp value.symm)
  · exact IsHigh.isLineEnd (Text.le_of_mem_utf8EncodeChar (Nat.not_lt.mp low) b hb)

/-- A comment is blanked up to the end of its line, and the code behind it as if it stood alone. -/
theorem code_lineComment {bs : List UInt8} (h : ∀ b ∈ bs, isLineEnd b = false) (rest : List UInt8) :
    code [] (slash :: slash :: (bs ++ lineFeed :: rest)) =
      blanks (slash :: slash :: bs) ++ lineFeed :: code [] rest := by
  have split : lineComment (slash :: (bs ++ lineFeed :: rest)) = (slash :: bs, lineFeed :: rest) := by
    have all : ∀ b ∈ slash :: bs, (!isLineEnd b) = true := by
      rw [List.forall_mem_cons]
      exact ⟨rfl, by simpa using h⟩
    rw [lineComment, ← List.cons_append, List.takeWhile_append_of_pos all,
      List.dropWhile_append_of_pos all, List.takeWhile_cons_of_neg (by decide),
      List.dropWhile_cons_of_neg (by decide), List.append_nil]
  have lineEnd : code [] (lineFeed :: rest) = lineFeed :: code [] rest := by
    rw [code]
    simp +decide
  rw [code, if_pos ⟨rfl, rfl⟩, split, lineEnd]

end Blanking

open Blanking

/-- A line with a comment is blanked, and leaves what is shown of the source behind it as it is. -/
theorem exists_blankSource_comment {text : String} (oneLine : ∀ c ∈ text.toList, c ≠ '\n' ∧ c ≠ '\r')
    (source : String) :
    ∃ blank, (blankSource (commentLine text ++ source)).toList =
        blank ++ (blankSource source).toList ∧
      Text.isBlank blank = true ∧
      Text.byteLength blank = Text.byteLength (commentLine text).toList := by
  have noLineEnd := isLineEnd_of_mem_encode oneLine
  have bytes : bytesOf (blankSource (commentLine text ++ source)) =
      blanks (slash :: slash :: Text.encode text.toList) ++
        lineFeed :: bytesOf (blankSource source) := by
    have line : Text.encode (commentLine text ++ source).toList =
        slash :: slash :: (Text.encode text.toList ++ lineFeed :: Text.encode source.toList) := by
      simp only [commentLine, String.toList_append, Text.encode_append, List.append_assoc]
      rfl
    rw [bytesOf_blankSource, bytesOf_blankSource, blankBytes, blankBytes, bytesOf_eq_encode,
      bytesOf_eq_encode, line, code_lineComment noLineEnd]
  have noLineEnds : ∀ b ∈ slash :: slash :: Text.encode text.toList, isLineEnd b = false := by
    rw [List.forall_mem_cons, List.forall_mem_cons]
    exact ⟨rfl, rfl, noLineEnd⟩
  rw [blanks_eq_encode noLineEnds] at bytes
  generalize hn : (slash :: slash :: Text.encode text.toList).length = n at bytes
  refine ⟨List.replicate n ' ' ++ ['\n'], ?_, ?_, ?_⟩
  · apply Text.encode_injective
    rw [← bytesOf_eq_encode, bytes, bytesOf_eq_encode, Text.encode_append, Text.encode_append,
      List.append_assoc]
    rfl
  · simp +decide [Text.isBlank]
  · have size : n = Text.byteLength text.toList + 2 := by
      rw [← hn, List.length_cons, List.length_cons, Text.length_encode]
    rw [Text.byteLength_append, Text.byteLength_replicate_space, size, commentLine,
      String.toList_append, String.toList_append, Text.byteLength_append, Text.byteLength_append,
      Nat.add_comm (Text.byteLength text.toList)]
    rfl

/-! ## Located statements -/

namespace StaticImport

/-- Neither the mark of a comment nor the end of its line is part of the keyword. -/
theorem keyword_infix_of_comment {text : List Char}
    (h : "import".toList <:+: "//".toList ++ text ++ ['\n']) : "import".toList <:+: text := by
  have noMark {cs : List Char} : ¬ "import".toList <+: '/' :: cs := by
    intro first
    exact absurd (List.cons_prefix_cons.mp first).1 (by decide)
  rcases List.infix_concat_iff.mp h with last | inside
  · rcases List.suffix_concat_iff.mp last with empty | ⟨front, split, -⟩
    · cases empty
    · have : '\n' ∈ "import".toList := by simp [split]
      exact absurd this (by decide)
  · have afterMark := (List.infix_cons_iff.mp inside).resolve_left noMark
    exact (List.infix_cons_iff.mp afterMark).resolve_left noMark

/-- A comment in which the keyword does not occur takes nothing of the source. -/
theorem overrun_comment {text : List Char} (h : ¬ "import".toList <:+: text) (source : List Char) :
    overrun 0 ("//".toList ++ text ++ ['\n']) source = 0 := by
  refine overrun_eq_zero fun back nonempty suffix => ?_
  rw [Option.eq_none_iff_forall_ne_some]
  intro f found
  obtain ⟨head, quote, inner, tail, rest, split, ⟨code, -⟩, -⟩ := find?_eq_some_iff.mp found
  have keyword : "import".toList <+: back ++ source := by
    rw [split, code, List.append_assoc, List.append_assoc]
    exact List.prefix_append _ _
  rcases List.prefix_or_prefix_of_prefix keyword (List.prefix_append back source) with inside | longer
  · exact h (keyword_infix_of_comment (inside.isInfix.trans suffix.isInfix))
  -- otherwise the end of the line would be part of the keyword
  · obtain ⟨front, rfl, -⟩ := (List.suffix_concat_iff.mp suffix).resolve_left nonempty
    exact absurd (longer.subset (List.mem_append_right front (List.mem_singleton_self '\n'))) (by decide)

end StaticImport

open StaticImport

/-- The live statements of a source behind a comment: those that begin in the comment, and those of a scan
that goes on behind what they take of the source. -/
theorem exists_liveImports_comment {text : String} (oneLine : ∀ c ∈ text.toList, c ≠ '\n' ∧ c ≠ '\r')
    (source : String) :
    ∃ begun, liveImports locate (commentLine text ++ source) = begun ++
        ((scan (overrun 0 (commentLine text).toList source.toList) none 0 source.toList).filter
          (·.isLive (blankSource source).toList)).map
            (shift (Text.byteLength (commentLine text).toList)) ∧
      (∀ i ∈ begun, i.start < Text.byteLength (commentLine text).toList) ∧
      (overrun 0 (commentLine text).toList source.toList = 0 → begun = []) := by
  obtain ⟨blank, shown, isBlank, size⟩ := exists_blankSource_comment oneLine source
  have last : (commentLine text).toList.getLast?.or none = some '\n' := by
    rw [commentLine, String.toList_append, List.getLast?_append]
    rfl
  -- behind the line a statement may stand as well as at the beginning of a source
  have boundary : isBoundary (some '\n') = isBoundary none := rfl
  generalize commentLine text = line at shown size last ⊢
  obtain ⟨begun, split, bounds⟩ := exists_scan_append 0 none 0 line.toList source.toList
  rw [Nat.zero_add] at split bounds
  have resumed : scan (overrun 0 line.toList source.toList) (some '\n')
      (Text.byteLength line.toList) source.toList =
      (scan (overrun 0 line.toList source.toList) none 0 source.toList).map
        (shift (Text.byteLength line.toList)) := by
    rw [← scan_add, Nat.add_zero, scan_of_isBoundary boundary]
  have live : (fun i => isLive (blank ++ (blankSource source).toList) i) ∘
      shift (Text.byteLength line.toList) = (·.isLive (blankSource source).toList) := by
    funext i
    rw [← size]
    exact isLive_shift i blank _
  rw [last, resumed] at split
  refine ⟨begun.filter (·.isLive (blank ++ (blankSource source).toList)), ?_, ?_, ?_⟩
  · rw [liveImports, locate, shown, String.toList_append, split, List.filter_append, List.filter_map, live]
  · exact fun i hi => (bounds i (List.mem_filter.mp hi).1).1
  · intro untaken
    refine List.filter_eq_nil_iff.mpr fun i hi => ?_
    rw [isLive_of_stop_le isBlank (size ▸ (bounds i hi).2 untaken)]
    exact Bool.false_ne_true

/-- A comment in front of a source leaves the live statements as they are, only further behind, exactly if
no live statement begins in the comment and what is taken of the source by one that begins there makes no
difference to the live statements. So it does if nothing is taken, as by a comment without the keyword. -/
theorem liveImports_behind_comment_iff (text : String)
    (oneLine : ∀ c ∈ text.toList, c ≠ '\n' ∧ c ≠ '\r') (source : String) :
    let size := Text.byteLength (commentLine text).toList
    let taken := overrun 0 (commentLine text).toList source.toList
    (liveImports locate (commentLine text ++ source) = (liveImports locate source).map (shift size) ↔
      (∀ i ∈ liveImports locate (commentLine text ++ source), size ≤ i.start) ∧
      (scan taken none 0 source.toList).filter (·.isLive (blankSource source).toList) =
        liveImports locate source) ∧
    (taken = 0 →
      liveImports locate (commentLine text ++ source) = (liveImports locate source).map (shift size)) ∧
    (¬ "import".toList <:+: text.toList → taken = 0) := by
  intro size taken
  obtain ⟨begun, split, starts, untaken⟩ := exists_liveImports_comment oneLine source
  have empty (behind : ∀ i ∈ liveImports locate (commentLine text ++ source), size ≤ i.start) :
      begun = [] := by
    refine List.eq_nil_iff_forall_not_mem.mpr fun i hi => ?_
    have member : i ∈ liveImports locate (commentLine text ++ source) := by
      rw [split]
      exact List.mem_append_left _ hi
    exact absurd (starts i hi) (Nat.not_lt.mpr (behind i member))
  refine ⟨⟨fun same => ?_, fun ⟨behind, same⟩ => ?_⟩, fun none => ?_, fun keyword => ?_⟩
  · have behind : ∀ i ∈ liveImports locate (commentLine text ++ source), size ≤ i.start := by
      intro i hi
      rw [same] at hi
      obtain ⟨j, -, rfl⟩ := List.mem_map.mp hi
      exact Nat.le_add_right _ _
    rw [split, empty behind, List.nil_append] at same
    exact ⟨behind, (List.map_inj_right (shift_injective size)).mp same⟩
  · rw [split, empty behind, List.nil_append, ← same]
  · rw [split, untaken none, List.nil_append]
    change ((scan taken _ _ _).filter _).map _ = _
    rw [none]
    rfl
  · change overrun 0 (commentLine text).toList _ = 0
    rw [commentLine, String.toList_append, String.toList_append]
    exact overrun_comment keyword _

theorem liveImports_behind_commented_statement :
    let text := " import \x7b a \x7d from 'x'"
    let source := "import \x7b b \x7d from 'm'"
    (liveImports locate source).map (·.start) = [0] ∧
      liveImports locate (commentLine text ++ source) = (liveImports locate source).map (shift 25) := by
  intro text source
  have oneLine : ∀ c ∈ text.toList, c ≠ '\n' ∧ c ≠ '\r' := by simp [text]
  have untaken : overrun 0 (commentLine text).toList source.toList = 0 := by decide +kernel
  have size : Text.byteLength (commentLine text).toList = 25 := by decide +kernel
  refine ⟨by decide +kernel, ?_⟩
  rw [← size]
  exact (liveImports_behind_comment_iff text oneLine source).2.1 untaken

/-- A keyword in a comment takes the statement behind the comment for its own, so that names are no longer
merged into this statement. -/
theorem liveImports_taken_by_comment :
    let text := " import"
    let source := "import \x7b b \x7d from 'm'"
    let d : Declaration := { name := "c", specifier := "m" }
    let options : InjectOptions := { mergeExisting := true }
    liveImports locate (commentLine text ++ source) ≠
        (liveImports locate source).map (shift (Text.byteLength (commentLine text).toList)) ∧
      (inject options [d] (.ofString source)).text = "import \x7b c, b \x7d from 'm'" ∧
      (inject options [d] (.ofString (commentLine text ++ source))).text =
        "import \x7b c \x7d from 'm';\n// import\nimport \x7b b \x7d from 'm'" := by
  decide +kernel

end ImportWeave
