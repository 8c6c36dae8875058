import ImportWeave.Proofs.Blanking.LiveOffsets
import ImportWeave.Proofs.Injection.Blocks
import ImportWeave.Proofs.StaticImport.Parts

/-! # Where injected text lands

A located statement is live if any of it is shown by blanking, but what is inserted goes to one offset of
it: behind the brace that opens its names, or behind its end. Text lands in code there exactly if blanking
reads that brace, or that end, as code. -/

namespace ImportWeave

open Blanking State

namespace StaticImport

/-- No dollar sign comes right before the names, so their brace does not open a substitution. -/
theorem getLast?_keyword_gap {gap : List Char} (h : gap.all Text.isSpace = true) (front : List Char) :
    (front ++ "import".toList ++ gap).getLast? ≠ some '$' := by
  rcases List.eq_nil_or_concat gap with rfl | ⟨gap, c, rfl⟩
  · simp
  · have space : Text.isSpace c = true := List.all_eq_true.mp h c (by simp)
    simp only [List.concat_eq_append, ← List.append_assoc, List.getLast?_concat, ne_eq,
      Option.some.injEq]
    rintro rfl
    exact absurd space (by decide)

/-- The bytes of the characters that end a statement. -/
theorem encode_endMark {mark : Char} (h : isEndMark mark = true) :
    Text.encode [mark] = [UInt8.ofNat mark.toNat] ∧
      ((UInt8.ofNat mark.toNat = singleQuote ∨ UInt8.ofNat mark.toNat = doubleQuote) ∨
        UInt8.ofNat mark.toNat = rightBrace ∨ UInt8.ofNat mark.toNat = semicolon) := by
  simp only [isEndMark, isQuote, Bool.or_eq_true, beq_iff_eq] at h
  rcases h with ((rfl | rfl) | rfl) | rfl <;> decide

theorem mem_encode_blanks {blanks : List Char} (h : blanks.all isTabOrSpace = true) :
    ∀ b ∈ Text.encode blanks, b = space ∨ b = tab := by
  induction blanks with
  | nil => simp
  | cons c blanks ih =>
      rw [List.all_cons, Bool.and_eq_true] at h
      have byte : ∀ b ∈ String.utf8EncodeChar c, b = space ∨ b = tab := by
        rcases (by simpa [isTabOrSpace] using h.1 : c = ' ' ∨ c = '\t') with rfl | rfl
        · exact List.forall_mem_singleton.mpr (.inl rfl)
        · exact List.forall_mem_singleton.mpr (.inr rfl)
      intro b hb
      rcases List.mem_append.mp hb with hb | hb
      · exact byte b hb
      · exact ih h.2 b hb

/-- Behind the end of a statement, an offset is live exactly if the end is read as one. -/
theorem isLiveOffset_endMark {source : String} {front blanks rest : List Char} {mark : Char}
    (h : source.toList = front ++ mark :: blanks ++ rest) (hmark : isEndMark mark = true)
    (hblanks : blanks.all isTabOrSpace = true) :
    IsLiveOffset source (Text.byteLength (front ++ mark :: blanks)) ↔
      (State.before source (Text.byteLength front)).Ends (UInt8.ofNat mark.toNat) := by
  obtain ⟨byte, kind⟩ := encode_endMark hmark
  have encoded (cs : List Char) :
      Text.encode (mark :: cs) = UInt8.ofNat mark.toNat :: Text.encode cs := by
    rw [← List.singleton_append, Text.encode_append, byte, List.singleton_append]
  have split : source.toList = front ++ mark :: (blanks ++ rest) := by simpa using h
  have expects : (after (some (UInt8.ofNat mark.toNat)) State.start (Text.encode front)).Expects
      (some (UInt8.ofNat mark.toNat)) := expects_after (expects_start _)
  -- the state behind the mark decides, since blanks do not lead into code or out of it
  rw [State.before_eq split, encoded, List.head?_cons, isLiveOffset_iff h, Text.encode_append, encoded,
    after_append, peek_cons, after, mode_after_blanks (mem_encode_blanks hblanks)
    (expects_step expects _), mode_step_endMark kind expects]

end StaticImport

/-- Merges at offsets between characters, none of them at the top, are recorded where they are. -/
theorem Merge.insertions_foldl_apply {ms : List Merge} {o : Overlay}
    (h : ∀ m ∈ ms, Text.IsOffset o.base.toList m.offset ∧ 0 < m.offset) :
    (ms.foldl apply o).insertions = o.insertions ++ ms.map fun m => ⟨m.offset, .left, m.text⟩ := by
  induction ms generalizing o with
  | nil => simp
  | cons m ms ih =>
      obtain ⟨⟨offset, pos⟩, h⟩ := List.forall_mem_cons.mp h
      have clamp : o.clamp m.offset = m.offset := offset
      have applied : (apply o m).insertions = o.insertions ++ [⟨m.offset, .left, m.text⟩] := by
        rw [apply, Overlay.appendLeft, clamp, if_neg (by omega)]
      have base : (apply o m).base = o.base := Overlay.base_appendLeft ..
      rw [List.foldl_cons, ih (by rwa [base]), applied, List.append_assoc, List.map_cons,
        List.singleton_append]

namespace InjectOptions

variable {options : InjectOptions} {source : String} {ds : List Declaration}

/-- The target of a merge is one of the located statements, and its names go behind its brace. -/
theorem located_of_mem_merges {m : Merge} (hm : m ∈ (options.plan source ds).merges) :
    m.target ∈ options.locator source ∧
      ∃ brace, StaticImport.openingBrace? m.target.code = some brace ∧
        m.offset = m.target.start + brace := by
  obtain ⟨d, -, into⟩ := (options.mem_plan_targets source ds).mp (List.mem_map_of_mem hm)
  exact ⟨into.mem_locator, options.exists_offset_eq source ds hm⟩

/-- An anchor is where a live statement stops. -/
theorem exists_live_of_anchor (h : 0 < options.anchor source) :
    ∃ i ∈ liveImports options.locator source, options.anchor source = i.stop := by
  by_cases atEnd : options.injectAtEnd = true
  · rw [anchor, if_pos atEnd] at h ⊢
    cases found : anchor? options.firstOccurrence (liveImports options.locator source) with
    | none =>
        rw [found] at h
        cases h
    | some stop =>
        obtain ⟨i, last, rfl⟩ := Option.map_eq_some_iff.mp found
        exact ⟨i, List.mem_reverse.mp (List.mem_of_find?_eq_some last), rfl⟩
  · rw [anchor, if_neg atEnd] at h
    cases h

theorem exists_stop_of_anchor (h : 0 < options.anchor source) :
    ∃ i ∈ options.locator source, options.anchor source = i.stop := by
  obtain ⟨i, live, stop⟩ := exists_live_of_anchor h
  exact ⟨i, (List.mem_filter.mp live).1, stop⟩

/-- The offset of a merge into a statement that was located in the source: behind a brace that does not
open a substitution. -/
theorem exists_brace_of_mem_merges (located : options.locator = StaticImport.locate) {m : Merge}
    (hm : m ∈ (options.plan source ds).merges) :
    ∃ front rest, source.toList = front ++ '\x7b' :: rest ∧
      m.offset = Text.byteLength (front ++ ['\x7b']) ∧ front.getLast? ≠ some '$' := by
  obtain ⟨target, brace, opening, offset⟩ := located_of_mem_merges hm
  rw [located] at target
  obtain ⟨front, -, -, -, rest, split, -, start, -⟩ := StaticImport.exists_parts_of_mem_locate target
  obtain ⟨blank, gap, inside, code, -, hgap, rfl⟩ :=
    StaticImport.openingBrace?_eq_some_iff.mp opening
  refine ⟨front ++ blank ++ "import".toList ++ gap, inside ++ rest, ?_, ?_,
    StaticImport.getLast?_keyword_gap hgap _⟩
  · simpa [code] using split
  · rw [offset, start, ← Text.byteLength_append]
    simp

end InjectOptions

/-- With the default locator, names are put behind a brace of the source, at the very offset of their
merge, and statements behind a mark that may end a statement. Whether they land in code depends on how
blanking reads these two: the offset of a merge is live exactly if the brace is shown, and the anchor is
live exactly if the mark ends something in code. -/
theorem insertion_offsets_live_iff (options : InjectOptions) (source : String) (ds : List Declaration)
    (located : options.locator = StaticImport.locate) :
    ((options.plan source ds).merges.foldl Merge.apply (.ofString source)).insertions =
      (options.plan source ds).merges.map (fun m => ⟨m.offset, .left, m.text⟩) ∧
    (∀ m ∈ (options.plan source ds).merges, ∃ front rest,
      source.toList = front ++ '\x7b' :: rest ∧ m.offset = Text.byteLength (front ++ ['\x7b']) ∧
      (IsLiveOffset source m.offset ↔
        (blankBytes source)[Text.byteLength front]? = some leftBrace)) ∧
    (0 < options.anchor source → ∃ front mark blanks rest,
      source.toList = front ++ mark :: blanks ++ rest ∧
      options.anchor source = Text.byteLength (front ++ mark :: blanks) ∧
      StaticImport.isEndMark mark = true ∧ blanks.all StaticImport.isTabOrSpace = true ∧
      (IsLiveOffset source (options.anchor source) ↔
        (State.before source (Text.byteLength front)).Ends (UInt8.ofNat mark.toNat))) := by
  refine ⟨?_, ?_, ?_⟩
  · rw [Merge.insertions_foldl_apply]
    · rfl
    · intro m hm
      obtain ⟨front, rest, text, offset, -⟩ := InjectOptions.exists_brace_of_mem_merges located hm
      have split : source.toList = (front ++ ['\x7b']) ++ rest := by simpa using text
      refine ⟨Text.isOffset_iff.mpr ⟨_, _, split, offset⟩, ?_⟩
      rw [offset, Text.byteLength_append]
      exact Nat.add_pos_right _ (by decide)
  · intro m hm
    obtain ⟨front, rest, text, offset, last⟩ := InjectOptions.exists_brace_of_mem_merges located hm
    refine ⟨front, rest, text, offset, ?_⟩
    rw [offset]
    exact isLiveOffset_leftBrace text last
  · intro pos
    obtain ⟨i, hi, anchor⟩ := InjectOptions.exists_stop_of_anchor pos
    rw [located] at hi
    obtain ⟨front, body, mark, blanks, rest, split, code, -, stop, hmark, hblanks⟩ :=
      StaticImport.exists_parts_of_mem_locate hi
    have text : source.toList = (front ++ body) ++ mark :: blanks ++ rest := by
      simpa [code] using split
    have hanchor : options.anchor source = Text.byteLength ((front ++ body) ++ mark :: blanks) := by
      rw [anchor, stop, code, List.append_assoc]
    refine ⟨_, mark, blanks, rest, text, hanchor, hmark, hblanks, ?_⟩
    rw [hanchor]
    exact StaticImport.isLiveOffset_endMark text hmark hblanks

/-- Names and a statement that both land in code. -/
theorem insertion_offsets_live_at_statement :
    let options : InjectOptions := { mergeExisting := true, injectAtEnd := true }
    let source := "import \x7b a \x7d from 'm'; a()"
    let ds : List Declaration := [{ name := "b", specifier := "m" }]
    options.locator = StaticImport.locate ∧ 0 < options.anchor source ∧
    (∃ m ∈ (options.plan source ds).merges, IsLiveOffset source m.offset ∧ ∃ front rest,
      source.toList = front ++ '\x7b' :: rest ∧ m.offset = Text.byteLength (front ++ ['\x7b']) ∧
      (blankBytes source)[Text.byteLength front]? = some leftBrace) ∧
    IsLiveOffset source (options.anchor source) ∧ ∃ front mark blanks rest,
      source.toList = front ++ mark :: blanks ++ rest ∧
      options.anchor source = Text.byteLength (front ++ mark :: blanks) ∧
      (State.before source (Text.byteLength front)).Ends (UInt8.ofNat mark.toNat) := by
  intro options source ds
  have live : (∀ m ∈ (options.plan source ds).merges, IsLiveOffset source m.offset) ∧
      0 < (options.plan source ds).merges.length ∧ 0 < options.anchor source ∧
      IsLiveOffset source (options.anchor source) := by decide +kernel
  obtain ⟨liveMerges, nonempty, pos, liveAnchor⟩ := live
  obtain ⟨-, merges, anchor⟩ := insertion_offsets_live_iff options source ds rfl
  obtain ⟨m, hm⟩ := List.exists_mem_of_length_pos nonempty
  obtain ⟨front, rest, text, offset, shown⟩ := merges m hm
  obtain ⟨front', mark, blanks, rest', text', stop, -, -, ends⟩ := anchor pos
  refine ⟨rfl, pos, ⟨m, hm, liveMerges m hm, front, rest, text, offset, ?_⟩, liveAnchor, ?_⟩
  · exact shown.mp (liveMerges m hm)
  · exact ⟨front', mark, blanks, rest', text', stop, ends.mp liveAnchor⟩

/-- A statement that starts in a comment is live if it goes on in code, so names can be merged into the
comment, and a statement that ends in a comment can be an anchor. -/
theorem insertion_offsets_in_comments :
    let d : Declaration := { name := "c", specifier := "m" }
    let merging : InjectOptions := { mergeExisting := true }
    let begun := "// import \x7b a\nimport \x7b b \x7d from 'm'"
    let atEnd : InjectOptions := { injectAtEnd := true }
    let ended := "import a /* from 'x' */"
    ((∃ m ∈ (merging.plan begun [d]).merges, ¬ IsLiveOffset begun m.offset) ∧
      (inject merging [d] (.ofString begun)).text =
        "// import \x7b c, a\nimport \x7b b \x7d from 'm'") ∧
    0 < atEnd.anchor ended ∧ ¬ IsLiveOffset ended (atEnd.anchor ended) := by
  decide +kernel

end ImportWeave
