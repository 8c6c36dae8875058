import ImportWeave.Proofs.StaticImport.Spans

/-! # The placement of located statements

A located statement is a part of the source that starts with its keyword, at a boundary. Its specifier
stands between quotation marks of one kind, with nothing but white space beside it, and its clause stands
between the keyword and the word `from`. -/

namespace ImportWeave.StaticImport

/-- The statement stands in the source at its offsets, and its specifier and clause stand in its code. -/
structure IsWellPlaced (source : String) (i : StaticImport) : Prop where
  nonempty : i.start < i.stop
  within : i.stop ≤ Text.byteLength source.toList
  starts : Text.IsOffset source.toList i.start
  stops : Text.IsOffset source.toList i.stop
  code : Text.slice? source.toList i.start i.stop = some i.code.toList
  keyword : "import".toList <+: i.code.toList
  boundary : ∀ c ∈ (Text.splitAtByte source.toList i.start).1.getLast?,
    Text.isSpace c = true ∨ c = ';' ∨ c = '\x7d'
  quoted : ∃ head quote left right tail,
    i.code.toList = "import".toList ++ head ++
      quote :: (left ++ i.specifier.toList ++ right ++ quote :: tail) ∧
    Introduces head i.clause.toList ∧ (∀ c ∈ head, isQuote c = false) ∧
    (quote = '\x22' ∨ quote = '\x27') ∧ quote ∉ i.specifier.toList ∧
    left.all Text.isSpace = true ∧ right.all Text.isSpace = true ∧ IsEnd tail
  oneLine : '\n' ∉ i.specifier.toList
  specifier : Text.IsTrimmed i.specifier.toList
  clause : Text.IsTrimmed i.clause.toList
  boundNames : i.boundNames = Clause.boundNames i.clause

variable {source : String} {i : StaticImport}

theorem isBoundary_iff {c : Char} :
    isBoundary (some c) = true ↔ Text.isSpace c = true ∨ c = ';' ∨ c = '\x7d' := by
  simp [isBoundary, or_assoc]

/-- A located statement is one that was found in the source, at a boundary. -/
theorem exists_found_of_mem_locate (h : i ∈ locate source) :
    ∃ (front rest : List Char) (f : Found) (head : List Char) (quote : Char) (inner tail : List Char),
      source.toList = front ++ f.code ++ rest ∧
      i = f.located (Text.byteLength front) ∧ isBoundary front.getLast? = true ∧
      f.IsMadeOf head quote inner tail := by
  obtain ⟨front, text, f, split, found, boundary, located⟩ := exists_find?_of_mem_scan h
  obtain ⟨head, quote, inner, tail, rest, behind, made, -⟩ := find?_eq_some_iff.mp found
  rw [Option.or_none] at boundary
  rw [Nat.zero_add] at located
  exact ⟨front, rest, f, head, quote, inner, tail, by rw [split, behind, List.append_assoc], located,
    boundary, made⟩

theorem isWellPlaced_of_mem_locate (h : i ∈ locate source) : i.IsWellPlaced source := by
  obtain ⟨front, rest, f, head, quote, inner, tail, split, located, boundary, made⟩ :=
    exists_found_of_mem_locate h
  have code : i.code.toList = f.code := by rw [located, Found.located, String.toList_ofList]
  have specifier : i.specifier.toList = f.specifier := by rw [located, Found.located, String.toList_ofList]
  have clause : i.clause.toList = f.clause := by rw [located, Found.located, String.toList_ofList]
  have start : i.start = Text.byteLength front := by rw [located]; rfl
  have stop : i.stop = Text.byteLength (front ++ f.code) := by
    rw [located, Text.byteLength_append]
    rfl
  obtain ⟨left, right, inside, hleft, hright⟩ := Text.exists_trim inner
  rw [← made.specifier] at inside
  refine
    { nonempty := start_lt_stop h
      within := ?_
      starts := isOffset_start h
      stops := isOffset_stop h
      code := ?_
      keyword := ?_
      boundary := ?_
      quoted := ⟨head, quote, left, right, tail, ?_, ?_, made.introduces.noQuote, ?_, ?_, hleft, hright,
        made.isEnd⟩
      oneLine := ?_
      specifier := ?_
      clause := ?_
      boundNames := ?_ }
  · rw [stop, split, Text.byteLength_append (front ++ f.code)]
    exact Nat.le_add_right _ _
  · rw [code, Text.slice?_eq_some_iff]
    exact ⟨front, rest, split, start.symm, stop.symm⟩
  · rw [code, made.code, List.append_assoc]
    exact List.prefix_append _ _
  · rw [start, split, List.append_assoc, Text.splitAtByte_byteLength]
    intro c hc
    rw [Option.mem_def.mp hc] at boundary
    exact isBoundary_iff.mp boundary
  · rw [code, made.code, specifier, ← inside]
  · rw [clause]
    exact made.introduces
  · simpa [isQuote] using made.isQuote
  · rw [specifier, made.specifier]
    exact fun hq => made.notMem (Text.mem_of_mem_trim hq)
  · rw [specifier]
    exact made.oneLine
  · rw [specifier, made.specifier]
    exact Text.isTrimmed_trim inner
  · rw [clause]
    exact made.introduces.isTrimmed
  · rw [located, Found.located]

/-- Located statements follow one another in the source without a common part, and each of them is well
placed. -/
theorem locate_well_placed (source : String) :
    (locate source).Pairwise (fun i j => i.start < j.start ∧ i.stop ≤ j.start) ∧
      ∀ i ∈ locate source, i.IsWellPlaced source := by
  refine ⟨?_, fun i hi => isWellPlaced_of_mem_locate hi⟩
  refine (pairwise_locate source).imp_of_mem fun hi _ le => ⟨?_, le⟩
  exact Nat.lt_of_lt_of_le (start_lt_stop hi) le

/-- A statement on two lines between two others, with characters of more than one byte in front of it and
white space beside its specifier. -/
theorem locate_well_placed_between :
    let source := "/* é */import 'a';import\x7b b\n, c \x7dfrom\x22\n ü\t\x22 ;import d"
    ∃ i ∈ locate source, i.start = 19 ∧ i.stop = 47 ∧ i.specifier = "ü" ∧ i.boundNames = ["b", "c"] ∧
      i.IsWellPlaced source := by
  intro source
  have located : ∃ i ∈ locate source, i.start = 19 ∧ i.stop = 47 ∧ i.specifier = "ü" ∧
      i.boundNames = ["b", "c"] := by decide +kernel
  obtain ⟨i, hi, start, stop, specifier, names⟩ := located
  exact ⟨i, hi, start, stop, specifier, names, (locate_well_placed source).2 i hi⟩

end ImportWeave.StaticImport
