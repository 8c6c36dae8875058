import ImportWeave.Proofs.Injection.InsertionOffsets
import ImportWeave.Proofs.StaticImport.Placement

/-! # Braces that open names

Whether names can be added to a statement is asked twice: of its clause, to find the statement, and of its
code, to find the place. For a located statement the answers are the same. So each declaration that has found
a statement is merged into it, and its name goes behind the first brace of the statement. -/

namespace ImportWeave

namespace StaticImport

/-- The brace comes behind the keyword of the code, if the code starts with it. -/
theorem openingBrace?_eq_some_iff_of_keyword {code : String} {text : List Char} {brace : Nat}
    (keyword : code.toList = "import".toList ++ text) :
    openingBrace? code = some brace ↔
      ∃ gap rest, text = gap ++ '\x7b' :: rest ∧ gap.all Text.isSpace = true ∧
        brace = Text.byteLength ("import".toList ++ gap ++ ['\x7b']) := by
  rw [openingBrace?_eq_some_iff]
  constructor
  · rintro ⟨blank, gap, rest, split, hblank, hgap, rfl⟩
    -- the keyword is no white space, so there is none in front of it
    have none : blank = [] := by
      cases blank with
      | nil => rfl
      | cons c blank =>
          rw [keyword] at split
          obtain rfl : 'i' = c := List.head_eq_of_cons_eq split
          exact absurd (List.all_eq_true.mp hblank 'i' List.mem_cons_self) (by decide)
    subst none
    refine ⟨gap, rest, ?_, hgap, rfl⟩
    rw [keyword, List.nil_append, List.append_assoc] at split
    exact List.append_cancel_left split
  · rintro ⟨gap, rest, rfl, hgap, rfl⟩
    exact ⟨[], gap, rest, by rw [keyword, List.nil_append, List.append_assoc], rfl, hgap, rfl⟩

/-- White space and a brace come first exactly if the brace is the first thing that is not white space. -/
theorem exists_gap_iff {text : List Char} :
    (∃ gap rest, text = gap ++ '\x7b' :: rest ∧ gap.all Text.isSpace = true) ↔
      (Text.trimStart text).head? = some '\x7b' := by
  constructor
  · rintro ⟨gap, rest, rfl, hgap⟩
    rw [Text.trimStart_append_of_all hgap, Text.trimStart_of_head?]
    · rfl
    · rintro _ ⟨⟩
      rfl
  · intro first
    obtain ⟨gap, split, hgap⟩ := Text.exists_trimStart text
    obtain ⟨rest, front⟩ := List.head?_eq_some_iff.mp first
    exact ⟨gap, rest, by rw [← front, ← split], hgap⟩

/-- The clause starts with a brace exactly if what stands behind the keyword does. The word `from`, which
stands there if there is no clause, does not. -/
theorem Introduces.head?_clause_iff {head clause more : List Char} {quote : Char}
    (h : Introduces head clause) (hquote : quote = '\x22' ∨ quote = '\x27') :
    clause.head? = some '\x7b' ↔ (Text.trimStart (head ++ quote :: more)).head? = some '\x7b' := by
  have trimmed := h.isTrimmed
  rcases h.exists_split with ⟨blank, rfl⟩ | ⟨before, after, behind, rfl, hbefore, hafter⟩
  · rw [Text.trimStart_append_of_all blank]
    rcases hquote with rfl | rfl <;> simp +decide [Text.trimStart]
  · simp only [List.append_assoc]
    rw [Text.trimStart_append_of_all hbefore]
    cases clause with
    | nil =>
        rw [List.nil_append, Text.trimStart_append_of_all hafter]
        simp +decide [Text.trimStart]
    | cons c clause =>
        have visible : Text.isSpace c = false := trimmed.first c rfl
        rw [List.cons_append, Text.trimStart_of_head? (by rintro _ ⟨⟩; exact visible)]
        rfl

variable {source : String} {i : StaticImport}

/-- The two ways to ask for a brace agree on located statements. -/
theorem hasNamedBrace_iff (h : i ∈ locate source) :
    i.hasNamedBrace = true ↔ ∃ brace, openingBrace? i.code = some brace := by
  have placed := isWellPlaced_of_mem_locate h
  obtain ⟨head, quote, left, right, tail, code, introduced, -, hquote, -⟩ := placed.quoted
  rw [List.append_assoc] at code
  rw [hasNamedBrace, decide_eq_true_eq, introduced.head?_clause_iff hquote, ← exists_gap_iff]
  constructor
  · rintro ⟨gap, rest, split, hgap⟩
    exact ⟨_, (openingBrace?_eq_some_iff_of_keyword code).mpr ⟨gap, rest, split, hgap, rfl⟩⟩
  · rintro ⟨brace, opening⟩
    obtain ⟨gap, rest, split, hgap, -⟩ := (openingBrace?_eq_some_iff_of_keyword code).mp opening
    exact ⟨gap, rest, split, hgap⟩

/-- The brace is the first one of the code, and the code does not end with it. -/
theorem openingBrace_first (h : i ∈ locate source) {brace : Nat}
    (opening : openingBrace? i.code = some brace) :
    ∃ front rest, i.code.toList = front ++ '\x7b' :: rest ∧ '\x7b' ∉ front ∧ rest ≠ [] ∧
      brace = Text.byteLength (front ++ ['\x7b']) := by
  obtain ⟨head, quote, left, right, tail, code, -, -, hquote, -⟩ :=
    (isWellPlaced_of_mem_locate h).quoted
  rw [List.append_assoc] at code
  obtain ⟨gap, rest, split, hgap, rfl⟩ := (openingBrace?_eq_some_iff_of_keyword code).mp opening
  refine ⟨"import".toList ++ gap, rest, ?_, ?_, ?_, rfl⟩
  · rw [code, split, List.append_assoc]
  · rw [List.mem_append, not_or]
    exact ⟨by decide, Text.notMem_of_all_isSpace rfl hgap⟩
  · -- a quotation mark comes later, which is neither white space nor the brace
    rintro rfl
    have mem : quote ∈ gap ++ ['\x7b'] := split ▸ by simp
    rcases List.mem_append.mp mem with mem | mem
    · refine Text.notMem_of_all_isSpace ?_ hgap mem
      rcases hquote with rfl | rfl <;> rfl
    · rw [List.mem_singleton.mp mem] at hquote
      exact absurd hquote (by decide)

/-- The brace is strictly inside the span. -/
theorem openingBrace_bounds (h : i ∈ locate source) {brace : Nat}
    (opening : openingBrace? i.code = some brace) :
    i.start < i.start + brace ∧ i.start + brace < i.stop := by
  obtain ⟨front, rest, code, -, more, rfl⟩ := openingBrace_first h opening
  have size : Text.byteLength i.code.toList =
      Text.byteLength (front ++ ['\x7b']) + Text.byteLength rest := by
    rw [code, ← Text.byteLength_append, List.append_assoc, List.singleton_append]
  have opened : Text.byteLength (front ++ ['\x7b']) ≠ 0 := mt Text.byteLength_eq_zero.mp (by simp)
  have left : Text.byteLength rest ≠ 0 := mt Text.byteLength_eq_zero.mp more
  rw [stop_eq_of_mem_locate h]
  omega

end StaticImport

namespace MergePlan

/-- All groups have a place in their statement, if the statements were located. -/
theorem isSome_merge? {includeTypes : Bool} {source : String} {ds : List Declaration}
    {group : (StaticImport × Nat) × List Declaration}
    (h : group ∈ groups includeTypes (liveImports StaticImport.locate source) ds) :
    (merge? group).isSome = true := by
  obtain ⟨⟨i, n⟩, group⟩ := group
  obtain ⟨members, nonempty⟩ := mem_groups_iff.mp h
  obtain ⟨d, hd⟩ := List.exists_mem_of_ne_nil _ nonempty
  rw [members, List.mem_filter, decide_eq_true_eq] at hd
  have found := find?_of_target? hd.2
  have located := (List.mem_filter.mp (List.mem_of_find?_eq_some found)).1
  have takes := List.find?_some found
  rw [Bool.and_eq_true] at takes
  obtain ⟨brace, opening⟩ := (StaticImport.hasNamedBrace_iff located).mp takes.2
  rw [merge?, opening]
  rfl

theorem fresh_ofDeclarations (includeTypes : Bool) (source : String) (ds : List Declaration) :
    (ofDeclarations includeTypes (liveImports StaticImport.locate source) ds).fresh =
      ds.filter fun d => (target? includeTypes (liveImports StaticImport.locate source) d).isNone := by
  have complete : (groups includeTypes (liveImports StaticImport.locate source) ds).filter
      (fun group => (merge? group).isNone) = [] := by
    refine List.filter_eq_nil_iff.mpr fun group hgroup => ?_
    rw [Option.isNone_iff_eq_none]
    exact Option.isSome_iff_ne_none.mp (isSome_merge? hgroup)
  rw [ofDeclarations]
  simp only [complete, List.flatMap_nil, List.append_nil]

end MergePlan

namespace InjectOptions

variable {options : InjectOptions} {source : String} {ds : List Declaration}

/-- The offset of a merge is behind the first brace that comes after the start of its statement. -/
theorem exists_first_brace_of_mem_merges (located : options.locator = StaticImport.locate) {m : Merge}
    (hm : m ∈ (options.plan source ds).merges) :
    ∃ before front rest, source.toList = before ++ front ++ '\x7b' :: rest ∧
      m.target.start = Text.byteLength before ∧ '\x7b' ∉ front ∧
      m.offset = Text.byteLength (before ++ front ++ ['\x7b']) := by
  obtain ⟨target, brace, opening, offset⟩ := located_of_mem_merges hm
  rw [located] at target
  obtain ⟨before, -, -, -, behind, split, -, start, -⟩ := StaticImport.exists_parts_of_mem_locate target
  obtain ⟨front, rest, code, first, -, rfl⟩ := StaticImport.openingBrace_first target opening
  refine ⟨before, front, rest ++ behind, ?_, start, first, ?_⟩
  · simpa [code] using split
  · rw [offset, start, ← Text.byteLength_append, List.append_assoc]

/-- Each merge is recorded at its own offset. -/
theorem insertions_merges (located : options.locator = StaticImport.locate) :
    ((options.plan source ds).merges.foldl Merge.apply (.ofString source)).insertions =
      (options.plan source ds).merges.map fun m => ⟨m.offset, .left, m.text⟩ := by
  refine Merge.insertions_foldl_apply fun m hm => ?_
  obtain ⟨before, front, rest, text, -, -, offset⟩ := exists_first_brace_of_mem_merges located hm
  have split : source.toList = (before ++ front ++ ['\x7b']) ++ rest := by simpa using text
  refine ⟨Text.isOffset_iff.mpr ⟨_, rest, split, offset⟩, ?_⟩
  rw [offset, Text.byteLength_append]
  exact Nat.add_pos_right _ (by decide)

end InjectOptions

/-- The clause of a located statement starts with a brace exactly if its code has a brace to put names
behind, and then this is the first brace of the statement and not the end of it. So with the default locator
no declaration is left over for want of a brace, and merged names go right behind the first brace of their
statement. -/
theorem opening_braces_agree (options : InjectOptions) (source : String) (ds : List Declaration)
    (located : options.locator = StaticImport.locate) :
    let plan := options.plan source ds
    let target? := MergePlan.target? options.includeTypes (liveImports options.locator source)
    (∀ i ∈ StaticImport.locate source,
      (i.hasNamedBrace = true ↔ ∃ brace, StaticImport.openingBrace? i.code = some brace) ∧
      ∀ brace, StaticImport.openingBrace? i.code = some brace → ∃ front rest,
        i.code.toList = front ++ '\x7b' :: rest ∧ '\x7b' ∉ front ∧
        brace = Text.byteLength (front ++ ['\x7b']) ∧
        i.start < i.start + brace ∧ i.start + brace < i.stop) ∧
    (∀ group ∈ MergePlan.groups options.includeTypes (liveImports options.locator source) ds,
      (MergePlan.merge? group).isSome = true) ∧
    (options.mergeExisting = true → options.dialect = .esm →
      plan.fresh = ds.filter fun d => (target? d).isNone) ∧
    (∀ m ∈ plan.merges, ∃ before front rest, source.toList = before ++ front ++ '\x7b' :: rest ∧
      m.target.start = Text.byteLength before ∧ '\x7b' ∉ front ∧
      m.offset = Text.byteLength (before ++ front ++ ['\x7b'])) ∧
    (plan.merges.foldl Merge.apply (.ofString source)).insertions =
      plan.merges.map fun m => ⟨m.offset, .left, m.text⟩ := by
  intro plan target?
  refine ⟨?_, ?_, ?_, ?_, ?_⟩
  · intro i hi
    refine ⟨StaticImport.hasNamedBrace_iff hi, fun brace opening => ?_⟩
    obtain ⟨front, rest, code, first, -, offset⟩ := StaticImport.openingBrace_first hi opening
    exact ⟨front, rest, code, first, offset, StaticImport.openingBrace_bounds hi opening⟩
  · rw [located]
    exact fun group => MergePlan.isSome_merge?
  · intro merging esm
    simp only [plan, target?, InjectOptions.plan, merging, esm, located]
    exact MergePlan.fresh_ofDeclarations options.includeTypes source ds
  · exact fun m => InjectOptions.exists_first_brace_of_mem_merges located
  · exact InjectOptions.insertions_merges located

/-- A name goes behind a brace that follows a wide blank and a line feed. The names of the other statement
do not come first, so its declaration is left over. -/
theorem opening_braces_agree_after_blanks :
    let options : InjectOptions := { mergeExisting := true }
    let source := "import\u3000\n\x7b a \x7d from 'm'\nimport b, \x7b c \x7d from 'n'"
    let x : Declaration := { name := "x", specifier := "m" }
    let y : Declaration := { name := "y", specifier := "n" }
    options.locator = StaticImport.locate ∧ options.mergeExisting = true ∧ options.dialect = .esm ∧
    ((StaticImport.locate source).map fun i =>
      (i.hasNamedBrace, StaticImport.openingBrace? i.code)) = [(true, some 11), (false, none)] ∧
    (options.plan source [x, y]).fresh = [y] ∧
    ((options.plan source [x, y]).merges.foldl Merge.apply (.ofString source)).insertions =
      [⟨11, .left, " x,"⟩] := by
  intro options source x y
  obtain ⟨-, -, fresh, -, insertions⟩ := opening_braces_agree options source [x, y] rfl
  refine ⟨rfl, rfl, rfl, by decide +kernel, ?_, ?_⟩
  · rw [fresh rfl rfl]
    decide +kernel
  · rw [insertions]
    decide +kernel

end ImportWeave
