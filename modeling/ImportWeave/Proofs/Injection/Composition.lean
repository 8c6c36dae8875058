import ImportWeave.Proofs.Declaration.Normalization
import ImportWeave.Proofs.Injection.Division
import ImportWeave.Proofs.Injection.Edits
import ImportWeave.Proofs.Injection.OpeningBraces
import Mathlib.Data.List.Nodup

/-! # Names merged in several steps

What merging writes at an offset of the source is made of one entry for each declaration that lands there,
in the order of the declarations. Statements do not overlap, so no two of them have their names at one
offset, and the overlay keeps the order in which text comes to it. So it makes no difference whether
declarations are merged at once or one list after the other. Only white space in front of a name would
tell: it is not written for the first name of a step. -/

namespace ImportWeave

namespace Declaration

/-- What a declaration adds behind the brace of a statement. -/
def entry (d : Declaration) : String := " " ++ d.binding.render .esm ++ ","

theorem toList_entry (d : Declaration) :
    d.entry.toList = ' ' :: (d.binding.render .esm).toList ++ [','] := by
  simp [entry]

/-- A binding starts with its name, or with a keyword. -/
theorem exists_head?_render {d : Declaration} (named : d.name ≠ "")
    (trimmed : ∀ c ∈ d.name.toList.head?, Text.isSpace c = false) :
    ∃ c, (d.binding.render .esm).toList.head? = some c ∧ Text.isSpace c = false := by
  obtain ⟨c, cs, name⟩ := List.exists_cons_of_ne_nil (mt String.toList_eq_nil_iff.mp named)
  have first : (d.binding.renderName .esm).toList.head? = some c := by
    rw [NamedBinding.renderName]
    split
    · simp [binding, name]
    · split <;> simp [binding, name]
  cases typed : d.typeOnly with
  | true => exact ⟨'t', by simp [NamedBinding.render, binding, typed, typeModifier], rfl⟩
  | false =>
      refine ⟨c, ?_, trimmed c (by rw [name, List.head?_cons, Option.mem_some])⟩
      simpa [NamedBinding.render, binding, typed, typeModifier] using first

end Declaration

namespace Merge

/-- A space before each text and a comma behind it, or both between them and around them all: there is no
difference. -/
theorem flatMap_entries (text : List Char) (texts : List (List Char)) :
    (text :: texts).flatMap (fun text => ' ' :: text ++ [',']) =
      ' ' :: [',', ' '].intercalate (text :: texts) ++ [','] := by
  induction texts generalizing text with
  | nil => simp
  | cons text' texts ih =>
      rw [List.flatMap_cons, ih, List.intercalate_cons_cons]
      simp

/-- If the first name does not start with white space, a block has one entry for each declaration. -/
theorem toList_text_of_head? {m : Merge} {d : Declaration} {ds : List Declaration}
    (declared : m.declarations = d :: ds)
    (first : ∃ c, (d.binding.render .esm).toList.head? = some c ∧ Text.isSpace c = false) :
    m.text.toList = m.declarations.flatMap (·.entry.toList) := by
  obtain ⟨c, head, space⟩ := first
  let texts := m.names.map String.toList
  have split : texts = (d.binding.render .esm).toList :: ds.map (·.binding.render .esm |>.toList) := by
    simp [texts, names, declared]
  have head? : ([',', ' '].intercalate texts).head? = some c := by
    rw [split]
    cases ds with
    | nil => rw [List.map_nil, List.intercalate_singleton, head]
    | cons d' ds =>
        rw [List.map_cons, List.intercalate_cons_cons, List.append_assoc, List.head?_append, head,
          Option.some_or]
  have trimmed : Text.trimStart ([',', ' '].intercalate texts) = [',', ' '].intercalate texts :=
    Text.trimStart_of_head? fun c' hc => by
      rw [head?, Option.mem_some] at hc
      exact hc ▸ space
  have entries : m.declarations.flatMap (·.entry.toList) =
      texts.flatMap (fun text => ' ' :: text ++ [',']) := by
    simp [texts, names, List.flatMap_map, Declaration.toList_entry]
  rw [entries, split, flatMap_entries, ← split, m.text_eq (by simp [declared])]
  simp only [String.toList_append, String.toList_ofList, String.toList_intercalate]
  exact congrArg (fun block => ' ' :: block ++ [',']) trimmed

/-- The texts of merges all go to the left of their offsets. -/
theorem textsAt_edit_eq_nil {source : String} {spot : Spot} (h : ∀ n, spot ≠ .left n) (ms : List Merge) :
    Edit.textsAt source spot (ms.map edit) = [] := by
  induction ms with
  | nil => rfl
  | cons m ms ih =>
      rw [List.map_cons, Edit.textsAt_cons, if_neg fun settled => h _ settled.symm, ih]
      rfl

theorem text?_ofEdits (source : String) (ms : List Merge) :
    (Overlay.ofEdits source (ms.map edit)).text? =
      some (String.ofList (Text.interleave
        (fun n => (Edit.textsAt source (.left n) (ms.map edit)).flatMap String.toList)
        0 source.toList)) := by
  have gap : Edit.gap source (ms.map edit) =
      fun n => (Edit.textsAt source (.left n) (ms.map edit)).flatMap String.toList := by
    funext n
    have right : Edit.textsAt source (.right n) (ms.map edit) = [] := textsAt_edit_eq_nil (by simp) ms
    rw [Edit.gap, right, List.flatMap_nil, List.append_nil]
  rw [Overlay.text?_ofEdits, textsAt_edit_eq_nil (by simp), textsAt_edit_eq_nil (by simp), gap]
  simp

end Merge

namespace InjectOptions

/-- The offset at which a declaration is merged, if it is. -/
def mergeOffset? (options : InjectOptions) (source : String) (d : Declaration) : Option Nat :=
  if options.mergeExisting && options.dialect == .esm then
    (options.host? source d).bind fun i =>
      (StaticImport.openingBrace? i.code).map (i.start + ·)
  else none

/-- The entries of the declarations that are merged at an offset. -/
def entriesAt (options : InjectOptions) (source : String) (ds : List Declaration) (n : Nat) :
    List Char :=
  (ds.filter (options.mergeOffset? source · = some n)).flatMap (·.entry.toList)

variable {options : InjectOptions} {source : String} {ds : List Declaration} {d : Declaration}

theorem entriesAt_append (xs ys : List Declaration) (n : Nat) :
    options.entriesAt source (xs ++ ys) n =
      options.entriesAt source xs n ++ options.entriesAt source ys n := by
  rw [entriesAt, List.filter_append, List.flatMap_append]
  rfl

theorem mergeOffset?_eq_some_iff {n : Nat} :
    options.mergeOffset? source d = some n ↔
      ∃ i brace, options.MergesInto source d i ∧ StaticImport.openingBrace? i.code = some brace ∧
        n = i.start + brace := by
  constructor
  · intro h
    rw [mergeOffset?] at h
    split at h
    · next merging =>
        rw [Bool.and_eq_true, beq_iff_eq] at merging
        obtain ⟨i, host, h⟩ := Option.bind_eq_some_iff.mp h
        obtain ⟨brace, opening, rfl⟩ := Option.map_eq_some_iff.mp h
        rw [host?] at host
        split at host
        · next mergeable =>
            exact ⟨i, brace, ⟨merging.1, merging.2, mergeable, host, by simp [opening]⟩, opening, rfl⟩
        · cases host
    · cases h
  · rintro ⟨i, brace, ⟨merging, esm, mergeable, found, -⟩, opening, rfl⟩
    have host : options.host? source d = some i := by rw [host?, if_pos mergeable, found]
    simp [mergeOffset?, merging, esm, host, opening]

/-- What lands at the offset of a merge goes into its statement. -/
theorem mergeOffset?_eq_offset_iff (located : options.locator = StaticImport.locate) {m : Merge}
    (hm : m ∈ (options.plan source ds).merges) :
    options.mergeOffset? source d = some m.offset ↔ options.MergesInto source d m.target := by
  obtain ⟨target, brace, opening, offset⟩ := located_of_mem_merges hm
  rw [mergeOffset?_eq_some_iff]
  constructor
  · rintro ⟨i, brace', into, opening', offset'⟩
    have hi := into.mem_locator
    rw [located] at hi target
    have inside := StaticImport.openingBrace_bounds target opening
    have inside' := StaticImport.openingBrace_bounds hi opening'
    rw [← offset] at inside
    rw [← offset'] at inside'
    rwa [← StaticImport.eq_of_offset hi target (inside'.imp_right Nat.le_of_lt)
      (inside.imp_right Nat.le_of_lt)]
  · intro into
    exact ⟨m.target, brace, into, opening, offset⟩

theorem declarations_eq_filter_mergeOffset? (located : options.locator = StaticImport.locate)
    {m : Merge} (hm : m ∈ (options.plan source ds).merges) :
    m.declarations = ds.filter (options.mergeOffset? source · = some m.offset) := by
  rw [options.declarations_eq_filter source ds hm]
  exact List.filter_congr fun d _ => decide_eq_decide.mpr (mergeOffset?_eq_offset_iff located hm).symm

/-- At each offset there is at most one merge. -/
theorem filter_merges_eq_singleton (located : options.locator = StaticImport.locate) {m : Merge}
    (hm : m ∈ (options.plan source ds).merges) :
    (options.plan source ds).merges.filter (·.offset = m.offset) = [m] := by
  have targets := options.nodup_plan_targets source ds
  have alone : ∀ m' ∈ (options.plan source ds).merges, m'.offset = m.offset ↔ m' = m := by
    intro m' hm'
    constructor
    · intro same
      obtain ⟨d, -, into⟩ := (options.mem_plan_targets source ds).mp (List.mem_map_of_mem hm)
      have lands := (mergeOffset?_eq_offset_iff located hm).mpr into
      rw [← same, mergeOffset?_eq_offset_iff located hm'] at lands
      have target : m'.target = m.target :=
        Option.some.inj (lands.2.2.2.1.symm.trans into.2.2.2.1)
      exact List.inj_on_of_nodup_map targets hm' hm target
    · exact congrArg Merge.offset
  rw [List.filter_congr fun m' hm' => decide_eq_decide.mpr (alone m' hm'), List.filter_eq,
    List.count_eq_one_of_mem targets.of_map hm, List.replicate_one]

/-- The offset of a merge is where its text settles. -/
theorem settle_edit (located : options.locator = StaticImport.locate) {m : Merge}
    (hm : m ∈ (options.plan source ds).merges) : m.edit.spot.settle source = .left m.offset := by
  obtain ⟨front, rest, text, offset, -⟩ := exists_brace_of_mem_merges located hm
  have isOffset : Text.IsOffset source.toList m.offset :=
    Text.isOffset_iff.mpr ⟨front ++ ['\x7b'], rest, by simpa using text, offset⟩
  exact congrArg Spot.left isOffset

theorem textsAt_edits (located : options.locator = StaticImport.locate) (n : Nat) :
    Edit.textsAt source (.left n) ((options.plan source ds).merges.map Merge.edit) =
      ((options.plan source ds).merges.filter (·.offset = n)).map Merge.text := by
  rw [Edit.textsAt, Edit.textsOf, List.filter_map, List.map_map]
  refine congrArg _ (List.filter_congr fun m hm => decide_eq_decide.mpr ?_)
  rw [settle_edit located hm, Spot.left.injEq]

/-- What is merged has a name that is not empty, so it is enough that no name starts with white space. -/
theorem toList_text_of_mem_merges
    (trimmed : ∀ d ∈ ds, ∀ c ∈ d.name.toList.head?, Text.isSpace c = false) {m : Merge}
    (hm : m ∈ (options.plan source ds).merges) :
    m.text.toList = m.declarations.flatMap (·.entry.toList) := by
  obtain ⟨d, rest, declared⟩ :=
    List.exists_cons_of_ne_nil (options.declarations_ne_nil source ds hm)
  have member : d ∈ m.declarations := declared ▸ List.mem_cons_self
  obtain ⟨hd, into⟩ := (options.exists_mem_declarations_iff source ds).mp ⟨m, hm, rfl, member⟩
  have named : d.name ≠ "" := by
    intro empty
    have kind := Declaration.kind_eq_sideEffect_iff.mpr (.inl empty)
    have := (MergePlan.isMergeable_iff.mp into.2.2.1).2.2
    simp [kind] at this
  exact m.toList_text_of_head? declared (Declaration.exists_head?_render named (trimmed d hd))

/-- Where a declaration lands, there is a merge. -/
theorem exists_merge_of_mergeOffset? (hd : d ∈ ds) {n : Nat}
    (lands : options.mergeOffset? source d = some n) :
    ∃ m ∈ (options.plan source ds).merges, m.offset = n := by
  obtain ⟨i, brace, into, opening, rfl⟩ := mergeOffset?_eq_some_iff.mp lands
  obtain ⟨m, hm, rfl⟩ := List.mem_map.mp ((options.mem_plan_targets source ds).mpr ⟨d, hd, into⟩)
  obtain ⟨-, brace', opening', offset⟩ := located_of_mem_merges hm
  obtain rfl := Option.some.inj (opening.symm.trans opening')
  exact ⟨m, hm, offset⟩

/-- The texts at an offset are the entries of the declarations that land there. -/
theorem flatMap_textsAt_edits (located : options.locator = StaticImport.locate)
    (trimmed : ∀ d ∈ ds, ∀ c ∈ d.name.toList.head?, Text.isSpace c = false) (n : Nat) :
    (Edit.textsAt source (.left n) ((options.plan source ds).merges.map Merge.edit)).flatMap
        String.toList = options.entriesAt source ds n := by
  rw [textsAt_edits located, entriesAt]
  by_cases h : ∃ m ∈ (options.plan source ds).merges, m.offset = n
  · obtain ⟨m, hm, rfl⟩ := h
    rw [filter_merges_eq_singleton located hm, ← declarations_eq_filter_mergeOffset? located hm,
      List.map_singleton, List.flatMap_singleton, toList_text_of_mem_merges trimmed hm]
  · have noMerge : (options.plan source ds).merges.filter (·.offset = n) = [] :=
      List.filter_eq_nil_iff.mpr fun m hm offset => h ⟨m, hm, of_decide_eq_true offset⟩
    have nothing : ds.filter (options.mergeOffset? source · = some n) = [] :=
      List.filter_eq_nil_iff.mpr fun d hd lands =>
        h (exists_merge_of_mergeOffset? hd (of_decide_eq_true lands))
    rw [noMerge, nothing]
    rfl

/-- If all declarations are merged, there are no edits but those of the merges. -/
theorem edits_of_merged (merged : ∀ d ∈ ds, ∃ i, options.MergesInto source d i) :
    options.withoutHooks.edits source ds = (options.plan source ds).merges.map Merge.edit := by
  have fresh : (options.plan source ds).fresh = [] := by
    refine List.eq_nil_iff_forall_not_mem.mpr fun d hd => ?_
    obtain ⟨hd, unmerged⟩ := (options.mem_fresh_iff source ds).mp hd
    obtain ⟨i, into⟩ := merged d hd
    exact unmerged i into
  have plan : options.withoutHooks.plan source ds = options.plan source ds := rfl
  have nothing : renderImports options.dialect options.includeTypes [] = "" := rfl
  rw [edits, newStatements, plan, fresh, statements_withoutHooks, nothing, statementEdits, if_pos rfl,
    List.append_nil]

end InjectOptions

/-- Names that do not start with white space can be merged into the statements of the source in two steps
or at once. Either way the text is the source with the entries of the declarations behind the braces of
their statements, those of the first list before those of the second. -/
theorem inject_merged_append (options : InjectOptions) (source : String) (xs ys : List Declaration)
    (located : options.locator = StaticImport.locate)
    (merged : ∀ d ∈ xs ++ ys, ∃ i, options.MergesInto source d i)
    (trimmed : ∀ d ∈ xs ++ ys, ∀ c ∈ d.name.toList.head?, Text.isSpace c = false) :
    let text := String.ofList (Text.interleave (options.entriesAt source (xs ++ ys)) 0 source.toList)
    (inject options.withoutHooks ys
      (inject options.withoutHooks xs (.ofString source))).text? = some text ∧
    (inject options.withoutHooks (xs ++ ys) (.ofString source)).text? = some text := by
  intro text
  obtain ⟨mergedXs, mergedYs⟩ := List.forall_mem_append.mp merged
  obtain ⟨trimmedXs, trimmedYs⟩ := List.forall_mem_append.mp trimmed
  constructor
  · rw [InjectOptions.inject_ofString, InjectOptions.inject_ofEdits,
      InjectOptions.edits_of_merged mergedXs, InjectOptions.edits_of_merged mergedYs, ← List.map_append,
      Merge.text?_ofEdits]
    -- at each offset, the entries of the first list come before those of the second
    simp only [List.map_append, Edit.textsAt_append, List.flatMap_append,
      InjectOptions.flatMap_textsAt_edits located trimmedXs,
      InjectOptions.flatMap_textsAt_edits located trimmedYs, ← InjectOptions.entriesAt_append]
    rfl
  · rw [InjectOptions.inject_ofString, InjectOptions.edits_of_merged merged, Merge.text?_ofEdits]
    simp only [InjectOptions.flatMap_textsAt_edits located trimmed]
    rfl

/-- Three names for two statements, of which the first takes names in both steps. -/
theorem inject_merged_append_to_two_statements :
    let options : InjectOptions := { mergeExisting := true, includeTypes := true }
    let source := "import \x7b a \x7d from 'm'\nimport \x7bb\x7d from 'n'"
    let xs : List Declaration := [{ name := "c", specifier := "m" }, { name := "d", specifier := "n" }]
    let ys : List Declaration :=
      [{ name := "e", specifier := "m", localAlias := some "f", typeOnly := true }]
    let text := "import \x7b c, type e as f, a \x7d from 'm'\nimport \x7b d,b\x7d from 'n'"
    options.locator = StaticImport.locate ∧
    (∀ d ∈ xs ++ ys, ∃ i, options.MergesInto source d i) ∧
    (∀ d ∈ xs ++ ys, ∀ c ∈ d.name.toList.head?, Text.isSpace c = false) ∧
    (inject options.withoutHooks ys
      (inject options.withoutHooks xs (.ofString source))).text? = some text ∧
    (inject options.withoutHooks (xs ++ ys) (.ofString source)).text? = some text := by
  intro options source xs ys text
  have lands : ∀ d ∈ xs ++ ys, (options.mergeOffset? source d).isSome = true := by decide +kernel
  have merged : ∀ d ∈ xs ++ ys, ∃ i, options.MergesInto source d i := by
    intro d hd
    obtain ⟨n, offset⟩ := Option.isSome_iff_exists.mp (lands d hd)
    obtain ⟨i, -, into, -⟩ := InjectOptions.mergeOffset?_eq_some_iff.mp offset
    exact ⟨i, into⟩
  have trimmed : ∀ d ∈ xs ++ ys, ∀ c ∈ d.name.toList.head?, Text.isSpace c = false := by
    simp [xs, ys, Text.isSpace]
  have written : String.ofList (Text.interleave (options.entriesAt source (xs ++ ys)) 0 source.toList) =
      text := by decide +kernel
  obtain ⟨twice, once⟩ := inject_merged_append options source xs ys rfl merged trimmed
  rw [written] at twice once
  exact ⟨rfl, merged, trimmed, twice, once⟩

end ImportWeave
