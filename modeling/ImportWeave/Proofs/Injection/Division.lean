import ImportWeave.Proofs.Injection.Merging

/-! # How declarations are divided

A declaration is merged into a statement of the source or it is left over, and no declaration is lost or
taken twice. What is left over comes in a certain order: first the declarations for which there is no
statement, as they came, and then those whose statement has no brace to put names behind, statement by
statement. -/

namespace ImportWeave

namespace StaticImport

/-- A statement that names of the module can be added to, as far as its clause shows. -/
def TakesNamesOf (specifier : String) (i : StaticImport) : Prop :=
  i.specifier = specifier ∧ i.clause.toList.head? = some '\x7b'

/-- The code starts with the keyword and a brace, with nothing but white space in front of them and
between them. -/
def OpensNames (i : StaticImport) : Prop :=
  ∃ blank gap rest, i.code.toList = blank ++ "import".toList ++ gap ++ '\x7b' :: rest ∧
    blank.all Text.isSpace = true ∧ gap.all Text.isSpace = true

theorem isSome_openingBrace?_iff {i : StaticImport} :
    (openingBrace? i.code).isSome = true ↔ i.OpensNames := by
  rw [Option.isSome_iff_exists]
  constructor
  · rintro ⟨brace, h⟩
    obtain ⟨blank, gap, rest, text, hblank, hgap, -⟩ := openingBrace?_eq_some_iff.mp h
    exact ⟨blank, gap, rest, text, hblank, hgap⟩
  · rintro ⟨blank, gap, rest, text, hblank, hgap⟩
    exact ⟨_, openingBrace?_eq_some_iff.mpr ⟨blank, gap, rest, text, hblank, hgap, rfl⟩⟩

/-- The first statement of a list that names of the module can be added to. -/
theorem find?_takesNamesOf_iff {imports : List StaticImport} {specifier : String} {i : StaticImport} :
    imports.find? (fun j => j.specifier == specifier && j.hasNamedBrace) = some i ↔
      ∃ earlier later, imports = earlier ++ i :: later ∧ i.TakesNamesOf specifier ∧
        ∀ j ∈ earlier, ¬ j.TakesNamesOf specifier := by
  have takes (j : StaticImport) :
      (j.specifier == specifier && j.hasNamedBrace) = true ↔ j.TakesNamesOf specifier := by
    rw [Bool.and_eq_true, beq_iff_eq, hasNamedBrace, decide_eq_true_eq, TakesNamesOf]
  have refuses (j : StaticImport) :
      (!(j.specifier == specifier && j.hasNamedBrace)) = true ↔ ¬ j.TakesNamesOf specifier := by
    rw [← takes, Bool.not_eq_true', Bool.not_eq_true]
  simp only [List.find?_eq_some_iff_append, takes, refuses]
  constructor
  · rintro ⟨here, earlier, later, split, before⟩
    exact ⟨earlier, later, split, here, before⟩
  · rintro ⟨earlier, later, split, here, before⟩
    exact ⟨here, earlier, later, split, before⟩

end StaticImport

namespace InjectOptions

/-- The statement that a declaration asks to be taken in by: the first live one for its module, if the
declaration can be merged. -/
def host? (options : InjectOptions) (source : String) (d : Declaration) : Option StaticImport :=
  if MergePlan.isMergeable options.includeTypes d then
    (liveImports options.locator source).find? fun i => i.specifier == d.specifier && i.hasNamedBrace
  else none

/-- The statements that are asked, in the order in which they are first asked. -/
def hosts (options : InjectOptions) (source : String) (ds : List Declaration) : List StaticImport :=
  (ds.filterMap (options.host? source)).eraseDups

/-- The declarations that ask a statement, in their order. -/
def guests (options : InjectOptions) (source : String) (ds : List Declaration) (i : StaticImport) :
    List Declaration :=
  ds.filter (options.host? source · = some i)

variable (options : InjectOptions) (source : String) (ds : List Declaration)

/-- The groups of the plan are the statements that are asked, with those who ask them. -/
theorem map_groups :
    (MergePlan.groups options.includeTypes (liveImports options.locator source) ds).map
        (fun group => (group.1.1, group.2)) =
      (options.hosts source ds).map fun i => (i, options.guests source ds i) := by
  have host : (fun d => (MergePlan.target? options.includeTypes
      (liveImports options.locator source) d).map Prod.fst) = options.host? source :=
    funext fun d => MergePlan.target?_map_fst _ _ d
  rw [MergePlan.groups_eq_collect, ← Keyed.collect_map_key Prod.fst, host, Keyed.collect_eq_map]
  · rfl
  · exact fun d _ e _ t ht t' ht' same => MergePlan.target?_eq_of_fst_eq ht ht' same

/-- The merge of a statement that has a brace to put names behind. -/
def mergeOf? (i : StaticImport) : Option Merge :=
  (StaticImport.openingBrace? i.code).map fun brace =>
    ⟨i, i.start + brace, options.guests source ds i⟩

theorem plan_eq (merging : (options.mergeExisting && options.dialect == .esm) = true) :
    options.plan source ds =
      { merges := (options.hosts source ds).filterMap (options.mergeOf? source ds)
        fresh := ds.filter (fun d => (options.host? source d).isNone) ++
          ((options.hosts source ds).filter fun i =>
            (StaticImport.openingBrace? i.code).isNone).flatMap (options.guests source ds) } := by
  let groups := MergePlan.groups options.includeTypes (liveImports options.locator source) ds
  have merges : groups.filterMap MergePlan.merge? =
      (options.hosts source ds).filterMap (options.mergeOf? source ds) := by
    have := congrArg (List.filterMap fun group : StaticImport × List Declaration =>
      (StaticImport.openingBrace? group.1.code).map fun brace =>
        (⟨group.1, group.1.start + brace, group.2⟩ : Merge)) (options.map_groups source ds)
    rwa [List.filterMap_map, List.filterMap_map] at this
  have lacking : (groups.filter fun group => (MergePlan.merge? group).isNone).flatMap (·.2) =
      ((options.hosts source ds).filter fun i =>
        (StaticImport.openingBrace? i.code).isNone).flatMap (options.guests source ds) := by
    have := congrArg (fun groups : List (StaticImport × List Declaration) =>
      (groups.filter fun group => (StaticImport.openingBrace? group.1.code).isNone).flatMap (·.2))
      (options.map_groups source ds)
    simp only [List.filter_map, List.flatMap_map, Function.comp_def] at this
    simpa only [MergePlan.merge?, Option.isNone_map] using this
  have alone (d : Declaration) : (MergePlan.target? options.includeTypes
      (liveImports options.locator source) d).isNone = (options.host? source d).isNone := by
    rw [host?, ← MergePlan.target?_map_fst, Option.isNone_map]
  rw [plan, if_pos merging, MergePlan.ofDeclarations]
  simp only [alone]
  rw [merges, lacking]

theorem flatMap_mergeOf? (hosts : List StaticImport) :
    (hosts.filterMap (options.mergeOf? source ds)).flatMap (·.declarations) =
      (hosts.filter fun i => (StaticImport.openingBrace? i.code).isSome).flatMap
        (options.guests source ds) := by
  induction hosts with
  | nil => rfl
  | cons i hosts ih => cases h : StaticImport.openingBrace? i.code <;> simp [mergeOf?, h, ih]

/-- No declaration is lost, and none is taken twice. -/
theorem perm_plan (merging : (options.mergeExisting && options.dialect == .esm) = true) :
    ((options.plan source ds).merges.flatMap (·.declarations) ++
      (options.plan source ds).fresh).Perm ds := by
  have asking : ((options.hosts source ds).flatMap (options.guests source ds)).Perm
      (ds.filter fun d => (options.host? source d).isSome) := by
    have := Keyed.perm_flatMap_collect (options.host? source) ds
    rwa [Keyed.collect_eq_map, List.flatMap_map] at this
  rw [options.plan_eq source ds merging]
  dsimp only
  rw [flatMap_mergeOf?]
  generalize options.hosts source ds = hosts at asking ⊢
  generalize options.guests source ds = guests at asking ⊢
  let opens (i : StaticImport) : Bool := (StaticImport.openingBrace? i.code).isSome
  have lacks : (fun i : StaticImport => (StaticImport.openingBrace? i.code).isNone) =
      fun i => !opens i := funext fun i => (Option.not_isSome _).symm
  have alone : (fun d => (options.host? source d).isNone) =
      fun d => !(options.host? source d).isSome := funext fun d => (Option.not_isSome _).symm
  rw [lacks, alone]
  calc
    List.Perm _ (((hosts.filter opens).flatMap guests ++ (hosts.filter fun i => !opens i).flatMap guests) ++
        ds.filter (fun d => !(options.host? source d).isSome)) := by
      rw [List.append_assoc]
      exact List.perm_append_comm.append_left _
    List.Perm _ (hosts.flatMap guests ++ ds.filter (fun d => !(options.host? source d).isSome)) := by
      rw [← List.flatMap_append]
      exact ((List.filter_append_perm opens hosts).flatMap_right guests).append_right _
    List.Perm _ (ds.filter (fun d => (options.host? source d).isSome) ++
        ds.filter (fun d => !(options.host? source d).isSome)) := asking.append_right _
    List.Perm _ ds := List.filter_append_perm _ ds

/-- A declaration is among those of a merge exactly if it goes into the statement of the merge. -/
theorem exists_mem_declarations_iff {d : Declaration} {i : StaticImport} :
    (∃ m ∈ (options.plan source ds).merges, m.target = i ∧ d ∈ m.declarations) ↔
      d ∈ ds ∧ options.MergesInto source d i := by
  constructor
  · rintro ⟨m, hm, rfl, hd⟩
    rwa [options.declarations_eq_filter source ds hm, List.mem_filter, decide_eq_true_eq] at hd
  · rintro ⟨hd, into⟩
    obtain ⟨m, hm, rfl⟩ := List.mem_map.mp ((options.mem_plan_targets source ds).mpr ⟨d, hd, into⟩)
    refine ⟨m, hm, rfl, ?_⟩
    rw [options.declarations_eq_filter source ds hm, List.mem_filter, decide_eq_true_eq]
    exact ⟨hd, into⟩

end InjectOptions

namespace MergePlan

theorem isMergeable_iff {includeTypes : Bool} {d : Declaration} :
    isMergeable includeTypes d = true ↔
      d.disabled = false ∧ (d.typeOnly = true → includeTypes = true) ∧
        (d.kind = .named ∨ d.kind = .default) := by
  cases includeTypes <;> cases h : d.typeOnly <;> simp [isMergeable, Declaration.isEmitted, h]

end MergePlan

/-- With merging, a declaration goes into a statement exactly if it is enabled, not for types alone unless
these are included, and a name or a default export, if the statement is the first live one of its module
with names in braces, and if the code of the statement opens them. All others are handed to the hook, each
as often as it came: first those for which there is no statement, in their order, and then those whose
statement does not open its names, by statements in the order of their first use. The names of the others
are written behind the brace that opens the names of their statement, with commas between them and a last
comma. -/
theorem declarations_divided (options : InjectOptions) (merging : options.mergeExisting = true)
    (esm : options.dialect = .esm) (source : String) (ds : List Declaration) :
    let plan := options.plan source ds
    (∀ d ∈ ds, ∀ i, (∃ m ∈ plan.merges, m.target = i ∧ d ∈ m.declarations) ↔
      (d.disabled = false ∧ (d.typeOnly = true → options.includeTypes = true) ∧
        (d.kind = .named ∨ d.kind = .default)) ∧
      (∃ earlier later, liveImports options.locator source = earlier ++ i :: later ∧
        i.TakesNamesOf d.specifier ∧ ∀ j ∈ earlier, ¬ j.TakesNamesOf d.specifier) ∧
      i.OpensNames) ∧
    (plan.merges.flatMap (·.declarations) ++ plan.fresh).Perm ds ∧
    (∀ d ∈ plan.fresh, ∀ m ∈ plan.merges, d ∉ m.declarations) ∧
    plan.fresh = ds.filter (fun d => (options.host? source d).isNone) ++
      ((options.hosts source ds).filter fun i =>
        (StaticImport.openingBrace? i.code).isNone).flatMap (options.guests source ds) ∧
    (∀ m ∈ plan.merges, ∃ blank gap rest,
      m.target.code.toList = blank ++ "import".toList ++ gap ++ '\x7b' :: rest ∧
      blank.all Text.isSpace = true ∧ gap.all Text.isSpace = true ∧
      m.offset = m.target.start + Text.byteLength (blank ++ "import".toList ++ gap ++ ['\x7b']) ∧
      m.text = " " ++ String.ofList (Text.trimStart
        (", ".intercalate (m.declarations.map fun d => d.binding.render .esm)).toList) ++ ",") ∧
    ∀ o, o.base = source →
      let handed := options.before plan.fresh
      let text := renderImports options.dialect options.includeTypes handed
      inject options ds o =
        options.place (plan.merges.foldl (fun o m => o.appendLeft m.offset m.text) o)
          ((options.after text handed).getD text) := by
  intro plan
  have both : (options.mergeExisting && options.dialect == .esm) = true := by simp [merging, esm]
  refine ⟨fun d hd i => ?_, options.perm_plan source ds both, fun d hd m hm member => ?_, ?_,
    fun m hm => ?_, ?_⟩
  · rw [options.exists_mem_declarations_iff source ds, InjectOptions.MergesInto,
      MergePlan.isMergeable_iff, StaticImport.find?_takesNamesOf_iff,
      StaticImport.isSome_openingBrace?_iff]
    exact ⟨fun ⟨_, _, _, rest⟩ => rest, fun rest => ⟨hd, merging, esm, rest⟩⟩
  · have into := (options.exists_mem_declarations_iff source ds).mp ⟨m, hm, rfl, member⟩
    exact ((options.mem_fresh_iff source ds).mp hd).2 m.target into.2
  · exact congrArg MergePlan.fresh (options.plan_eq source ds both)
  · obtain ⟨brace, opens, offset⟩ := options.exists_offset_eq source ds hm
    obtain ⟨blank, gap, rest, code, hblank, hgap, rfl⟩ :=
      StaticImport.openingBrace?_eq_some_iff.mp opens
    have text := m.text_eq (options.declarations_ne_nil source ds hm)
    exact ⟨blank, gap, rest, code, hblank, hgap, offset, text⟩
  · rintro o rfl
    rfl

/-- A locator that finds two statements with names in braces, of which one has other code. -/
theorem declarations_divided_by_code :
    let source := "import \x7b x \x7d from 'm'"
    let bare : StaticImport := ⟨"n", 0, 6, "import x from 'n'", "\x7b x \x7d", ["x"]⟩
    let named : StaticImport := ⟨"m", 0, 21, source, "\x7b x \x7d", ["x"]⟩
    let options : InjectOptions := { mergeExisting := true, locator := fun _ => [bare, named] }
    let a : Declaration := { name := "a", specifier := "m" }
    let b : Declaration := { name := "b", specifier := "n" }
    let c : Declaration := { name := "c", specifier := "k" }
    let plan := options.plan source [b, a, c, b, a]
    options.mergeExisting = true ∧ options.dialect = .esm ∧
      (∃ m ∈ plan.merges, m.target = named ∧ a ∈ m.declarations) ∧
      (plan.merges.flatMap (·.declarations) ++ plan.fresh).Perm [b, a, c, b, a] ∧
      plan.fresh = [c, b, b] ∧
      (inject options [b, a, c, b, a] (.ofString source)).text? =
        some ("import \x7b c \x7d from 'k';\nimport \x7b b, b \x7d from 'n';\n" ++
          "import \x7b a, a, x \x7d from 'm'") := by
  intro source bare named options a b c plan
  have live : liveImports options.locator source = [bare] ++ named :: [] := by decide +kernel
  obtain ⟨merged, perm, -, fresh, -, injected⟩ :=
    declarations_divided options rfl rfl source [b, a, c, b, a]
  refine ⟨rfl, rfl, (merged a (by simp) named).mpr ⟨?_, ?_, ?_⟩, perm, fresh.trans ?_, ?_⟩
  · decide
  · refine ⟨[bare], [], live, ⟨rfl, by decide⟩, ?_⟩
    rintro j hj ⟨specifier, -⟩
    rw [List.mem_singleton.mp hj] at specifier
    exact absurd specifier (by decide)
  · exact StaticImport.isSome_openingBrace?_iff.mp (by decide +kernel)
  · decide +kernel
  · rw [injected (.ofString source) rfl]
    decide +kernel

end ImportWeave
