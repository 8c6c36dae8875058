import ImportWeave.Proofs.Statement.LocalNames

/-! # Type exports by module

The lines that export types again come in blocks, one for each module that types are taken from, in the
order in which the modules first come up. A block lists the names that are taken from its module, binds the
first namespace object, and ends with an import that loads the module. -/

namespace ImportWeave

namespace Declaration

theorem isListed_iff {d : Declaration} :
    d.isListed = true ↔ d.kind = .default ∨ d.kind = .wholeModule ∨ d.kind = .named := by
  cases hk : d.kind <;> simp [isListed, hk]

/-- The name in the module, followed by the name in the importing module if that is another one. -/
def exportedName (d : Declaration) : String :=
  if d.displayName = d.name then d.name else d.name ++ " as " ++ d.displayName

theorem renderName_binding (d : Declaration) : d.binding.renderName .esm = d.exportedName := by
  cases given : d.localAlias <;>
    simp [binding, NamedBinding.renderName, exportedName, displayName, given]

/-- The name that the declaration gives to a namespace object, if it asks for one. -/
def objectName? (d : Declaration) : Option String :=
  if d.kind = .namespaceObject then d.namespaceAlias else none

end Declaration

namespace TypeModule

/-- The import that makes a type checker load the module. -/
def loading (specifier : String) : String := "import(\x27" ++ specifier ++ "\x27)"

/-- The lines that export names and a namespace object of the module. -/
def exporting (names : List String) (object : Option String) (specifier : String) : List String :=
  (if names = [] then [] else
    ["// @ts-ignore",
      "export type \x7b " ++ ", ".intercalate names ++ " \x7d from \x27" ++ specifier ++ "\x27"]) ++
  object.elim [] fun x =>
    ["// @ts-ignore", "export type * as " ++ x ++ " from \x27" ++ specifier ++ "\x27"]

/-- The block of a module, which loads it if there is anything to export. -/
def block (names : List String) (object : Option String) (specifier : String) : List String :=
  exporting names object specifier ++
    if names = [] ∧ object = none then [] else [loading specifier]

end TypeModule

namespace TypeOptions

variable (options : TypeOptions) (ds : List Declaration) (specifier : String)

/-- The declarations that are listed in the braces of the module. -/
def listedFrom : List Declaration :=
  (ds.filter (options.specifierOf · = specifier)).filter fun d =>
    d.kind = .default ∨ d.kind = .wholeModule ∨ d.kind = .named

/-- The name of the first namespace object of the module that can be bound. -/
def objectFrom? : Option String :=
  (ds.filter (options.specifierOf · = specifier)).findSome? Declaration.objectName?

/-- The block of the module for these declarations. -/
def block : List String :=
  TypeModule.block ((options.listedFrom ds specifier).map Declaration.exportedName)
    (options.objectFrom? ds specifier) specifier

end TypeOptions

/-! ## What is gathered for a module -/

namespace TypeModule

/-- The first namespace object stays. -/
theorem object_foldl_add (ds : List Declaration) (m : TypeModule) :
    (ds.foldl add m).object = m.object.or (ds.findSome? Declaration.objectName?) := by
  induction ds generalizing m with
  | nil => simp
  | cons d ds ih =>
      rw [List.foldl_cons, ih, List.findSome?_cons]
      cases hk : d.kind with
      | namespaceObject =>
          cases ha : d.namespaceAlias <;> simp [add, Declaration.objectName?, hk, ha]
      | sideEffect | default | wholeModule | named => simp [add, Declaration.objectName?, hk]

theorem foldl_add (ds : List Declaration) :
    ds.foldl add {} = ⟨ds.findSome? Declaration.objectName?, (ds.filter fun d =>
      d.kind = .default ∨ d.kind = .wholeModule ∨ d.kind = .named).map Declaration.binding⟩ := by
  have listed : (ds.filter fun d => d.kind = .default ∨ d.kind = .wholeModule ∨ d.kind = .named) =
      ds.filter (·.isListed) := by
    refine List.filter_congr fun d _ => ?_
    rw [Bool.eq_iff_iff, decide_eq_true_iff, Declaration.isListed_iff]
  calc
    ds.foldl add {} = ⟨(ds.foldl add {}).object, (ds.foldl add {}).named⟩ := rfl
    _ = _ := by rw [object_foldl_add, named_foldl_add, Option.none_or, List.nil_append, listed]

theorem lines_eq_block (m : TypeModule) (specifier : String) :
    m.lines specifier = block (m.named.map (·.renderName .esm)) m.object specifier := by
  have listed (names : List String) : "export type " ++ Text.braced names ++ " from " ++
      Text.inQuotes specifier =
        "export type \x7b " ++ ", ".intercalate names ++ " \x7d from \x27" ++ specifier ++ "\x27" := by
    apply String.toList_inj.mp
    simp [Text.braced, Text.inQuotes]
  have bound (x : String) : "export type * as " ++ x ++ " from " ++ Text.inQuotes specifier =
      "export type * as " ++ x ++ " from \x27" ++ specifier ++ "\x27" := by
    apply String.toList_inj.mp
    simp [Text.inQuotes]
  have loaded : "import(" ++ Text.inQuotes specifier ++ ")" = loading specifier := by
    apply String.toList_inj.mp
    simp [Text.inQuotes, loading]
  simp only [lines, exportLines, listed, bound, loaded]
  obtain ⟨_ | x, _ | ⟨b, bs⟩⟩ := m <;> rfl

end TypeModule

namespace TypeOptions

variable (options : TypeOptions) (ds : List Declaration)

theorem flatMap_lines_modules :
    ((options.modules ds).flatMap fun m => m.2.lines m.1) =
      (ds.map options.specifierOf).eraseDups.flatMap (options.block ds) := by
  rw [modules_eq_collect, Keyed.collect_some_eq_map, List.map_map, List.flatMap_map]
  simp only [TypeModule.lines_eq_block, Function.comp_apply, TypeModule.foldl_add, List.map_map]
  have names : (·.renderName .esm) ∘ Declaration.binding = Declaration.exportedName :=
    funext Declaration.renderName_binding
  rw [names]
  rfl

/-- No declaration with a name is lost, and none is listed twice. -/
theorem perm_flatMap_listedFrom :
    ((ds.map options.specifierOf).eraseDups.flatMap (options.listedFrom ds)).Perm
      (ds.filter fun d => d.kind = .default ∨ d.kind = .wholeModule ∨ d.kind = .named) := by
  have listed := (Keyed.perm_flatMap_filter options.specifierOf ds).filter fun d =>
    d.kind = .default ∨ d.kind = .wholeModule ∨ d.kind = .named
  rwa [List.filter_flatMap] at listed

end TypeOptions

/-! ## Each module is loaded once -/

namespace TypeModule

theorem loading_injective {m n : String} (h : loading m = loading n) : m = n := by
  have texts := congrArg String.toList h
  exact String.toList_inj.mp (by simpa [loading, Text.inQuotes] using texts)

theorem head?_loading (m : String) : (loading m).toList.head? = some 'i' := by
  simp [loading]

theorem head?_of_mem_exporting {names : List String} {object : Option String}
    {specifier line : String} (h : line ∈ exporting names object specifier) :
    line.toList.head? = some '/' ∨ line.toList.head? = some 'e' := by
  have ignored {text : String} (first : text.toList.head? = some 'e')
      (h : line ∈ ["// @ts-ignore", text]) :
      line.toList.head? = some '/' ∨ line.toList.head? = some 'e' := by
    obtain rfl | rfl : line = "// @ts-ignore" ∨ line = text := by simpa using h
    · exact .inl rfl
    · exact .inr first
  rcases List.mem_append.mp h with h | h
  · split at h
    · cases h
    · exact ignored (by simp) h
  · cases object with
    | none => cases h
    | some x => exact ignored (by simp) h

/-- A block loads its own module alone, and that once if it exports anything. -/
theorem count_loading_block (names : List String) (object : Option String)
    (specifier m : String) :
    (block names object specifier).count (loading m) =
      if specifier = m ∧ ¬ (names = [] ∧ object = none) then 1 else 0 := by
  have notExported : loading m ∉ exporting names object specifier := fun h => by
    rcases head?_of_mem_exporting h with e | e <;> simp [head?_loading] at e
  rw [block, List.count_append, List.count_eq_zero.mpr notExported, Nat.zero_add]
  by_cases nothing : names = [] ∧ object = none
  · simp [nothing]
  · have same : loading specifier = loading m ↔ specifier = m :=
      ⟨loading_injective, congrArg loading⟩
    simp [nothing, List.count_singleton, same]

end TypeModule

namespace TypeOptions

variable (options : TypeOptions) (ds : List Declaration)

theorem count_loading_flatMap_block {specifiers : List String} (nodup : specifiers.Nodup) (m : String) :
    (specifiers.flatMap (options.block ds)).count (TypeModule.loading m) =
      if m ∈ specifiers then (options.block ds m).count (TypeModule.loading m) else 0 := by
  induction specifiers with
  | nil => rfl
  | cons specifier specifiers ih =>
      obtain ⟨fresh, nodup⟩ := List.nodup_cons.mp nodup
      rw [List.flatMap_cons, List.count_append, ih nodup]
      by_cases same : specifier = m
      · subst same
        simp [fresh]
      · have other : (options.block ds specifier).count (TypeModule.loading m) = 0 := by
          rw [block, TypeModule.count_loading_block, if_neg fun h => same h.1]
        simp [other, Ne.symm same]

/-- A module is loaded once if anything is exported from it, and not at all otherwise. -/
theorem count_loading (m : String) :
    ((ds.map options.specifierOf).eraseDups.flatMap (options.block ds)).count (TypeModule.loading m) =
      if options.listedFrom ds m = [] ∧ options.objectFrom? ds m = none then 0 else 1 := by
  rw [count_loading_flatMap_block options ds (Keyed.nodup_eraseDups _)]
  by_cases member : m ∈ (ds.map options.specifierOf).eraseDups
  · rw [if_pos member, block, TypeModule.count_loading_block]
    simp only [List.map_eq_nil_iff, true_and, ite_not]
  · have nothing : ds.filter (options.specifierOf · = m) = [] := by
      simpa [List.filter_eq_nil_iff] using member
    rw [if_neg member, listedFrom, objectFrom?, nothing]
    rfl

end TypeOptions

/-- The block of type exports is made of the blocks of the different modules that types are taken from, in
the order in which these first come up. Each declaration of a default export, a whole module or a name is
listed once, and each module is loaded once if anything is exported from it, and otherwise not at all. -/
theorem type_exports_by_module (options : TypeOptions) (ds : List Declaration) :
    let taken := ds.map options.specifierOf
    let specifiers := taken.eraseDups
    let lines := specifiers.flatMap (options.block ds)
    options.renderReExports ds = "// for type re-export\ndeclare global \x7b\n" ++
      "\n".intercalate (lines.map ("  " ++ ·)) ++ "\n\x7d" ∧
    specifiers.Nodup ∧
    (specifiers.Pairwise fun m n => taken.idxOf m < taken.idxOf n) ∧
    (specifiers.flatMap (options.listedFrom ds)).Perm
      (ds.filter fun d => d.kind = .default ∨ d.kind = .wholeModule ∨ d.kind = .named) ∧
    ∀ m, lines.count (TypeModule.loading m) =
      if options.listedFrom ds m = [] ∧ options.objectFrom? ds m = none then 0 else 1 := by
  intro taken specifiers lines
  refine ⟨?_, Keyed.nodup_eraseDups taken, Keyed.pairwise_idxOf_eraseDups taken,
    options.perm_flatMap_listedFrom ds, options.count_loading ds⟩
  -- the header and the opening line are joined by computation
  exact congrArg (fun lines => "// for type re-export\n" ++ declareGlobal lines)
    (options.flatMap_lines_modules ds)

/-- Different specifiers are resolved to one, and a module that nothing is exported from has no block. -/
theorem type_exports_of_three_modules :
    let options : TypeOptions :=
      { resolvePath := fun d =>
          if d.name = "=" then some "vue" else if d.name = "Plugin" then some "" else none }
    options.renderReExports
      [{ name := "Ref", specifier := "vue" },
       { name := "*", localAlias := some "first", specifier := "./types/foo.ts" },
       { specifier := "effects" },
       { name := "default", localAlias := some "Foo", specifier := "./types/foo" },
       { name := "*", localAlias := some "second", specifier := "./types/foo" },
       { name := "*", specifier := "unbound" },
       { name := "=", localAlias := some "Legacy", specifier := "legacy" },
       { name := "Plugin", localAlias := some "Plugin", specifier := "./plugin.mjs",
         typeSpecifier := some "./plugin.d.ts" }] =
    "// for type re-export\ndeclare global \x7b\n" ++
    "  // @ts-ignore\n" ++
    "  export type \x7b Ref, = as Legacy \x7d from \x27vue\x27\n" ++
    "  import(\x27vue\x27)\n" ++
    "  // @ts-ignore\n" ++
    "  export type \x7b default as Foo \x7d from \x27./types/foo\x27\n" ++
    "  // @ts-ignore\n" ++
    "  export type * as first from \x27./types/foo\x27\n" ++
    "  import(\x27./types/foo\x27)\n" ++
    "  // @ts-ignore\n" ++
    "  export type \x7b Plugin \x7d from \x27./plugin.d\x27\n" ++
    "  import(\x27./plugin.d\x27)\n\x7d" :=
  (type_exports_by_module _ _).1.trans (by decide +kernel)

end ImportWeave
