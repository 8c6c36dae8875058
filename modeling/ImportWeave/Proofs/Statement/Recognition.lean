import ImportWeave.Proofs.Importer.ReservedNames
import ImportWeave.Proofs.StaticImport.Recognition

/-! # Recognised imports

The import statements of declarations are written on lines of their own, and a source of such lines is
located statement by statement. Names may be those of the clause itself, such as `from` and `as`. What
matters is that no text of a declaration ends a part of its statement early. -/

namespace ImportWeave

open StaticImport

/-- The characters of texts joined by a separator are those of the texts and of the separator. -/
theorem Text.forall_mem_intercalate {P : Char → Prop} {separator : String} {texts : List String}
    (hseparator : ∀ c ∈ separator.toList, P c) (htexts : ∀ text ∈ texts, ∀ c ∈ text.toList, P c) :
    ∀ c ∈ (separator.intercalate texts).toList, P c := by
  induction texts with
  | nil => simp
  | cons text texts ih =>
      have first := htexts text List.mem_cons_self
      have later := ih fun text ht => htexts text (List.mem_cons_of_mem _ ht)
      cases texts with
      | nil => simpa using first
      | cons _ _ =>
          intro c hc
          rw [String.intercalate_cons_cons, String.toList_append, String.toList_append] at hc
          rcases List.mem_append.mp hc with hc | hc
          · rcases List.mem_append.mp hc with hc | hc
            · exact first c hc
            · exact hseparator c hc
          · exact later c hc

/-! ## Clauses -/

namespace StaticImport

/-- Two clauses with clause characters between them are one clause. -/
theorem IsClause.append {xs ys : List Char} (hx : IsClause xs) (between : List Char)
    (hb : between.all isClauseChar = true) (hy : IsClause ys) : IsClause (xs ++ between ++ ys) where
  ne_nil := by simp [hx.ne_nil]
  chars := by simp only [List.all_append, hx.chars, hb, hy.chars, Bool.and_self]
  first := by
    obtain ⟨c, cs, rfl⟩ := List.exists_cons_of_ne_nil hx.ne_nil
    exact hx.first
  last := by
    have last := List.getLast?_eq_some_getLast hy.ne_nil
    rw [List.getLast?_append, last, Option.some_or, ← last]
    exact hy.last

theorem isClause_singleton {c : Char} (h : isClauseChar c = true) (visible : Text.isSpace c = false) :
    IsClause [c] where
  ne_nil := List.cons_ne_nil c []
  chars := by simp [h]
  first := by
    rintro _ ⟨⟩
    exact visible
  last := by
    rintro _ ⟨⟩
    exact visible

theorem toNat_of_isKeyPart {c : Char} (h : Attributes.isKeyPart c = true) :
    0x24 ≤ c.toNat ∧ c.toNat < 0x80 := by
  simp only [Attributes.isKeyPart, Attributes.isKeyStart, Bool.or_eq_true, beq_iff_eq, Text.isAlpha_iff_toNat,
    Char.isDigit_iff_toNat] at h
  have zero : '0'.toNat = 48 := rfl
  have nine : '9'.toNat = 57 := rfl
  rcases h with (((h | h) | rfl) | rfl) | h
  · omega
  · omega
  · decide
  · decide
  · omega

theorem isClauseChar_of_isKeyPart {c : Char} (h : Attributes.isKeyPart c = true) :
    isClauseChar c = true := by
  have word : Text.isWord c = Text.isAsciiWord c := if_pos (toNat_of_isKeyPart h).2
  simp only [Attributes.isKeyPart, Attributes.isKeyStart, Bool.or_eq_true, beq_iff_eq] at h
  rcases h with ((h | rfl) | rfl) | h
  · simp [isClauseChar, word, Text.isAsciiWord, Char.isAlphanum, h]
  · decide
  · decide
  · simp [isClauseChar, word, Text.isAsciiWord, Char.isAlphanum, h]

theorem isSpace_of_isKeyPart {c : Char} (h : Attributes.isKeyPart c = true) :
    Text.isSpace c = false := by
  obtain ⟨low, high⟩ := toNat_of_isKeyPart h
  simp only [Text.isSpace, Bool.or_eq_false_iff, Bool.and_eq_false_iff, decide_eq_false_iff_not,
    beq_eq_false_iff_ne]
  omega

theorem forall_isKeyPart_of_isBareKey {x : String} (h : Attributes.isBareKey x = true) :
    x.toList ≠ [] ∧ ∀ c ∈ x.toList, Attributes.isKeyPart c = true := by
  obtain ⟨c, cs, text, start, parts⟩ := Attributes.isBareKey_iff.mp h
  rw [text]
  exact ⟨List.cons_ne_nil c cs, by simpa [Attributes.isKeyPart, start] using parts⟩

/-- An identifier is a clause. -/
theorem isClause_of_isBareKey {x : String} (h : Attributes.isBareKey x = true) : IsClause x.toList := by
  obtain ⟨nonempty, parts⟩ := forall_isKeyPart_of_isBareKey h
  refine ⟨nonempty, ?_, ?_, ?_⟩
  · exact List.all_eq_true.mpr fun c hc => isClauseChar_of_isKeyPart (parts c hc)
  · exact fun c hc => isSpace_of_isKeyPart (parts c (List.mem_of_mem_head? hc))
  · exact fun c hc => isSpace_of_isKeyPart (parts c (List.mem_of_mem_getLast? hc))

end StaticImport

/-- What stands in front of `from`, if there is such a word. -/
def ImportForm.clause? : ImportForm → Option String
  | .sideEffect => none
  | .default t x | .wholeModule t x => some (typeModifier t ++ x)
  | .namespaceObject t x => some (typeModifier t ++ "* as " ++ x)
  | .named bindings => some (Text.braced (bindings.map (·.render .esm)))

theorem isClause_typeModifier_append {x : String} (h : IsClause x.toList) (typeOnly : Bool) :
    IsClause (typeModifier typeOnly ++ x).toList := by
  cases typeOnly with
  | false => simpa [typeModifier] using h
  | true =>
      have word : IsClause "type".toList := isClause_of_isBareKey (by decide)
      simpa [typeModifier] using word.append [' '] rfl h

theorem isClause_namespaceObject {x : String} (h : IsClause x.toList) : IsClause ("* as " ++ x).toList := by
  have star : IsClause ['*'] := isClause_singleton rfl rfl
  simpa using star.append " as ".toList (by decide) h

theorem isClause_braced {parts : List String} (h : ∀ part ∈ parts, IsClause part.toList) :
    IsClause (Text.braced parts).toList := by
  have inner : ∀ c ∈ (", ".intercalate parts).toList, isClauseChar c = true :=
    Text.forall_mem_intercalate (List.all_eq_true.mp (by decide)) fun part hp =>
      List.all_eq_true.mp (h part hp).chars
  have opening : IsClause ['\x7b'] := isClause_singleton rfl rfl
  have closing : IsClause ['\x7d'] := isClause_singleton rfl rfl
  have text : (Text.braced parts).toList =
      ['\x7b'] ++ (' ' :: ((", ".intercalate parts).toList ++ [' '])) ++ ['\x7d'] := by
    simp [Text.braced]
  rw [text]
  refine opening.append _ ?_ closing
  simp only [List.all_cons, List.all_append, List.all_eq_true.mpr inner]
  rfl

namespace NamedBinding

/-- The name and the alias are identifiers. -/
structure IsPlain (b : NamedBinding) : Prop where
  name : Attributes.isBareKey b.name = true
  localAlias : ∀ a ∈ b.localAlias, Attributes.isBareKey a = true

instance (b : NamedBinding) : Decidable b.IsPlain :=
  decidable_of_iff (Attributes.isBareKey b.name = true ∧
      ∀ a ∈ b.localAlias, Attributes.isBareKey a = true)
    ⟨fun ⟨name, localAlias⟩ => ⟨name, localAlias⟩, fun h => ⟨h.name, h.localAlias⟩⟩

theorem IsPlain.isClause_render {b : NamedBinding} (h : b.IsPlain) :
    IsClause (b.render .esm).toList := by
  have name := isClause_of_isBareKey h.name
  refine isClause_typeModifier_append ?_ b.typeOnly
  unfold renderName
  split
  · exact name
  · next a given =>
      split
      · exact name
      · simpa using name.append " as ".toList (by decide) (isClause_of_isBareKey (h.localAlias a given))

end NamedBinding

/-! ## Attributes -/

namespace Attributes

/-- No key and no value has a brace that could end the clause. -/
def IsBraceFree (attributes : Attributes) : Prop :=
  ∀ entry ∈ attributes.entries, '\x7d' ∉ entry.1.toList ∧ '\x7d' ∉ entry.2.toList

instance (attributes : Attributes) : Decidable attributes.IsBraceFree :=
  inferInstanceAs (Decidable (∀ _ ∈ _, _))

theorem notMem_encodeChar {c : Char} (h : '\x7d' ≠ c) : '\x7d' ∉ Json.Quoted.encodeChar c := by
  have digit : ∀ n < 16, '\x7d' ≠ Json.Quoted.hexDigit n := by decide
  have high (small : c.toNat < 0x20) := digit (c.toNat / 16) (by omega)
  have low := digit (c.toNat % 16) (by omega)
  unfold Json.Quoted.encodeChar
  split_ifs with _ _ _ _ _ _ _ small
  · decide
  · decide
  · decide
  · decide
  · decide
  · decide
  · decide
  · simp [Json.Quoted.backslash, high small, low]
  · simp [h]

theorem notMem_encode {text : String} (h : '\x7d' ∉ text.toList) :
    '\x7d' ∉ (Json.Quoted.encode text).toList := by
  intro hm
  simp only [Json.Quoted.encode, String.toList_ofList, List.mem_cons, List.mem_append, List.mem_flatMap,
    List.not_mem_nil, or_false] at hm
  rcases hm with hm | ⟨c, hc, hm⟩ | hm
  · exact absurd hm (by decide)
  · refine notMem_encodeChar ?_ hm
    rintro rfl
    exact h hc
  · exact absurd hm (by decide)

theorem notMem_renderEntry {entry : String × String} (key : '\x7d' ∉ entry.1.toList)
    (value : '\x7d' ∉ entry.2.toList) : '\x7d' ∉ (renderEntry entry).toList := by
  have written : '\x7d' ∉ (renderKey entry.1).toList := by
    unfold renderKey
    split
    · exact key
    · exact notMem_encode key
  simp only [renderEntry, String.toList_append, List.mem_append, not_or]
  exact ⟨⟨written, by decide⟩, notMem_encode value⟩

end Attributes

namespace ImportStatement

theorem afterStatement_renderEnd {clause : Attributes} (h : clause.IsBraceFree) (rest : List Char) :
    afterStatement ((renderEnd clause).toList ++ rest) = rest := by
  unfold renderEnd
  split
  · exact afterStatement_semicolon rest
  · have inner : ∀ c ∈ (", ".intercalate (clause.entries.map Attributes.renderEntry)).toList,
        c ≠ '\x7d' := by
      refine Text.forall_mem_intercalate (by simp) ?_
      simp only [List.forall_mem_map]
      rintro entry he c hc rfl
      exact Attributes.notMem_renderEntry (h entry he).1 (h entry he).2 hc
    have text : (" with " ++ clause.render ++ ";").toList ++ rest = " with \x7b".toList ++
        ((' ' :: ((", ".intercalate (clause.entries.map Attributes.renderEntry)).toList ++ [' '])) ++
          '\x7d' :: ';' :: rest) := by
      simp [Attributes.render, Text.braced]
    rw [text]
    refine afterStatement_attributes ?_ rest
    simpa using fun hm => inner _ hm rfl

/-- A statement whose parts can be told apart. -/
structure IsPlain (s : ImportStatement) : Prop where
  clause : ∀ text ∈ s.form.clause?, IsClause text.toList
  specifier : IsSpecifier s.specifier.toList
  attributes : s.clause.IsBraceFree

/-- The statement as it is found in a source. -/
def found (s : ImportStatement) : Found where
  code := (s.render .esm).toList
  clause := (s.form.clause?.getD "").toList
  specifier := s.specifier.toList

theorem introduces_renderForm {form : ImportForm} (h : ∀ text ∈ form.clause?, IsClause text.toList) :
    Introduces (' ' :: (renderForm form).toList) (form.clause?.getD "").toList := by
  have text : renderForm form = (form.clause?.map (· ++ " from ")).getD "" := by cases form <;> rfl
  rw [text]
  cases hc : form.clause? with
  | none => exact introduces_space
  | some text =>
      simp only [Option.map_some, Option.getD_some, String.toList_append]
      exact introduces_from (h text hc)

theorem toList_render (s : ImportStatement) :
    (s.render .esm).toList = "import".toList ++ (' ' :: (renderForm s.form).toList) ++
      '\x27' :: (s.specifier.toList ++ '\x27' :: (renderEnd s.clause).toList) := by
  simp [render, Text.inQuotes]

/-- A plain statement is found as a whole. -/
theorem IsPlain.isComplete_found {s : ImportStatement} (h : s.IsPlain) : s.found.IsComplete := by
  rw [found, toList_render]
  exact isComplete_of_parts (introduces_renderForm h.clause) h.specifier
    (afterStatement_renderEnd h.attributes)

end ImportStatement

/-! ## Declarations -/

namespace Declaration

/-- The name is an identifier or has a meaning of its own, an alias is an identifier or empty, and no text
ends a part of a statement early. The name `=` is not written, so it needs an alias. -/
structure IsPlain (d : Declaration) : Prop where
  name : Attributes.isBareKey d.name = true ∨ d.name = "" ∨ d.name ∈ reservedNames
  localAlias : ∀ a ∈ d.localAlias, a = "" ∨ Attributes.isBareKey a = true
  wholeModule : d.name = "=" → d.localAlias ≠ none
  specifier : IsSpecifier d.specifier.toList
  attributes : d.clause.IsBraceFree

instance (d : Declaration) : Decidable d.IsPlain :=
  decidable_of_iff ((Attributes.isBareKey d.name = true ∨ d.name = "" ∨ d.name ∈ reservedNames) ∧
      (∀ a ∈ d.localAlias, a = "" ∨ Attributes.isBareKey a = true) ∧
      (d.name = "=" → d.localAlias ≠ none) ∧ IsSpecifier d.specifier.toList ∧ d.clause.IsBraceFree)
    ⟨fun ⟨name, localAlias, wholeModule, specifier, attributes⟩ =>
      ⟨name, localAlias, wholeModule, specifier, attributes⟩,
      fun h => ⟨h.name, h.localAlias, h.wholeModule, h.specifier, h.attributes⟩⟩

variable {d : Declaration}

/-- An alias of a declaration that is not for side effects is an identifier. -/
theorem IsPlain.isBareKey_alias (h : d.IsPlain) (bound : d.kind ≠ .sideEffect) {a : String}
    (given : d.localAlias = some a) : Attributes.isBareKey a = true := by
  refine (h.localAlias a given).resolve_left ?_
  rintro rfl
  exact bound (kind_eq_sideEffect_iff.mpr (.inr given))

theorem IsPlain.isBareKey_name (h : d.IsPlain) (named : d.kind = .named) :
    Attributes.isBareKey d.name = true := by
  refine h.name.resolve_right ?_
  rintro (empty | reserved)
  · have : d.kind = .sideEffect := kind_eq_sideEffect_iff.mpr (.inl empty)
    simp [this] at named
  · obtain ⟨k, hk⟩ := exists_specialName? reserved
    have given : d.localAlias ≠ some "" := by
      intro empty
      have : d.kind = .sideEffect := kind_eq_sideEffect_iff.mpr (.inr empty)
      simp [this] at named
    obtain rfl : k = .named := ((kind_eq_iff_name hk).mpr ⟨rfl, given⟩).symm.trans named
    cases hk

/-- The name that a statement binds is an identifier. -/
theorem IsPlain.isBareKey_boundName? (h : d.IsPlain) {x : String} (bound : d.boundName? = some x) :
    Attributes.isBareKey x = true := by
  have kind : d.kind ≠ .sideEffect := by
    intro none
    simp [boundName?, none] at bound
  have shown := displayName_of_boundName? bound
  rcases ha : d.localAlias with _ | a
  · have name : d.name = x := by simpa [displayName, ha] using shown
    subst name
    cases hk : d.kind with
    | sideEffect => exact absurd hk kind
    | named => exact h.isBareKey_name hk
    | default =>
        rw [((kind_eq_iff_name rfl).mp hk).1]
        decide
    | wholeModule => exact absurd ha (h.wholeModule ((kind_eq_iff_name rfl).mp hk).1)
    | namespaceObject => simp [boundName?, hk, namespaceAlias, ha] at bound
  · obtain rfl : a = x := by simpa [displayName, ha] using shown
    exact h.isBareKey_alias kind ha

theorem IsPlain.isPlain_binding (h : d.IsPlain) (named : d.kind = .named) : d.binding.IsPlain where
  name := h.isBareKey_name named
  localAlias _ given := h.isBareKey_alias (by simp [named]) given

theorem ownForm?_eq_named {dialect : Dialect} {bindings : List NamedBinding}
    (h : d.ownForm? dialect = some (.named bindings)) : d.kind = .named ∧ bindings = [d.binding] := by
  unfold ownForm? at h
  cases hk : d.kind <;> simp_all

theorem IsPlain.isClause_of_ownForm? (h : d.IsPlain) {form : ImportForm}
    (own : d.ownForm? .esm = some form) : ∀ text ∈ form.clause?, IsClause text.toList := by
  have bound {x : String} (hx : x ∈ form.localNames) : IsClause x.toList :=
    isClause_of_isBareKey (h.isBareKey_boundName?
      ((boundName?_eq_some_iff .esm d x).mpr (.inl ⟨form, own, hx⟩)))
  cases form with
  | sideEffect => simp [ImportForm.clause?]
  | default t x | wholeModule t x =>
      rintro _ ⟨⟩
      exact isClause_typeModifier_append (bound (by simp [ImportForm.localNames])) t
  | namespaceObject t x =>
      rintro _ ⟨⟩
      have name : IsClause x.toList := bound (by simp [ImportForm.localNames])
      rw [String.append_assoc]
      exact isClause_typeModifier_append (isClause_namespaceObject name) t
  | named bindings =>
      rintro _ ⟨⟩
      obtain ⟨named, rfl⟩ := ownForm?_eq_named own
      refine isClause_braced ?_
      simpa using (h.isPlain_binding named).isClause_render

end Declaration

namespace ImportStatement

theorem isPlain_of_mem_ofModule {specifier : String} {ds : List Declaration}
    (h : ∀ d ∈ ds, d.IsPlain ∧ d.specifier = specifier) {s : ImportStatement}
    (hs : s ∈ ofModule .esm specifier ds) : s.IsPlain := by
  rw [ofModule_eq] at hs
  rcases List.mem_append.mp hs with own | shared
  · obtain ⟨d, hd, own⟩ := List.mem_filterMap.mp own
    obtain ⟨form, hform, rfl⟩ := Option.map_eq_some_iff.mp own
    obtain ⟨plain, rfl⟩ := h d (mem_expressible_iff.mp hd).1
    exact ⟨plain.isClause_of_ownForm? hform, plain.specifier, plain.attributes⟩
  · have batched {d : Declaration} (hd : d ∈ (expressible .esm ds).filter (·.isBatched .esm)) :
        d.IsPlain ∧ d.specifier = specifier ∧ d.kind = .named := by
      obtain ⟨hd, batched⟩ := List.mem_filter.mp hd
      obtain ⟨plain, hs⟩ := h d (mem_expressible_iff.mp hd).1
      simp only [Declaration.isBatched, Bool.and_eq_true, beq_iff_eq] at batched
      exact ⟨plain, hs, batched.1⟩
    unfold ImportStatement.shared at shared
    split at shared
    · cases shared
    · next some =>
        obtain rfl := List.mem_singleton.mp shared
        refine ⟨?_, ?_, by rintro _ ⟨⟩⟩
        · rintro _ ⟨⟩
          refine isClause_braced ?_
          simp only [List.forall_mem_map]
          exact fun d hd => ((batched hd).1.isPlain_binding (batched hd).2.2).isClause_render
        · obtain ⟨d, hd⟩ := List.exists_mem_of_ne_nil _ some
          obtain ⟨plain, rfl, -⟩ := batched hd
          exact plain.specifier

/-- Plain declarations have plain statements. -/
theorem isPlain_of_mem_ofDeclarations {includeTypes : Bool} {ds : List Declaration}
    (h : ∀ d ∈ ds, d.IsPlain) {s : ImportStatement} (hs : s ∈ ofDeclarations .esm includeTypes ds) :
    s.IsPlain := by
  obtain ⟨⟨specifier, group⟩, hg, hs⟩ := List.mem_flatMap.mp hs
  rw [ModuleGroups.ofDeclarations_eq_collect] at hg
  obtain ⟨rfl, -⟩ := (Keyed.mem_collect_iff _ _).mp hg
  refine isPlain_of_mem_ofModule (fun d hd => ?_) hs
  obtain ⟨hd, key⟩ := List.mem_filter.mp hd
  exact ⟨h d (List.mem_filter.mp hd).1, by simpa using key⟩

/-- The imports of plain declarations are located one by one, each as the whole statement and with its
specifier. -/
theorem locate_renderImports {includeTypes : Bool} {ds : List Declaration}
    (h : ∀ d ∈ ds, d.IsPlain) :
    (locate (renderImports .esm includeTypes ds)).map (fun i => (i.code, i.specifier)) =
      (ofDeclarations .esm includeTypes ds).map fun s => (s.render .esm, s.specifier) := by
  have complete : ∀ f ∈ (ofDeclarations .esm includeTypes ds).map found, f.IsComplete := by
    simp only [List.forall_mem_map]
    exact fun s hs => (isPlain_of_mem_ofDeclarations h hs).isComplete_found
  have lines : (renderImports .esm includeTypes ds).toList =
      ['\n'].intercalate (((ofDeclarations .esm includeTypes ds).map found).map (·.code)) := by
    rw [renderImports, String.toList_intercalate, List.map_map, List.map_map]
    rfl
  rw [locate, lines, scan_intercalate complete rfl, List.map_map]
  simp [Function.comp_def, found]

/-- Declarations whose names are the words of a clause. -/
def namedAsWords : List Declaration :=
  [{ name := "from", localAlias := some "type", specifier := "./import from" },
   { name := "*", localAlias := some "from", specifier := "./as", typeOnly := true },
   { name := "import", specifier := "./import from", typeOnly := true },
   { name := "as", localAlias := some "default", specifier := "./as",
     attributes := some (.ofList [("type", "json"), ("a;b", "\x27 from \x22\n")]) },
   { name := "=", localAlias := some "import", specifier := "./as" },
   { specifier := "import" }]

theorem locate_imports_namedAsWords :
    (∀ d ∈ namedAsWords, d.IsPlain) ∧
      (locate (renderImports .esm true namedAsWords)).map (fun i => (i.code, i.specifier)) =
        [("import \x7b from as type, type import \x7d from \x27./import from\x27;", "./import from"),
         ("import type * as from from \x27./as\x27;", "./as"),
         ("import \x7b as as default \x7d from \x27./as\x27 with " ++
           "\x7b type: \x22json\x22, \x22a;b\x22: \x22\x27 from \\\x22\\n\x22 \x7d;", "./as"),
         ("import import from \x27./as\x27;", "./as"),
         ("import \x27import\x27;", "import")] :=
  ⟨by decide, (locate_renderImports (by decide)).trans (by decide)⟩

end ImportStatement

end ImportWeave
