import ImportWeave.Proofs.Statement.Recognition
import ImportWeave.Proofs.Text.Splitting

/-! # Names that are read back

The names that a clause binds are read from its text, which is split at commas and words. For the names of a
statement this gives what they are bound to, with one exception: between braces, the word `type` in front of
another word is taken for the modifier, also if it is the name of what is imported. -/

namespace ImportWeave

open StaticImport

theorem StaticImport.IsClause.isTrimmed {cs : List Char} (h : IsClause cs) : Text.IsTrimmed cs :=
  ⟨h.first, h.last⟩

theorem notMem_of_isBareKey {x : String} (h : Attributes.isBareKey x = true) {c : Char}
    (other : Attributes.isKeyPart c = false) : c ∉ x.toList := by
  intro hc
  rw [(forall_isKeyPart_of_isBareKey h).2 c hc] at other
  cases other

namespace Clause

/-! ## One name in braces -/

/-- The word `type` is dropped together with a space, so nothing is dropped where there is none. -/
theorem dropWord_typeWord_of_notMem {cs : List Char} (h : ' ' ∉ cs) : Text.dropWord typeWord cs = cs :=
  Text.dropWord_of_not_prefix fun first => h (first.subset (by decide))

/-- In front of a space, only the word `type` itself is dropped. -/
theorem dropWord_typeWord_append {name : List Char} (h : ' ' ∉ name) (other : name ≠ "type".toList)
    (rest : List Char) : Text.dropWord typeWord (name ++ ' ' :: rest) = name ++ ' ' :: rest := by
  refine Text.dropWord_of_not_prefix ?_
  rintro ⟨after, split⟩
  have text : "type".toList ++ ' ' :: after = name ++ ' ' :: rest := split
  have words := congrArg (List.takeWhile (· ≠ ' ')) text
  rw [(Text.span_append_of_notMem (by decide) after).1, (Text.span_append_of_notMem h rest).1] at words
  exact other words.symm

variable {part name other : List Char}

/-- A part that has fewer than two spaces behind its modifier has no alias. -/
theorem innerName?_of_count (hpart : IsClause part) (dropped : Text.dropWord typeWord part = name)
    (hname : IsClause name) (few : name.count ' ' < 2) : innerName? part = some name := by
  have undivided : Text.splitOnce? " as ".toList name = none := by
    refine Text.splitOnce?_eq_none fun inside => ?_
    have twice : " as ".toList.count ' ' = 2 := by decide
    have := inside.sublist.count_le ' '
    omega
  simp only [innerName?, hpart.isTrimmed.trim_eq, dropped, hname.isTrimmed.trim_eq, if_neg hname.ne_nil,
    undivided]

theorem innerName?_of_alias (hpart : IsClause part)
    (dropped : Text.dropWord typeWord part = name ++ " as ".toList ++ other) (hname : IsClause name)
    (noSpace : ' ' ∉ name) (hother : IsClause other) : innerName? part = some other := by
  have text : IsClause (name ++ " as ".toList ++ other) := hname.append _ (by decide) hother
  have divided : Text.splitOnce? " as ".toList (name ++ " as ".toList ++ other) = some (name, other) :=
    Text.splitOnce?_append noSpace "as ".toList other
  simp only [innerName?, hpart.isTrimmed.trim_eq, dropped, text.isTrimmed.trim_eq, if_neg text.ne_nil,
    divided, hother.isTrimmed.trim_eq]

/-! ## Whole clauses -/

theorem isComma_of_notMem {cs : List Char} (h : ',' ∉ cs) : ∀ c ∈ cs, isComma c = false := by
  intro c hc
  rw [isComma, beq_eq_false_iff_ne]
  rintro rfl
  exact h hc

/-- The name of one part is read from it, with white space around it or without. -/
theorem filterMap_innerName?_singleton {part : String} (h : Text.IsTrimmed part.toList)
    (noComma : ',' ∉ part.toList) {left right : List Char} (hl : left.all Text.isSpace = true)
    (hr : right.all Text.isSpace = true) :
    (Text.splitOn isComma (left ++ part.toList ++ right)).filterMap innerName? =
      [part].filterMap fun part => innerName? part.toList := by
  have piece : ',' ∉ left ++ part.toList ++ right := by
    simp only [List.mem_append, not_or]
    exact ⟨⟨Text.notMem_of_all_isSpace rfl hl, noComma⟩, Text.notMem_of_all_isSpace rfl hr⟩
  have name : innerName? (left ++ part.toList ++ right) = innerName? part.toList := by
    rw [innerName?, innerName?, h.trim_append hl hr, h.trim_eq]
  rw [Text.splitOn_eq_singleton (isComma_of_notMem piece)]
  simp only [List.filterMap_cons, List.filterMap_nil, name]

/-- The names between braces are read part by part. The induction is on the parts, each of them with the
space in front of it. -/
theorem filterMap_innerName?_intercalate {parts : List String}
    (h : ∀ part ∈ parts, Text.IsTrimmed part.toList ∧ ',' ∉ part.toList) :
    (Text.splitOn isComma ([' '] ++ (", ".intercalate parts).toList ++ [' '])).filterMap innerName? =
      parts.filterMap fun part => innerName? part.toList := by
  induction parts with
  | nil => decide
  | cons part parts ih =>
      obtain ⟨⟨trimmed, noComma⟩, later⟩ := List.forall_mem_cons.mp h
      cases parts with
      | nil =>
          rw [String.intercalate_singleton]
          exact filterMap_innerName?_singleton trimmed noComma rfl rfl
      | cons next parts =>
          have text : [' '] ++ (", ".intercalate (part :: next :: parts)).toList ++ [' '] =
              ([' '] ++ part.toList ++ []) ++
                ',' :: ([' '] ++ (", ".intercalate (next :: parts)).toList ++ [' ']) := by
            simp [String.intercalate_cons_cons]
          rw [text, Text.splitOn_append_cons rfl, List.filterMap_append, ih later,
            filterMap_innerName?_singleton trimmed noComma rfl rfl, ← List.filterMap_append,
            List.singleton_append]

theorem splitLastBrace?_concat (cs : List Char) : splitLastBrace? (cs ++ ['\x7d']) = some (cs, []) := by
  simp [splitLastBrace?]

theorem boundNames_braced {parts : List String}
    (h : ∀ part ∈ parts, Text.IsTrimmed part.toList ∧ ',' ∉ part.toList) :
    boundNames (Text.braced parts) =
      (parts.filterMap fun part => innerName? part.toList).map String.ofList := by
  have text : (Text.braced parts).toList =
      '\x7b' :: (([' '] ++ (", ".intercalate parts).toList ++ [' ']) ++ ['\x7d']) := by
    simp [Text.braced]
  have names := filterMap_innerName?_intercalate h
  generalize [' '] ++ (", ".intercalate parts).toList ++ [' '] = inside at text names
  have trimmed : Text.IsTrimmed ('\x7b' :: (inside ++ ['\x7d'])) := by
    constructor
    · rintro _ ⟨⟩
      rfl
    · rw [← List.cons_append, List.getLast?_concat]
      rintro _ ⟨⟩
      rfl
  have dropped : Text.dropWord typeWord ('\x7b' :: (inside ++ ['\x7d'])) =
      '\x7b' :: (inside ++ ['\x7d']) := rfl
  have split : splitBraces ('\x7b' :: (inside ++ ['\x7d'])) = ([], some inside) := by
    have first : Text.splitOnce? ['\x7b'] ('\x7b' :: (inside ++ ['\x7d'])) =
        some ([], inside ++ ['\x7d']) := rfl
    simp only [splitBraces, first, splitLastBrace?_concat, List.append_nil]
  have outer : (Text.splitOn isComma []).filterMap outerName? = [] := rfl
  simp only [boundNames, text, trimmed.trim_eq, dropped, split, outer, names, List.nil_append]

/-- A clause without braces and commas binds one name. -/
theorem boundNames_of_outerName? {clause : String} {rest name : List Char}
    (trimmed : Text.IsTrimmed clause.toList) (dropped : Text.dropWord typeWord clause.toList = rest)
    (noBrace : '\x7b' ∉ rest) (noComma : ',' ∉ rest) (bound : outerName? rest = some name) :
    boundNames clause = [String.ofList name] := by
  have first : Text.splitOnce? ['\x7b'] rest = none :=
    Text.splitOnce?_eq_none fun inside => noBrace (inside.subset List.mem_cons_self)
  have split : splitBraces rest = (rest, none) := by simp only [splitBraces, first]
  simp only [boundNames, trimmed.trim_eq, dropped, split, Text.splitOn_eq_singleton (isComma_of_notMem noComma),
    List.filterMap_cons, List.filterMap_nil, bound, List.append_nil, List.map_cons, List.map_nil]

end Clause

namespace NamedBinding

variable {b : NamedBinding}

def localName (b : NamedBinding) : String := b.localAlias.getD b.name

/-- The name `type` is imported under another name, and not for its type alone. -/
def RenamesType (b : NamedBinding) : Prop := b.typeOnly = false ∧ b.name = "type" ∧ b.localName ≠ b.name

instance (b : NamedBinding) : Decidable b.RenamesType := inferInstanceAs (Decidable (_ ∧ _))

/-- The name that is read: with the word `as`, if the word `type` in front of it is taken for a modifier. -/
def readName (b : NamedBinding) : String :=
  if b.RenamesType then "as " ++ b.localName else b.localName

theorem readName_eq_localName_iff : b.readName = b.localName ↔ ¬ b.RenamesType := by
  unfold readName
  split
  · next renames =>
      have longer : "as " ++ b.localName ≠ b.localName := by
        intro same
        have := congrArg String.length same
        rw [String.length_append] at this
        exact absurd this (by simp)
      simp [longer, renames]
  · next keeps => simp [keeps]

theorem renderName_esm (b : NamedBinding) :
    b.renderName .esm = if b.localName = b.name then b.name else b.name ++ " as " ++ b.localName := by
  cases given : b.localAlias <;> simp [renderName, localName, given]

theorem IsPlain.isBareKey_localName (h : b.IsPlain) : Attributes.isBareKey b.localName = true := by
  unfold localName
  cases given : b.localAlias with
  | none => exact h.name
  | some a => exact h.localAlias a given

theorem IsPlain.notMem_render (h : b.IsPlain) : ',' ∉ (b.render .esm).toList := by
  have name : ',' ∉ b.name.toList := notMem_of_isBareKey h.name rfl
  have other : ',' ∉ b.localName.toList := notMem_of_isBareKey h.isBareKey_localName rfl
  rw [render, renderName_esm]
  cases b.typeOnly <;> split <;> simp [typeModifier, name, other]

/-- A name that is not followed by an alias is read as it is. -/
theorem IsPlain.innerName?_name (h : b.IsPlain) (same : b.localName = b.name) :
    Clause.innerName? (b.render .esm).toList = some b.name.toList := by
  have noSpace : ' ' ∉ b.name.toList := notMem_of_isBareKey h.name rfl
  have dropped : Text.dropWord Clause.typeWord (b.render .esm).toList = b.name.toList := by
    rw [render, renderName_esm, if_pos same, String.toList_append]
    cases b.typeOnly with
    | true => exact Text.dropWord_append _ _
    | false => exact Clause.dropWord_typeWord_of_notMem noSpace
  refine Clause.innerName?_of_count h.isClause_render dropped (isClause_of_isBareKey h.name) ?_
  rw [List.count_eq_zero.mpr noSpace]
  decide

/-- The alias is read behind any name that is not taken for the modifier. -/
theorem IsPlain.innerName?_localName (h : b.IsPlain) (other : b.localName ≠ b.name)
    (keeps : ¬ b.RenamesType) :
    Clause.innerName? (b.render .esm).toList = some b.localName.toList := by
  have noSpace : ' ' ∉ b.name.toList := notMem_of_isBareKey h.name rfl
  have text : (b.render .esm).toList =
      (typeModifier b.typeOnly).toList ++ (b.name.toList ++ " as ".toList ++ b.localName.toList) := by
    rw [render, renderName_esm, if_neg other]
    simp only [String.toList_append]
  have dropped : Text.dropWord Clause.typeWord (b.render .esm).toList =
      b.name.toList ++ " as ".toList ++ b.localName.toList := by
    rw [text]
    cases typeOnly : b.typeOnly with
    | true => exact Text.dropWord_append _ _
    | false =>
        have name : b.name.toList ≠ "type".toList := fun name =>
          keeps ⟨typeOnly, String.toList_inj.mp name, other⟩
        have := Clause.dropWord_typeWord_append noSpace name ("as ".toList ++ b.localName.toList)
        simpa [typeModifier] using this
  exact Clause.innerName?_of_alias h.isClause_render dropped (isClause_of_isBareKey h.name) noSpace
    (isClause_of_isBareKey h.isBareKey_localName)

/-- With `type` dropped, only one space is left, so the word `as` is read as part of the name. -/
theorem IsPlain.innerName?_of_renamesType (h : b.IsPlain) (renames : b.RenamesType) :
    Clause.innerName? (b.render .esm).toList = some ("as " ++ b.localName).toList := by
  obtain ⟨typeOnly, name, other⟩ := renames
  have hlocal := h.isBareKey_localName
  have text : (b.render .esm).toList = Clause.typeWord ++ ("as " ++ b.localName).toList := by
    rw [render, renderName_esm, if_neg other, name, typeOnly]
    simp [typeModifier, Clause.typeWord]
  have dropped : Text.dropWord Clause.typeWord (b.render .esm).toList = ("as " ++ b.localName).toList := by
    rw [text, Text.dropWord_append]
  have clause : IsClause ("as " ++ b.localName).toList := by
    have word : IsClause "as".toList := isClause_of_isBareKey (by decide)
    simpa using word.append [' '] rfl (isClause_of_isBareKey hlocal)
  refine Clause.innerName?_of_count h.isClause_render dropped clause ?_
  rw [String.toList_append, List.count_append, List.count_eq_zero.mpr (notMem_of_isBareKey hlocal rfl)]
  decide

theorem IsPlain.innerName?_render (h : b.IsPlain) :
    Clause.innerName? (b.render .esm).toList = some b.readName.toList := by
  unfold readName
  split
  · next renames => exact h.innerName?_of_renamesType renames
  · next keeps =>
      by_cases same : b.localName = b.name
      · rw [h.innerName?_name same, same]
      · exact h.innerName?_localName same keeps

theorem boundNames_render {bindings : List NamedBinding} (h : ∀ b ∈ bindings, b.IsPlain) :
    Clause.boundNames (Text.braced (bindings.map (·.render .esm))) = bindings.map readName := by
  have parts : ∀ part ∈ bindings.map (·.render .esm),
      Text.IsTrimmed part.toList ∧ ',' ∉ part.toList := by
    rw [List.forall_mem_map]
    exact fun b hb => ⟨(h b hb).isClause_render.isTrimmed, (h b hb).notMem_render⟩
  have names : (bindings.filterMap fun b => Clause.innerName? (b.render .esm).toList) =
      bindings.map fun b => b.readName.toList := by
    rw [List.filterMap_congr fun b hb => (h b hb).innerName?_render, List.filterMap_eq_map']
  rw [Clause.boundNames_braced parts, List.filterMap_map, Function.comp_def, names, List.map_map]
  simp [Function.comp_def]

end NamedBinding

/-! ## Clauses of one name -/

/-- The modifier in front of a clause is dropped, and nothing more. -/
theorem dropWord_typeModifier {clause : String}
    (kept : Text.dropWord Clause.typeWord clause.toList = clause.toList) (typeOnly : Bool) :
    Text.dropWord Clause.typeWord (typeModifier typeOnly ++ clause).toList = clause.toList := by
  rw [String.toList_append]
  cases typeOnly with
  | true => exact Text.dropWord_append _ _
  | false => exact kept

theorem boundNames_default {x : String} (h : Attributes.isBareKey x = true) (typeOnly : Bool) :
    Clause.boundNames (typeModifier typeOnly ++ x) = [x] := by
  have clause := isClause_of_isBareKey h
  have star : '*' ∉ x.toList := notMem_of_isBareKey h rfl
  have kept := Clause.dropWord_typeWord_of_notMem (notMem_of_isBareKey h rfl)
  have bound : Clause.outerName? x.toList = some x.toList := by
    rw [Clause.outerName?, clause.isTrimmed.trim_eq]
    split
    · next empty => exact absurd empty clause.ne_nil
    · next rest text => exact absurd (text ▸ List.mem_cons_self) star
    · rfl
  rw [Clause.boundNames_of_outerName? (isClause_typeModifier_append clause typeOnly).isTrimmed
    (dropWord_typeModifier kept typeOnly) (notMem_of_isBareKey h rfl) (notMem_of_isBareKey h rfl) bound,
    String.ofList_toList]

theorem boundNames_namespaceObject {x : String} (h : Attributes.isBareKey x = true) (typeOnly : Bool) :
    Clause.boundNames (typeModifier typeOnly ++ "* as " ++ x) = [x] := by
  have name := isClause_of_isBareKey h
  have clause := isClause_namespaceObject name
  have text : ("* as " ++ x).toList = '*' :: ' ' :: ("as".toList ++ ' ' :: x.toList) := by simp
  have kept : Text.dropWord Clause.typeWord ("* as " ++ x).toList = ("* as " ++ x).toList := by
    rw [text]
    rfl
  have noBrace : '\x7b' ∉ x.toList := notMem_of_isBareKey h rfl
  have noComma : ',' ∉ x.toList := notMem_of_isBareKey h rfl
  have bound : Clause.outerName? ("* as " ++ x).toList = some x.toList := by
    have divided : Text.splitOnce? "as".toList (' ' :: ("as".toList ++ ' ' :: x.toList)) =
        some ([' '], ' ' :: x.toList) := rfl
    have trimmed : Text.trim (' ' :: x.toList) = x.toList := by
      simpa using @Text.IsTrimmed.trim_append x.toList name.isTrimmed [' '] [] rfl rfl
    rw [Clause.outerName?, clause.isTrimmed.trim_eq, text]
    simp only [divided, trimmed, Option.bind_eq_bind, Option.bind_some, if_neg name.ne_nil]
  rw [String.append_assoc, Clause.boundNames_of_outerName?
    (isClause_typeModifier_append clause typeOnly).isTrimmed (dropWord_typeModifier kept typeOnly)
    (by simpa using noBrace) (by simpa using noComma) bound, String.ofList_toList]

/-- The names that are read from the names of a statement are the local names, in their order, exactly if
the name `type` is not imported under another name without the modifier. If it is, the word `as` is read as
part of the local name. The single name of a clause is always read back, with the modifier or without, also
if it is a word such as `type` or `as`. -/
theorem bound_names_read_back_iff (bindings : List NamedBinding) (plain : ∀ b ∈ bindings, b.IsPlain) :
    let read := Clause.boundNames (Text.braced (bindings.map (·.render .esm)))
    read = bindings.map (fun b => if b.RenamesType then "as " ++ b.localName else b.localName) ∧
    (read = bindings.map (·.localName) ↔ ∀ b ∈ bindings, ¬ b.RenamesType) ∧
    ∀ x, Attributes.isBareKey x = true → ∀ typeOnly,
      Clause.boundNames (typeModifier typeOnly ++ x) = [x] ∧
      Clause.boundNames (typeModifier typeOnly ++ "* as " ++ x) = [x] := by
  intro read
  have names : read = bindings.map NamedBinding.readName := NamedBinding.boundNames_render plain
  refine ⟨names, ?_, fun x h typeOnly => ?_⟩
  · rw [names, List.map_inj_left]
    exact forall₂_congr fun b _ => NamedBinding.readName_eq_localName_iff
  · exact ⟨boundNames_default h typeOnly, boundNames_namespaceObject h typeOnly⟩

/-- Names that are the words of a clause are read back, and so is `type` itself. -/
theorem bound_names_read_back_from_words :
    let bindings : List NamedBinding :=
      [⟨false, "as", some "type"⟩, ⟨true, "type", some "as"⟩, ⟨true, "as", none⟩, ⟨true, "as", some "as"⟩,
        ⟨false, "type", none⟩, ⟨false, "type", some "type"⟩, ⟨true, "type", some "$as"⟩]
    (∀ b ∈ bindings, b.IsPlain) ∧ (∀ b ∈ bindings, ¬ b.RenamesType) ∧
    Text.braced (bindings.map (·.render .esm)) =
      "\x7b as as type, type type as as, type as, type as, type, type, type type as $as \x7d" ∧
    Clause.boundNames
        "\x7b as as type, type type as as, type as, type as, type, type, type type as $as \x7d" =
      ["type", "as", "as", "as", "type", "type", "$as"] ∧
    Attributes.isBareKey "type" = true ∧ Clause.boundNames "type" = ["type"] ∧
    Clause.boundNames "type * as type" = ["type"] := by
  intro bindings
  have text : Text.braced (bindings.map (·.render .esm)) =
      "\x7b as as type, type type as as, type as, type as, type, type, type type as $as \x7d" := by
    decide +kernel
  have plain : ∀ b ∈ bindings, b.IsPlain := by decide
  have keeps : ∀ b ∈ bindings, ¬ b.RenamesType := by decide
  obtain ⟨-, back, single⟩ := bound_names_read_back_iff bindings plain
  refine ⟨plain, keeps, text, ?_, by decide, (single "type" (by decide) false).1,
    (single "type" (by decide) true).2⟩
  rw [← text]
  exact back.mpr keeps

/-- The name `type` under another name: what is read is not a name. -/
theorem bound_names_of_renamed_type :
    let b : NamedBinding := ⟨false, "type", some "foo"⟩
    b.IsPlain ∧ b.localName = "foo" ∧ Text.braced [b.render .esm] = "\x7b type as foo \x7d" ∧
    Clause.boundNames "\x7b type as foo \x7d" = ["as foo"] := by
  decide +kernel

end ImportWeave
