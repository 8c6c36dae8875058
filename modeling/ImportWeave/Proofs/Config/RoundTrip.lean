import ImportWeave.Config.Json
import ImportWeave.Proofs.Json.Fields

/-! # Configurations are read back

What is written of a configuration can be read, and gives the same configuration. The kind of an item in a
preset is not written: it is found again because each kind has a form that the ones tried before it do not
have. -/

namespace ImportWeave

open Json

theorem nullable?_str (value : String) : nullable? string? (.str value) = some (some value) := rfl

theorem nullable?_int32 (value : Int32) :
    nullable? int32? (.num (.integer value.toInt)) = some (some value) := by
  rw [nullable?, int32?_toInt]
  · rfl
  · intro h
    cases h

theorem DeclaredAs.nullable?_toJson (d : DeclaredAs) : nullable? ofJson? d.toJson = some (some d) :=
  congrArg (Option.map some) (ofKeyword?_keyword d)

namespace Attributes

/-- Pairs with new keys are inserted at the end. -/
theorem entries_foldl_insert (pairs : List (String × String)) (attributes : Attributes)
    (nodup : (Keyed.keys (attributes.entries ++ pairs)).Nodup) :
    (pairs.foldl (fun attributes (key, value) => attributes.insert key value) attributes).entries =
      attributes.entries ++ pairs := by
  induction pairs generalizing attributes with
  | nil => simp
  | cons pair pairs ih =>
      obtain ⟨key, value⟩ := pair
      have fresh : key ∉ Keyed.keys attributes.entries := by
        intro h
        rw [Keyed.keys, List.map_append, List.nodup_append] at nodup
        exact nodup.2.2 key h key (List.mem_cons_self ..) rfl
      have inserted : (attributes.insert key value).entries = attributes.entries ++ [(key, value)] :=
        Keyed.update_of_notMem fresh
      rw [List.foldl_cons, ih, inserted, List.append_assoc, List.singleton_append]
      rwa [inserted, List.append_assoc, List.singleton_append]

theorem ofList_entries (attributes : Attributes) : ofList attributes.entries = attributes :=
  eq_of_entries_eq (entries_foldl_insert attributes.entries empty attributes.nodup)

theorem ofJson?_toJson (attributes : Attributes) : ofJson? attributes.toJson = some attributes := by
  have pairs : (attributes.entries.map fun entry => (entry.1, Json.str entry.2)).mapM
      (fun member => member.2.string?.map (member.1, ·)) = some attributes.entries :=
    mapM_map fun _ _ => rfl
  calc
    ofJson? attributes.toJson = (some attributes.entries).bind fun pairs => some (ofList pairs) :=
      congrArg (Option.bind · fun pairs => some (ofList pairs)) pairs
    _ = some attributes := congrArg some attributes.ofList_entries

theorem nullable?_toJson (attributes : Attributes) :
    nullable? ofJson? attributes.toJson = some (some attributes) :=
  congrArg (Option.map some) attributes.ofJson?_toJson

theorem isRepresentable_toJson (attributes : Attributes) : attributes.toJson.isRepresentable = true := by
  refine haveRepresentable_iff.mpr fun m hm => ?_
  obtain ⟨entry, -, rfl⟩ := List.mem_map.mp hm
  rfl

end Attributes

namespace Declaration

/-- The fields of a declaration, with what is written of them. -/
def fields (d : Declaration) : List (String × Option Json) :=
  [("name", some (.str d.name)), ("as", d.localAlias.map .str), ("from", some (.str d.specifier)),
    ("typeFrom", d.typeSpecifier.map .str), ("type", flagValue d.typeOnly),
    ("declarationType", d.declaredAs.map DeclaredAs.toJson), ("disabled", flagValue d.disabled),
    ("priority", d.priority.map fun p => .num (.integer p.toInt)),
    ("with", d.attributes.map Attributes.toJson)]

theorem toJson_eq (d : Declaration) : d.toJson = .obj (written d.fields) := by
  simp only [toJson, fields, written, List.flatMap_cons, List.flatMap_nil, member_some, member_map,
    member_flagValue, List.append_assoc, List.append_nil, id]

theorem nodup_fields (d : Declaration) : (Keyed.keys d.fields).Nodup := by
  simp [fields]

theorem ofJson?_toJson (d : Declaration) : ofJson? d.toJson = some d := by
  have nodup := d.nodup_fields
  rw [toJson_eq, ofJson?, record?_written _ nodup]
  simp only [Option.bind_eq_bind, Option.bind_some]
  rw [fieldOr?_written "name" nodup "" (.str d.name) (by simp [fields]),
    optionalField?_written "as" nodup d.localAlias nullable?_str (by simp [fields]),
    field?_written "from" nodup (.str d.specifier) (by simp [fields]),
    optionalField?_written "typeFrom" nodup d.typeSpecifier nullable?_str (by simp [fields]),
    fieldOr?_flag_written "type" nodup d.typeOnly (by simp [fields]),
    optionalField?_written "declarationType" nodup d.declaredAs DeclaredAs.nullable?_toJson
      (by simp [fields]),
    fieldOr?_flag_written "disabled" nodup d.disabled (by simp [fields]),
    optionalField?_written "priority" nodup d.priority nullable?_int32 (by simp [fields]),
    optionalField?_written "with" nodup d.attributes Attributes.nullable?_toJson (by simp [fields])]
  rfl

end Declaration

/-! ## Presets -/

namespace PresetEntry

/-- The fields of an entry, with what is written of them. -/
def fields (e : PresetEntry) : List (String × Option Json) :=
  [("name", some (.str e.name)), ("as", e.localAlias.map .str), ("from", e.specifier.map .str),
    ("type", flagValue e.typeOnly), ("typeFrom", e.typeSpecifier.map .str),
    ("declarationType", e.declaredAs.map DeclaredAs.toJson), ("disabled", flagValue e.disabled),
    ("priority", e.priority.map fun p => .num (.integer p.toInt)),
    ("with", e.attributes.map Attributes.toJson)]

theorem toJson_eq (e : PresetEntry) : e.toJson = .obj (written e.fields) := by
  simp only [toJson, fields, written, List.flatMap_cons, List.flatMap_nil, member_some, member_map,
    member_flagValue, List.append_assoc, List.append_nil, id]

theorem nodup_fields (e : PresetEntry) : (Keyed.keys e.fields).Nodup := by
  simp [fields]

theorem ofJson?_toJson (e : PresetEntry) : ofJson? e.toJson = some e := by
  have nodup := e.nodup_fields
  rw [toJson_eq, ofJson?, record?_written _ nodup]
  simp only [Option.bind_eq_bind, Option.bind_some]
  rw [field?_written "name" nodup (.str e.name) (by simp [fields]),
    optionalField?_written "as" nodup e.localAlias nullable?_str (by simp [fields]),
    optionalField?_written "from" nodup e.specifier nullable?_str (by simp [fields]),
    fieldOr?_flag_written "type" nodup e.typeOnly (by simp [fields]),
    optionalField?_written "typeFrom" nodup e.typeSpecifier nullable?_str (by simp [fields]),
    optionalField?_written "declarationType" nodup e.declaredAs DeclaredAs.nullable?_toJson
      (by simp [fields]),
    fieldOr?_flag_written "disabled" nodup e.disabled (by simp [fields]),
    optionalField?_written "priority" nodup e.priority nullable?_int32 (by simp [fields]),
    optionalField?_written "with" nodup e.attributes Attributes.nullable?_toJson (by simp [fields])]
  rfl

/-- An entry has no list of items, so it is not taken for a preset. -/
theorem parts?_toJson (e : PresetEntry) : Preset.parts? e.toJson = none := by
  have missing : field? list? "imports" (written e.fields) = none := by
    rw [field?, lookup_written_of_notMem (by simp [fields]), Option.bind_none]
  rw [toJson_eq, Preset.parts?, record?_written _ e.nodup_fields]
  simp only [Option.bind_eq_bind, Option.bind_some, missing, Option.bind_none, Option.bind_fun_none]

end PresetEntry

namespace Shared

/-- The fields of a preset whose list of items is given, with what is written of them. -/
def fields (s : Shared) (items : Json) : List (String × Option Json) :=
  [("from", some (.str s.specifier)), ("imports", some items), ("type", flagValue s.typeOnly),
    ("typeFrom", s.typeSpecifier.map .str), ("priority", s.priority.map fun p => .num (.integer p.toInt)),
    ("with", s.attributes.map Attributes.toJson)]

theorem toJson_eq (s : Shared) (items : Json) : s.toJson items = .obj (written (s.fields items)) := by
  simp only [toJson, fields, written, List.flatMap_cons, List.flatMap_nil, member_some, member_map,
    member_flagValue, List.append_assoc, List.append_nil, id, List.cons_append, List.nil_append]

theorem nodup_fields (s : Shared) (items : Json) : (Keyed.keys (s.fields items)).Nodup := by
  simp [fields]

theorem parts?_toJson (s : Shared) (items : List Json) :
    Preset.parts? (s.toJson (.arr items)) = some (s, items) := by
  have nodup := s.nodup_fields (.arr items)
  rw [toJson_eq, Preset.parts?, record?_written _ nodup]
  simp only [Shared.ofFields?, Option.bind_eq_bind, Option.bind_some]
  rw [field?_written "from" nodup (.str s.specifier) (by simp [fields]),
    field?_written "imports" nodup (.arr items) (by simp [fields]),
    fieldOr?_flag_written "type" nodup s.typeOnly (by simp [fields]),
    optionalField?_written "typeFrom" nodup s.typeSpecifier nullable?_str (by simp [fields]),
    optionalField?_written "priority" nodup s.priority nullable?_int32 (by simp [fields]),
    optionalField?_written "with" nodup s.attributes Attributes.nullable?_toJson (by simp [fields])]
  rfl

end Shared

namespace PresetItem

/-- An object is tried as a preset, and then as an entry. -/
theorem ofJson?_obj (members : List (String × Json)) :
    ofJson? (.obj members) =
      ((Preset.parts? (.obj members)).bind fun parts =>
        (parts.2.mapM ofJson?).map (.nested parts.1)).or
          ((PresetEntry.ofJson? (.obj members)).map .entry) := by
  have read (items : List Json) :
      items.attach.mapM (fun item => ofJson? item.val) = items.mapM ofJson? := by
    calc
      items.attach.mapM (fun item => ofJson? item.val)
        = (items.attach.map Subtype.val).mapM ofJson? := List.mapM_map.symm
      _ = items.mapM ofJson? := by rw [List.attach_map_subtype_val]
  rw [ofJson?]
  · simp only [read]
    split
    · next none =>
        rw [none]
        rfl
    · next shared items some =>
        rw [some, Option.bind_some]
        cases items.mapM ofJson? <;> rfl
  · intro x h
    cases h

theorem ofJson?_parts (xs : List String) : ofJson? (.arr (xs.map .str)) = some (.parts xs) := by
  have parts : (Json.arr (xs.map .str)).listOf? string? = some xs := listOf?_map fun _ _ => rfl
  rw [ofJson?]
  · simp only [parts]
    rfl
  · intro x h
    cases h

mutual

/-- An item is read as what it was, however deep presets are nested. The induction is on the item, together
with the items of a preset. -/
theorem ofJson?_toJson : (item : PresetItem) → ofJson? item.toJson = some item
  | .name x => by
      rw [toJson, ofJson?]
  | .parts xs => by
      rw [toJson, ofJson?_parts]
  | .nested shared items => by
      have parts := shared.parts?_toJson (toJsonAll items)
      rw [Shared.toJson_eq] at parts
      rw [toJson, Shared.toJson_eq, ofJson?_obj, parts, Option.bind_some, mapM_ofJson?_toJsonAll items]
      rfl
  | .entry e => by
      have parts := e.parts?_toJson
      have read := e.ofJson?_toJson
      rw [PresetEntry.toJson_eq] at parts read
      rw [toJson, PresetEntry.toJson_eq, ofJson?_obj, parts, read]
      rfl

theorem mapM_ofJson?_toJsonAll : (items : List PresetItem) → (toJsonAll items).mapM ofJson? = some items
  | [] => rfl
  | item :: items => by
      rw [toJsonAll, List.mapM_cons, ofJson?_toJson item, mapM_ofJson?_toJsonAll items]
      rfl

end

/-! All that is written of an item is representable, so a preset can be read as a whole before the kinds of
its items are found. -/

theorem isRepresentable_entry (e : PresetEntry) : e.toJson.isRepresentable = true := by
  have flags := isRepresentable_flagValue
  rw [PresetEntry.toJson_eq]
  refine isRepresentable_written ?_
  simpa [PresetEntry.fields, isRepresentable, DeclaredAs.toJson, Attributes.isRepresentable_toJson]
    using ⟨flags e.typeOnly, flags e.disabled⟩

theorem isRepresentable_nested (s : Shared) {items : List Json} (h : areRepresentable items = true) :
    (s.toJson (.arr items)).isRepresentable = true := by
  rw [Shared.toJson_eq]
  refine isRepresentable_written ?_
  simpa [Shared.fields, isRepresentable, Attributes.isRepresentable_toJson, h]
    using isRepresentable_flagValue s.typeOnly

mutual

theorem isRepresentable_toJson : (item : PresetItem) → item.toJson.isRepresentable = true
  | .name x => rfl
  | .parts xs => by
      refine areRepresentable_iff.mpr fun item hi => ?_
      obtain ⟨x, -, rfl⟩ := List.mem_map.mp hi
      rfl
  | .nested shared items => isRepresentable_nested shared (areRepresentable_toJsonAll items)
  | .entry e => isRepresentable_entry e

theorem areRepresentable_toJsonAll : (items : List PresetItem) →
    areRepresentable (toJsonAll items) = true
  | [] => rfl
  | item :: items => by
      rw [toJsonAll, areRepresentable, isRepresentable_toJson item, areRepresentable_toJsonAll items,
        Bool.and_self]

end

end PresetItem

theorem Preset.ofJson?_toJson (p : Preset) : ofJson? p.toJson = some p := by
  have representable : (PresetItem.toJsonAll p.items).all isRepresentable = true :=
    List.all_eq_true.mpr (areRepresentable_iff.mp (PresetItem.areRepresentable_toJsonAll p.items))
  rw [toJson, ofJson?, Shared.parts?_toJson]
  simp only [Option.bind_eq_bind, Option.bind_some]
  rw [if_pos representable, PresetItem.mapM_ofJson?_toJsonAll]
  rfl

/-! ## Configurations -/

namespace Config

/-- The fields of a configuration, all of which are written. -/
def fields (c : Config) : List (String × Option Json) :=
  [("imports", some (.arr (c.imports.map Declaration.toJson))),
    ("presets", some (.arr (c.presets.map Preset.toJson))), ("commonjs", some (.bool c.commonjs)),
    ("mergeExisting", some (.bool c.mergeExisting)), ("injectAtEnd", some (.bool c.injectAtEnd)),
    ("includeTypes", some (.bool c.includeTypes)), ("exportHelper", some (.bool c.exportHelper))]

/-- Every configuration is the one that is read from what is written of it, down to the order of the
attributes and the kinds of the items in its presets. -/
theorem toJson_read_back (c : Config) : ofJson? c.toJson = some c := by
  have nodup : (Keyed.keys c.fields).Nodup := by simp [fields]
  have fields_eq : c.toJson = .obj (written c.fields) := rfl
  have imports : listOf? Declaration.ofJson? (.arr (c.imports.map Declaration.toJson)) = some c.imports :=
    listOf?_map fun d _ => d.ofJson?_toJson
  have presets : listOf? Preset.ofJson? (.arr (c.presets.map Preset.toJson)) = some c.presets :=
    listOf?_map fun p _ => p.ofJson?_toJson
  rw [fields_eq, ofJson?, record?_written _ nodup]
  simp only [Option.bind_eq_bind, Option.bind_some]
  rw [fieldOr?_written "imports" nodup [] (.arr (c.imports.map Declaration.toJson)) (by simp [fields]),
    fieldOr?_written "presets" nodup [] (.arr (c.presets.map Preset.toJson)) (by simp [fields]),
    fieldOr?_written "commonjs" nodup false (.bool c.commonjs) (by simp [fields]),
    fieldOr?_written "mergeExisting" nodup false (.bool c.mergeExisting) (by simp [fields]),
    fieldOr?_written "injectAtEnd" nodup false (.bool c.injectAtEnd) (by simp [fields]),
    fieldOr?_written "includeTypes" nodup false (.bool c.includeTypes) (by simp [fields]),
    fieldOr?_written "exportHelper" nodup true (.bool c.exportHelper) (by simp [fields]), imports, presets]
  rfl

end Config

end ImportWeave
