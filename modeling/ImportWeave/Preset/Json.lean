import ImportWeave.Declaration.Json
import ImportWeave.Json.Parser
import ImportWeave.Preset.Basic

/-! # Presets in JSON

The kind of an item is found by trying: a string is a name, an array of strings is a list of parts, what
can be read as a preset is one, and what is left must be an entry. -/

namespace ImportWeave

namespace Preset

def fieldNames : List String := ["from", "imports", "type", "typeFrom", "priority", "with"]

end Preset

namespace Shared

def ofFields? (fields : List (String × Json)) : Option Shared := do
  return {
    specifier := ← Json.field? Json.string? "from" fields
    typeOnly := ← Json.fieldOr? false Json.bool? "type" fields
    typeSpecifier := ← Json.optionalField? Json.string? "typeFrom" fields
    priority := ← Json.optionalField? Json.int32? "priority" fields
    attributes := ← Json.optionalField? Attributes.ofJson? "with" fields }

/-- The members of a preset whose list of items is given. -/
def toJson (s : Shared) (items : Json) : Json :=
  .obj ([("from", .str s.specifier), ("imports", items)] ++
    Json.flag "type" s.typeOnly ++
    Json.member .str "typeFrom" s.typeSpecifier ++
    Json.member (fun p => .num (.integer p.toInt)) "priority" s.priority ++
    Json.member Attributes.toJson "with" s.attributes)

end Shared

namespace PresetEntry

def fieldNames : List String :=
  ["name", "as", "from", "type", "typeFrom", "declarationType", "disabled", "priority", "with"]

def ofJson? (json : Json) : Option PresetEntry := do
  let fields ← json.record? fieldNames
  return {
    name := ← Json.field? Json.string? "name" fields
    localAlias := ← Json.optionalField? Json.string? "as" fields
    specifier := ← Json.optionalField? Json.string? "from" fields
    typeOnly := ← Json.fieldOr? false Json.bool? "type" fields
    typeSpecifier := ← Json.optionalField? Json.string? "typeFrom" fields
    declaredAs := ← Json.optionalField? DeclaredAs.ofJson? "declarationType" fields
    disabled := ← Json.fieldOr? false Json.bool? "disabled" fields
    priority := ← Json.optionalField? Json.int32? "priority" fields
    attributes := ← Json.optionalField? Attributes.ofJson? "with" fields }

def toJson (e : PresetEntry) : Json :=
  .obj ([("name", .str e.name)] ++
    Json.member .str "as" e.localAlias ++
    Json.member .str "from" e.specifier ++
    Json.flag "type" e.typeOnly ++
    Json.member .str "typeFrom" e.typeSpecifier ++
    Json.member DeclaredAs.toJson "declarationType" e.declaredAs ++
    Json.flag "disabled" e.disabled ++
    Json.member (fun p => .num (.integer p.toInt)) "priority" e.priority ++
    Json.member Attributes.toJson "with" e.attributes)

end PresetEntry

namespace Preset

/-- The settings of a preset and its items, which are still to be read. -/
def parts? (json : Json) : Option (Shared × List Json) := do
  let fields ← json.record? fieldNames
  return (← Shared.ofFields? fields, ← Json.field? Json.list? "imports" fields)

theorem sizeOf_lookup {name : String} {fields : List (String × Json)} {value : Json}
    (h : fields.lookup name = some value) : sizeOf value < sizeOf fields := by
  induction fields with
  | nil => simp at h
  | cons field fields ih =>
      obtain ⟨k, v⟩ := field
      rw [List.lookup_cons] at h
      split at h
      · cases h
        simp
        omega
      · have := ih h
        simp
        omega

theorem sizeOf_zip (names : List String) (items : List Json) {name : String} {value : Json}
    (h : (names.zip items).lookup name = some value) : sizeOf value < sizeOf items := by
  induction names generalizing items with
  | nil => simp at h
  | cons n names ih =>
      cases items with
      | nil => simp at h
      | cons item items =>
          rw [List.zip_cons_cons, List.lookup_cons] at h
          split at h
          · cases h
            simp
            omega
          · have := ih items h
            simp
            omega

theorem sizeOf_record {names : List String} {json : Json} {fields : List (String × Json)}
    {name : String} {value : Json} (hr : json.record? names = some fields)
    (hl : fields.lookup name = some value) : sizeOf value < sizeOf json := by
  unfold Json.record? at hr
  split at hr
  · split at hr
    · cases hr
      have := sizeOf_lookup hl
      simp
      omega
    · simp at hr
  · split at hr
    · cases hr
      have := sizeOf_zip _ _ hl
      simp
      omega
    · simp at hr
  · simp at hr

theorem sizeOf_of_mem_parts? {json : Json} {shared : Shared} {items : List Json}
    (h : parts? json = some (shared, items)) {item : Json} (hi : item ∈ items) :
    sizeOf item < sizeOf json := by
  simp only [parts?, Json.field?, Option.bind_eq_bind, Option.bind_eq_some_iff, Option.pure_def,
    Option.some.injEq, Prod.mk.injEq] at h
  obtain ⟨fields, hr, _, _, found, ⟨value, hl, hv⟩, _, rfl⟩ := h
  have := sizeOf_record hr hl
  cases value <;> simp only [Json.list?, reduceCtorEq, Option.some.injEq] at hv
  subst hv
  have := List.sizeOf_lt_of_mem hi
  simp at *
  omega

end Preset

namespace PresetItem

def ofJson? (json : Json) : Option PresetItem :=
  match json with
  | .str x => some (.name x)
  | json =>
    let asParts := (json.listOf? Json.string?).map PresetItem.parts
    let asPreset : Option PresetItem := match _ : Preset.parts? json with
      | none => none
      | some (shared, items) => do
        let items ← items.attach.mapM fun item => ofJson? item.val
        return .nested shared items
    let asEntry := (PresetEntry.ofJson? json).map PresetItem.entry
    (asParts.or asPreset).or asEntry
termination_by sizeOf json
decreasing_by exact Preset.sizeOf_of_mem_parts? ‹_› item.property

mutual

def toJson : PresetItem → Json
  | .name x => .str x
  | .parts xs => .arr (xs.map .str)
  | .nested shared items => shared.toJson (.arr (toJsonAll items))
  | .entry e => e.toJson

def toJsonAll : List PresetItem → List Json
  | [] => []
  | item :: items => toJson item :: toJsonAll items

end

end PresetItem

namespace Preset

/-- Items are read as a whole before their kind is found, so all their parts must be representable. -/
def ofJson? (json : Json) : Option Preset := do
  let (shared, items) ← parts? json
  if items.all Json.isRepresentable then
    return ⟨shared, ← items.mapM PresetItem.ofJson?⟩
  else none

def toJson (p : Preset) : Json := p.shared.toJson (.arr (PresetItem.toJsonAll p.items))

def parse? (text : String) : Option Preset := (Json.parse? text).bind ofJson?

end Preset

end ImportWeave
