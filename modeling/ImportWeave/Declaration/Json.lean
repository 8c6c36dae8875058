import ImportWeave.Declaration.Basic
import ImportWeave.Json.Record

/-! # Declarations in JSON -/

namespace ImportWeave

/-- A keyword, or an object with `null` under the keyword. -/
def DeclaredAs.ofJson? : Json → Option DeclaredAs
  | .str keyword => ofKeyword? keyword
  | .obj [(keyword, .null)] => ofKeyword? keyword
  | _ => none

def DeclaredAs.toJson (d : DeclaredAs) : Json := .str d.keyword

namespace Attributes

/-- An object whose members are all strings. -/
def ofJson? : Json → Option Attributes
  | .obj members => do
    let pairs ← members.mapM fun (key, value) => value.string?.map (key, ·)
    return ofList pairs
  | _ => none

def toJson (attributes : Attributes) : Json :=
  .obj (attributes.entries.map fun (key, value) => (key, .str value))

end Attributes

namespace Declaration

def fieldNames : List String :=
  ["name", "as", "from", "typeFrom", "type", "declarationType", "disabled", "priority", "with"]

def ofJson? (json : Json) : Option Declaration := do
  let fields ← json.record? fieldNames
  return {
    name := ← Json.fieldOr? "" Json.string? "name" fields
    localAlias := ← Json.optionalField? Json.string? "as" fields
    specifier := ← Json.field? Json.string? "from" fields
    typeSpecifier := ← Json.optionalField? Json.string? "typeFrom" fields
    typeOnly := ← Json.fieldOr? false Json.bool? "type" fields
    declaredAs := ← Json.optionalField? DeclaredAs.ofJson? "declarationType" fields
    disabled := ← Json.fieldOr? false Json.bool? "disabled" fields
    priority := ← Json.optionalField? Json.int32? "priority" fields
    attributes := ← Json.optionalField? Attributes.ofJson? "with" fields }

def toJson (d : Declaration) : Json :=
  .obj ([("name", .str d.name)] ++
    Json.member .str "as" d.localAlias ++
    [("from", .str d.specifier)] ++
    Json.member .str "typeFrom" d.typeSpecifier ++
    Json.flag "type" d.typeOnly ++
    Json.member DeclaredAs.toJson "declarationType" d.declaredAs ++
    Json.flag "disabled" d.disabled ++
    Json.member (fun p => .num (.integer p.toInt)) "priority" d.priority ++
    Json.member Attributes.toJson "with" d.attributes)

end Declaration

end ImportWeave
