import ImportWeave.Preset.Json

/-! # Configurations in JSON -/

namespace ImportWeave

/-- Why no configuration could be had. -/
inductive ConfigError where
  | malformed
  | unreadableFile (path : String)
  | malformedFile (path : String)
deriving DecidableEq, Repr

def ConfigError.message : ConfigError → String
  | .malformed => "failed to parse auto-import config"
  | .unreadableFile path => "failed to read auto-import config: " ++ path
  | .malformedFile path => "failed to load auto-import config: " ++ path

namespace Config

def fieldNames : List String :=
  ["imports", "presets", "commonjs", "mergeExisting", "injectAtEnd", "includeTypes", "exportHelper"]

def ofJson? (json : Json) : Option Config := do
  let fields ← json.record? fieldNames
  return {
    imports := ← Json.fieldOr? [] (Json.listOf? Declaration.ofJson?) "imports" fields
    presets := ← Json.fieldOr? [] (Json.listOf? Preset.ofJson?) "presets" fields
    commonjs := ← Json.fieldOr? false Json.bool? "commonjs" fields
    mergeExisting := ← Json.fieldOr? false Json.bool? "mergeExisting" fields
    injectAtEnd := ← Json.fieldOr? false Json.bool? "injectAtEnd" fields
    includeTypes := ← Json.fieldOr? false Json.bool? "includeTypes" fields
    exportHelper := ← Json.fieldOr? true Json.bool? "exportHelper" fields }

def toJson (c : Config) : Json :=
  .obj [("imports", .arr (c.imports.map Declaration.toJson)),
    ("presets", .arr (c.presets.map Preset.toJson)),
    ("commonjs", .bool c.commonjs),
    ("mergeExisting", .bool c.mergeExisting),
    ("injectAtEnd", .bool c.injectAtEnd),
    ("includeTypes", .bool c.includeTypes),
    ("exportHelper", .bool c.exportHelper)]

def parse (text : String) : Except ConfigError Config :=
  match (Json.parse? text).bind ofJson? with
  | some c => .ok c
  | none => .error .malformed

/-- The configuration in a file of which the content is given, or nothing if there is no such file. -/
def ofFile (path : String) (content : Option ByteArray) : Except ConfigError Config :=
  match content.bind String.fromUTF8? with
  | none => .error (.unreadableFile path)
  | some text => match parse text with
    | .ok c => .ok c
    | .error _ => .error (.malformedFile path)

end Config

end ImportWeave
