import ImportWeave.Specifier.Path
import ImportWeave.Statement.Import

/-! # Export statements -/

namespace ImportWeave

inductive ExportStatement where
  /-- All that a module exports, under one name if there is one. -/
  | namespaceObject (localName : Option String) (specifier : String)
  | named (bindings : List NamedBinding) (specifier : String)
deriving DecidableEq, Repr

namespace ExportStatement

def render : ExportStatement → String
  | .namespaceObject none specifier => "export * from " ++ Text.inQuotes specifier ++ ";"
  | .namespaceObject (some x) specifier =>
    "export * as " ++ x ++ " from " ++ Text.inQuotes specifier ++ ";"
  | .named bindings specifier =>
    "export " ++ Text.braced (bindings.map (·.render .esm)) ++ " from " ++
      Text.inQuotes specifier ++ ";"

end ExportStatement

namespace Specifier

/-- Without its extension, if the specifier names a file. -/
def bare (specifier : String) : String :=
  if isFile specifier then withoutExtension specifier else specifier

/-- Seen from directory `fileDir`: a path that starts at a root becomes relative to it. -/
def seenFrom (fileDir : Option String) (specifier : String) : String :=
  match fileDir with
  | none => specifier
  | some dir =>
    if isAbsolute specifier then
      let path := Path.relative dir specifier
      if path.toList.head? = some '.' ∨ path.toList.head? = some '/' then path else "./" ++ path
    else specifier

end Specifier

namespace ExportStatement

/-- The statements of one module: its namespace objects, then the names that it exports. -/
def ofModule (specifier : String) (ds : List Declaration) : List ExportStatement :=
  let objects := (ds.filter (·.kind = .namespaceObject)).map fun d =>
    .namespaceObject d.namespaceAlias specifier
  match ds.filter fun d => d.kind = .default ∨ d.kind = .named with
  | [] => objects
  | batch => objects ++ [.named (batch.map Declaration.binding) specifier]

def ofDeclarations (fileDir : Option String) (includeTypes : Bool) (ds : List Declaration) :
    List ExportStatement :=
  (ModuleGroups.ofDeclarations includeTypes ds).flatMap fun (specifier, group) =>
    ofModule (Specifier.seenFrom fileDir (Specifier.bare specifier)) group

end ExportStatement

/-- The statements that export the declarations from a file in `fileDir`, one on a line. -/
def renderExports (fileDir : Option String) (includeTypes : Bool) (ds : List Declaration) : String :=
  "\n".intercalate ((ExportStatement.ofDeclarations fileDir includeTypes ds).map (·.render))

end ImportWeave
