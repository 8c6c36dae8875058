import ImportWeave.Statement.Export

/-! # Ambient type declarations

A declaration file makes the declared names known to a type checker everywhere. Values are declared by
the types of what they are imported from; types are exported again. -/

namespace ImportWeave

structure TypeOptions where
  /-- Overrides the specifier of a declaration. -/
  resolvePath : Declaration → Option String := fun _ => none
  /-- Marks the file as a module. -/
  exportHelper : Bool := true
  /-- Exports the declarations that are for types alone. -/
  reExports : Bool := true

/-- The specifier that types are taken from. An empty override is none. -/
def TypeOptions.specifierOf (options : TypeOptions) (d : Declaration) : String :=
  match options.resolvePath d with
  | some specifier => if specifier = "" then fallback else specifier
  | none => fallback
where
  fallback : String := Specifier.bare (d.typeSpecifier.getD d.specifier)

/-- The lines inside a global declaration. -/
def declareGlobal (lines : List String) : String :=
  "declare global \x7b\n" ++ "\n".intercalate (lines.map ("  " ++ ·)) ++ "\n\x7d"

namespace TypeOptions

/-- The module of a declaration, as an expression of the type language. -/
def importType (options : TypeOptions) (d : Declaration) : String :=
  let specifier := Text.inQuotes (options.specifierOf d)
  if d.hasClause then "import(" ++ specifier ++ ", " ++ Text.braced ["with: " ++ d.clause.render] ++ ")"
  else "import(" ++ specifier ++ ")"

/-- The line that declares a value. -/
def item? (options : TypeOptions) (d : Declaration) : Option String :=
  match d.kind with
  | .sideEffect => none
  | .namespaceObject => d.namespaceAlias.map fun x => typed x ++ options.importType d
  | .wholeModule => some (typed d.displayName ++ options.importType d)
  | .default | .named =>
    some (typed d.displayName ++ options.importType d ++ "[" ++ Text.inQuotes d.name ++ "]")
where
  typed (x : String) : String := "const " ++ x ++ ": typeof "

/-- The lines that declare values, sorted. -/
def items (options : TypeOptions) (ds : List Declaration) : List String :=
  (ds.filterMap options.item?).mergeSort fun a b => decide (a ≤ b)

/-- The file that declares values. -/
def renderValues (options : TypeOptions) (ds : List Declaration) : String :=
  (if options.exportHelper then "export \x7b\x7d\n" else "") ++ declareGlobal (options.items ds)

end TypeOptions

/-- What is exported again from one module: names, and the first namespace object. -/
structure TypeModule where
  object : Option String := none
  named : List NamedBinding := []
deriving DecidableEq, Repr

namespace TypeModule

def add (m : TypeModule) (d : Declaration) : TypeModule :=
  match d.kind with
  | .sideEffect => m
  | .namespaceObject => { m with object := m.object.or d.namespaceAlias }
  | .default | .wholeModule | .named => { m with named := m.named ++ [d.binding] }

/-- A type checker refuses exports inside a global declaration, and is told not to. -/
def ignored (line : String) : List String := ["// @ts-ignore", line]

def exportLines (m : TypeModule) (specifier : String) : List String :=
  (if m.named = [] then [] else
    ignored ("export type " ++ Text.braced (m.named.map (·.renderName .esm)) ++ " from " ++
      Text.inQuotes specifier)) ++
  match m.object with
  | none => []
  | some x => ignored ("export type * as " ++ x ++ " from " ++ Text.inQuotes specifier)

/-- The export lines, and an import that makes a type checker load the module. -/
def lines (m : TypeModule) (specifier : String) : List String :=
  match m.exportLines specifier with
  | [] => []
  | exports => exports ++ ["import(" ++ Text.inQuotes specifier ++ ")"]

end TypeModule

namespace TypeOptions

/-- The modules that types are taken from, in the order of their first declarations. -/
def modules (options : TypeOptions) (ds : List Declaration) : List (String × TypeModule) :=
  ds.foldl (fun ms d => Keyed.update (options.specifierOf d) (fun m => (m.getD {}).add d) ms) []

/-- The block that exports types again. -/
def renderReExports (options : TypeOptions) (ds : List Declaration) : String :=
  "// for type re-export\n" ++
    declareGlobal ((options.modules ds).flatMap fun (specifier, m) => m.lines specifier)

/-- The whole declaration file. -/
def render (options : TypeOptions) (ds : List Declaration) : String :=
  let (types, values) := (ds.filter (!·.disabled)).partition (·.typeOnly)
  options.renderValues values ++
    if options.reExports && !types.isEmpty then "\n" ++ options.renderReExports types else ""

end TypeOptions

end ImportWeave
