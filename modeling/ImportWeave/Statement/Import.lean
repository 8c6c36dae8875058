import ImportWeave.Declaration.Basic
import ImportWeave.Text.Basic

/-! # Import statements -/

namespace ImportWeave

/-- The form of the statements: those of modules, or calls of `require`. -/
inductive Dialect where
  | esm
  | commonjs
deriving DecidableEq, Repr

def typeModifier (typeOnly : Bool) : String := if typeOnly then "type " else ""

/-- A name between the braces of a statement. -/
structure NamedBinding where
  typeOnly : Bool
  name : String
  localAlias : Option String
deriving DecidableEq, Repr

namespace NamedBinding

/-- The name, followed by its alias if that is another one. -/
def renderName (dialect : Dialect) (b : NamedBinding) : String :=
  match b.localAlias with
  | none => b.name
  | some a =>
    if a = b.name then b.name
    else match dialect with
      | .esm => b.name ++ " as " ++ a
      | .commonjs => b.name ++ ": " ++ a

def render (dialect : Dialect) (b : NamedBinding) : String :=
  typeModifier b.typeOnly ++ b.renderName dialect

end NamedBinding

def Declaration.binding (d : Declaration) : NamedBinding := ⟨d.typeOnly, d.name, d.localAlias⟩

/-- What a statement binds. -/
inductive ImportForm where
  | sideEffect
  | default (typeOnly : Bool) (localName : String)
  | wholeModule (typeOnly : Bool) (localName : String)
  | namespaceObject (typeOnly : Bool) (localName : String)
  | named (bindings : List NamedBinding)
deriving DecidableEq, Repr

/-- The names that a statement of this form binds in the importing module. -/
def ImportForm.localNames : ImportForm → List String
  | .sideEffect => []
  | .default _ x | .wholeModule _ x | .namespaceObject _ x => [x]
  | .named bindings => bindings.map fun b => b.localAlias.getD b.name

structure ImportStatement where
  form : ImportForm
  specifier : String
  clause : Attributes := .empty
deriving DecidableEq

namespace ImportStatement

/-- The attribute clause, if it is not empty, and the final semicolon. -/
def renderEnd (clause : Attributes) : String :=
  (if clause.isEmpty then "" else " with " ++ clause.render) ++ ";"

/-- What stands between `import` and the specifier in a module. -/
def renderForm : ImportForm → String
  | .sideEffect => ""
  | .default t x | .wholeModule t x => typeModifier t ++ x ++ " from "
  | .namespaceObject t x => typeModifier t ++ "* as " ++ x ++ " from "
  | .named bindings => Text.braced (bindings.map (·.render .esm)) ++ " from "

/-- What stands before the call of `require`. -/
def renderTarget : ImportForm → String
  | .sideEffect => ""
  | .default _ x => "const " ++ Text.braced ["default: " ++ x] ++ " = "
  | .wholeModule _ x | .namespaceObject _ x => "const " ++ x ++ " = "
  | .named bindings => "const " ++ Text.braced (bindings.map (·.render .commonjs)) ++ " = "

def render : Dialect → ImportStatement → String
  | .esm, s =>
    "import " ++ renderForm s.form ++ Text.inQuotes s.specifier ++ renderEnd s.clause
  | .commonjs, s => renderTarget s.form ++ "require(" ++ Text.inQuotes s.specifier ++ ");"

end ImportStatement

namespace Declaration

/-- The declaration shares a statement with others: a call of `require` has no attributes that could
keep them apart. -/
def isBatched (dialect : Dialect) (d : Declaration) : Bool :=
  d.kind == .named && (dialect == .commonjs || !d.hasClause)

/-- The form of the declaration's own statement, if it has one. -/
def ownForm? (dialect : Dialect) (d : Declaration) : Option ImportForm :=
  match d.kind with
  | .sideEffect => if d.typeOnly then none else some .sideEffect
  | .default => some (.default d.typeOnly d.displayName)
  | .wholeModule => some (.wholeModule d.typeOnly d.displayName)
  | .namespaceObject => d.namespaceAlias.map (.namespaceObject d.typeOnly)
  | .named => if d.isBatched dialect then none else some (.named [d.binding])

end Declaration

namespace ImportStatement

/-- The statements of one module: those of single declarations in their order, then the one that the
others share. A call of `require` binds no types. -/
def ofModule (dialect : Dialect) (specifier : String) (ds : List Declaration) :
    List ImportStatement :=
  let ds := if dialect = .commonjs then ds.filter (!·.typeOnly) else ds
  let own := ds.filterMap fun d =>
    (d.ownForm? dialect).map fun form => { form, specifier, clause := d.clause }
  match ds.filter (·.isBatched dialect) with
  | [] => own
  | batch => own ++ [{ form := .named (batch.map Declaration.binding), specifier }]

def ofDeclarations (dialect : Dialect) (includeTypes : Bool) (ds : List Declaration) :
    List ImportStatement :=
  (ModuleGroups.ofDeclarations includeTypes ds).flatMap fun (specifier, group) =>
    ofModule dialect specifier group

end ImportStatement

/-- The statements that import the declarations, one on a line. -/
def renderImports (dialect : Dialect) (includeTypes : Bool) (ds : List Declaration) : String :=
  "\n".intercalate
    ((ImportStatement.ofDeclarations dialect includeTypes ds).map (·.render dialect))

end ImportWeave
