import ImportWeave.Attributes

/-! # Declarations

A declaration asks for one binding of one module. -/

namespace ImportWeave

/-- What a name is declared as in its own module. -/
inductive DeclaredAs where
  | function
  | classType
  | enumeration
  | constEnumeration
  | letBinding
  | varBinding
  | constBinding
deriving DecidableEq, Repr

namespace DeclaredAs

def all : List DeclaredAs :=
  [.function, .classType, .enumeration, .constEnumeration, .letBinding, .varBinding, .constBinding]

def keyword : DeclaredAs → String
  | .function => "function"
  | .classType => "class"
  | .enumeration => "enum"
  | .constEnumeration => "const enum"
  | .letBinding => "let"
  | .varBinding => "var"
  | .constBinding => "const"

def ofKeyword? (keyword : String) : Option DeclaredAs := all.find? (·.keyword == keyword)

/-- Enumerations of one name are merged, so they do not compete for it. -/
def isEnumeration : DeclaredAs → Bool
  | .enumeration | .constEnumeration => true
  | _ => false

@[simp] theorem ofKeyword?_keyword (d : DeclaredAs) : ofKeyword? d.keyword = some d := by
  cases d <;> rfl

end DeclaredAs

/-- How a declaration is bound in the importing module. -/
inductive BindingKind where
  | sideEffect
  | default
  | wholeModule
  | namespaceObject
  | named
deriving DecidableEq, Repr

/-- A binding of the module `specifier`. Four names are special: the empty one asks for the effects of
the module alone, `default` for its default export, `=` for the module as a whole, and `*` for its
namespace object. -/
structure Declaration where
  name : String := ""
  /-- The name in the importing module, where it differs from `name`. -/
  localAlias : Option String := none
  specifier : String
  /-- The specifier to use in place of `specifier` where only types are concerned. -/
  typeSpecifier : Option String := none
  typeOnly : Bool := false
  declaredAs : Option DeclaredAs := none
  disabled : Bool := false
  priority : Option Int32 := none
  attributes : Option Attributes := none
deriving DecidableEq

namespace Declaration

def sideEffect (specifier : String) : Declaration := { specifier }

/-- Adds an attribute to the clause, which is created if there is none. -/
def addAttribute (d : Declaration) (key value : String) : Declaration :=
  { d with attributes := some ((d.attributes.getD .empty).insert key value) }

def defaultPriority : Int32 := 1

/-- The name in the importing module. -/
def displayName (d : Declaration) : String := d.localAlias.getD d.name

def effectivePriority (d : Declaration) : Int32 := d.priority.getD defaultPriority

def kind (d : Declaration) : BindingKind :=
  if d.name = "" ∨ d.localAlias = some "" then .sideEffect
  else if d.name = "default" then .default
  else if d.name = "=" then .wholeModule
  else if d.name = "*" then .namespaceObject
  else .named

/-- The name that a namespace object can be bound to. The alias `*` comes of filling in the name, and
is no name to bind. -/
def namespaceAlias (d : Declaration) : Option String :=
  d.localAlias.filter fun a => a ≠ "" ∧ a ≠ "*"

/-- The declaration does not compete for its name. -/
def isExempt (d : Declaration) : Bool := d.disabled || d.declaredAs.any DeclaredAs.isEnumeration

/-- The attributes to write. An empty clause is not written. -/
def clause (d : Declaration) : Attributes := d.attributes.getD .empty

def hasClause (d : Declaration) : Bool := !d.clause.isEmpty

/-- Takes part in value imports: not disabled, and not for types alone unless these are included. -/
def isEmitted (includeTypes : Bool) (d : Declaration) : Bool :=
  !d.disabled && (includeTypes || !d.typeOnly)

/-- Fills in the alias. -/
def normalize (d : Declaration) : Declaration :=
  { d with localAlias := some d.displayName }

end Declaration

/-! ## Declarations by module -/

/-- The specifiers of the modules, in the order of their first declarations, each with its
declarations. -/
abbrev ModuleGroups := List (String × List Declaration)

namespace ModuleGroups

def add (groups : ModuleGroups) (d : Declaration) : ModuleGroups :=
  Keyed.update d.specifier (fun group => group.getD [] ++ [d]) groups

/-- Groups the declarations that take part in value imports. -/
def ofDeclarations (includeTypes : Bool) (ds : List Declaration) : ModuleGroups :=
  (ds.filter (·.isEmitted includeTypes)).foldl add []

end ModuleGroups

end ImportWeave
