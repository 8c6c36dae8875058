import ImportWeave.Declaration.Basic
import ImportWeave.Text.Basic

/-! # Valid declarations -/

namespace ImportWeave

/-- Why a declaration, or an item of a preset, is refused. -/
inductive DeclarationError where
  | emptySpecifier (name : String)
  | aliasRequired (name specifier : String)
  | emptyAttributeKey (specifier : String)
  | emptyPresetEntry (specifier : String)
deriving DecidableEq, Repr

def DeclarationError.message : DeclarationError → String
  | .emptySpecifier name => "declaration `" ++ name ++ "` has an empty module specifier"
  | .aliasRequired name specifier =>
    "`" ++ name ++ "` import from '" ++ specifier ++ "' needs a local alias"
  | .emptyAttributeKey specifier =>
    "module attribute clause on import from '" ++ specifier ++ "' has an empty key"
  | .emptyPresetEntry specifier => "preset entry from '" ++ specifier ++ "' is an empty name list"

namespace Declaration

/-- A binding that is not for types alone has no name that could be bound. -/
def lacksAlias (d : Declaration) : Bool :=
  match d.kind with
  | .namespaceObject => d.namespaceAlias.isNone
  | .default | .wholeModule =>
    d.localAlias = none ∨ d.localAlias = some "default" ∨ d.localAlias = some "="
  | .sideEffect | .named => false

/-- Accepts a declaration for which a well-formed statement can be written. -/
def validate (d : Declaration) : Except DeclarationError Unit :=
  if Text.isBlank d.specifier.toList then .error (.emptySpecifier d.name)
  else if "" ∈ d.clause.keys then .error (.emptyAttributeKey d.specifier)
  else if !d.typeOnly && d.lacksAlias then .error (.aliasRequired d.name d.specifier)
  else .ok ()

end Declaration

end ImportWeave
