import ImportWeave.Declaration.Validity

/-! # Presets and configurations

A preset lists names of one module, together with what their declarations have in common. A preset
inside another one takes over what it does not set itself. A configuration has declarations and presets. -/

namespace ImportWeave

/-- What the declarations of a preset have in common. -/
structure Shared where
  specifier : String
  typeOnly : Bool := false
  typeSpecifier : Option String := none
  priority : Option Int32 := none
  attributes : Option Attributes := none
deriving DecidableEq

/-- A name with settings of its own. -/
structure PresetEntry where
  name : String
  localAlias : Option String := none
  specifier : Option String := none
  typeOnly : Bool := false
  typeSpecifier : Option String := none
  declaredAs : Option DeclaredAs := none
  disabled : Bool := false
  priority : Option Int32 := none
  attributes : Option Attributes := none
deriving DecidableEq

inductive PresetItem where
  | name (name : String)
  /-- A name, its alias and its specifier, as many of them as are given. -/
  | parts (parts : List String)
  | nested (shared : Shared) (items : List PresetItem)
  | entry (entry : PresetEntry)

structure Preset where
  shared : Shared
  items : List PresetItem

namespace Shared

/-- The settings of a preset inside this one. -/
def inherit (outer inner : Shared) : Shared where
  specifier := inner.specifier
  typeOnly := inner.typeOnly || outer.typeOnly
  typeSpecifier := inner.typeSpecifier.or outer.typeSpecifier
  priority := inner.priority.or outer.priority
  attributes := inner.attributes.or outer.attributes

def declaration (s : Shared) (name : String) : Declaration where
  name
  specifier := s.specifier
  typeSpecifier := s.typeSpecifier
  typeOnly := s.typeOnly
  priority := s.priority
  attributes := s.attributes

def ofParts (s : Shared) : List String → Except DeclarationError Declaration
  | [] => .error (.emptyPresetEntry s.specifier)
  | name :: rest => .ok { s.declaration name with
      localAlias := rest[0]?
      specifier := rest[1]?.getD s.specifier }

def ofEntry (s : Shared) (e : PresetEntry) : Declaration where
  name := e.name
  localAlias := e.localAlias
  specifier := e.specifier.getD s.specifier
  typeSpecifier := e.typeSpecifier.or s.typeSpecifier
  typeOnly := s.typeOnly || e.typeOnly
  declaredAs := e.declaredAs
  disabled := e.disabled
  priority := e.priority.or s.priority
  attributes := e.attributes.or s.attributes

end Shared

/-- Appends declarations to those already there, up to the first item that is refused. -/
abbrev Flattening := EStateM DeclarationError (List Declaration)

namespace Flattening

def append (d : Declaration) : Flattening Unit := modify (· ++ [d])

/-- The declarations in the end, if nothing is refused. -/
def declarations (action : Flattening Unit) (out : List Declaration) :
    Except DeclarationError (List Declaration) :=
  match action.run out with
  | .ok _ ds => .ok ds
  | .error e _ => .error e

end Flattening

namespace PresetItem

mutual

/-- Appends the declarations of an item. -/
def flatten (s : Shared) : PresetItem → Flattening Unit
  | .name x => .append (s.declaration x)
  | .parts xs => do .append (← MonadExcept.ofExcept (s.ofParts xs))
  | .nested inner items => flattenAll (s.inherit inner) items
  | .entry e => .append (s.ofEntry e)

/-- Appends the declarations of the items, one after the other. -/
def flattenAll (s : Shared) : List PresetItem → Flattening Unit
  | [] => pure ()
  | item :: items => do
    flatten s item
    flattenAll s items

end

end PresetItem

namespace Preset

/-- A preset of plain names. -/
def ofNames (specifier : String) (names : List String) : Preset :=
  ⟨{ specifier }, names.map .name⟩

/-- Appends the declarations of the preset. -/
def flatten (p : Preset) : Flattening Unit := PresetItem.flattenAll p.shared p.items

def declarations (p : Preset) : Except DeclarationError (List Declaration) :=
  p.flatten.declarations []

end Preset

/-! ## Configurations -/

structure Config where
  imports : List Declaration := []
  presets : List Preset := []
  /-- Writes calls of `require` in place of import statements. -/
  commonjs : Bool := false
  mergeExisting : Bool := false
  injectAtEnd : Bool := false
  includeTypes : Bool := false
  exportHelper : Bool := true

/-- The declarations listed one by one, then those of the presets. -/
def Config.declarations (c : Config) : Except DeclarationError (List Declaration) :=
  Flattening.declarations (c.presets.forM Preset.flatten) c.imports

end ImportWeave
