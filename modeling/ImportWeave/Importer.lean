import ImportWeave.Declaration.Resolution
import ImportWeave.Injection
import ImportWeave.Preset.Basic
import ImportWeave.Statement.Types

/-! # Importers

The settled declarations of a configuration, and all that is made of them. -/

namespace ImportWeave

structure Importer where
  config : Config
  declarations : List Declaration

namespace Importer

/-- Flattens the configuration, refuses the first invalid declaration, fills in aliases and settles which
declarations are kept. The conflicts met on the way are given too. -/
def build (config : Config) : Except DeclarationError (Importer × List Conflict) := do
  let ds ← config.declarations
  ds.forM Declaration.validate
  let settled := resolve (ds.map Declaration.normalize)
  return (⟨config, settled.kept⟩, settled.conflicts)

def dialect (i : Importer) : Dialect := if i.config.commonjs then .commonjs else .esm

def moduleGroups (i : Importer) : ModuleGroups :=
  ModuleGroups.ofDeclarations i.config.includeTypes i.declarations

def importStatements (i : Importer) : List ImportStatement :=
  ImportStatement.ofDeclarations i.dialect i.config.includeTypes i.declarations

def imports (i : Importer) : String :=
  renderImports i.dialect i.config.includeTypes i.declarations

/-- The export statements for a file in `fileDir`. -/
def exports (i : Importer) (fileDir : Option String) : String :=
  renderExports fileDir i.config.includeTypes i.declarations

def typeOptions (i : Importer) : TypeOptions := { exportHelper := i.config.exportHelper }

def types (i : Importer) (options : TypeOptions) : String := options.render i.declarations

/-- The configuration overrides the settings that it has. -/
def injectOptions (i : Importer) (options : InjectOptions) : InjectOptions :=
  { options with
    dialect := i.dialect
    includeTypes := i.config.includeTypes
    mergeExisting := i.config.mergeExisting
    injectAtEnd := i.config.injectAtEnd }

/-- Injects some of the declarations. -/
def injectOnly (i : Importer) (options : InjectOptions) (ds : List Declaration) (o : Overlay) :
    Overlay :=
  ImportWeave.inject (i.injectOptions options) ds o

/-- Injects all declarations. -/
def inject (i : Importer) (options : InjectOptions) (o : Overlay) : Overlay :=
  i.injectOnly options i.declarations o

end Importer

end ImportWeave
