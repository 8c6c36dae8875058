import ImportWeave.Overlay
import ImportWeave.Source.Blanking
import ImportWeave.Source.StaticImport
import ImportWeave.Statement.Import

/-! # Injection

Declarations are put into a source as names in the import statements that it has, and as statements of
their own. -/

namespace ImportWeave

structure InjectOptions where
  dialect : Dialect := .esm
  includeTypes : Bool := false
  /-- Adds names to the statements of the source that import from the same module. -/
  mergeExisting : Bool := false
  /-- Puts new statements after those of the source. -/
  injectAtEnd : Bool := false
  /-- The offset that new statements must not come after. -/
  firstOccurrence : Option Nat := none
  locator : String → List StaticImport := StaticImport.locate
  /-- Changes the declarations that get statements of their own. -/
  before : List Declaration → List Declaration := id
  /-- Changes the text of the new statements. -/
  after : String → List Declaration → Option String := fun _ _ => none

/-- The statement is code of the source whose blanked copy is given, not part of a comment or literal. -/
def StaticImport.isLive (blanked : List Char) (i : StaticImport) : Bool :=
  match Text.slice? blanked i.start i.stop with
  | none => false
  | some shown => !Text.isBlank shown

def liveImports (locator : String → List StaticImport) (source : String) : List StaticImport :=
  (locator source).filter (·.isLive (blankSource source).toList)

/-- The offset behind the brace that opens the names of a statement, if it starts with names in
braces. -/
def StaticImport.openingBrace? (code : String) : Option Nat := do
  let afterImport ← "import".toList.isPrefixOf? (Text.trimStart code.toList)
  match Text.trimStart afterImport with
  | '\x7b' :: rest => some (Text.byteLength code.toList - Text.byteLength rest)
  | _ => none

/-! ## Names added to existing statements -/

/-- Declarations whose names go into `target`, at byte `offset` of the source. -/
structure Merge where
  target : StaticImport
  offset : Nat
  declarations : List Declaration
deriving DecidableEq

namespace Merge

/-- The names as they are written, each followed by a comma. -/
def text (m : Merge) : String :=
  let names := m.declarations.flatMap fun d => (d.binding.render .esm ++ ", ").toList
  " " ++ String.ofList (Text.trim names)

def apply (o : Overlay) (m : Merge) : Overlay := o.appendLeft m.offset m.text

end Merge

/-- The statements that take names, and the declarations that need statements of their own. -/
structure MergePlan where
  merges : List Merge
  fresh : List Declaration
deriving DecidableEq

namespace MergePlan

def isMergeable (includeTypes : Bool) (d : Declaration) : Bool :=
  d.isEmitted includeTypes && (d.kind == .named || d.kind == .default)

/-- The first statement that the name of the declaration can go into, with its position. -/
def target? (includeTypes : Bool) (imports : List StaticImport) (d : Declaration) :
    Option (StaticImport × Nat) :=
  if isMergeable includeTypes d then
    imports.zipIdx.find? fun (i, _) => i.specifier == d.specifier && i.hasNamedBrace
  else none

/-- The declarations by the statement that they can go into, statements in the order of their first
declarations. -/
def groups (includeTypes : Bool) (imports : List StaticImport) (ds : List Declaration) :
    List ((StaticImport × Nat) × List Declaration) :=
  ds.foldl (fun groups d => match target? includeTypes imports d with
    | none => groups
    | some target => Keyed.update target (fun group => group.getD [] ++ [d]) groups) []

/-- The names of one statement. -/
def merge? (group : (StaticImport × Nat) × List Declaration) : Option Merge :=
  (StaticImport.openingBrace? group.1.1.code).map fun brace =>
    ⟨group.1.1, group.1.1.start + brace, group.2⟩

/-- Declarations that no statement can take come first among those left over, then those whose statement
has no brace to put them behind. -/
def ofDeclarations (includeTypes : Bool) (imports : List StaticImport) (ds : List Declaration) :
    MergePlan :=
  let groups := groups includeTypes imports ds
  { merges := groups.filterMap merge?
    fresh := ds.filter (fun d => (target? includeTypes imports d).isNone) ++
      (groups.filter fun group => (merge? group).isNone).flatMap (·.2) }

end MergePlan

/-! ## Statements of their own -/

/-- The end of the line that names an interpreter, behind its line feed. -/
def shebangEnd? (source : String) : Option Nat :=
  match source.toList with
  | '#' :: '!' :: _ =>
    some (Text.byteLength (source.toList.takeWhile (· ≠ '\n')) +
      if '\n' ∈ source.toList then 1 else 0)
  | _ => none

/-- The end of the last statement of the source that ends within the bound. -/
def anchor? (firstOccurrence : Option Nat) (imports : List StaticImport) : Option Nat :=
  (imports.reverse.find? fun i => firstOccurrence.all (i.stop ≤ ·)).map (·.stop)

namespace InjectOptions

/-- Splits the declarations. A call of `require` has no statement that could take names. -/
def plan (options : InjectOptions) (source : String) (ds : List Declaration) : MergePlan :=
  if options.mergeExisting && options.dialect == .esm then
    MergePlan.ofDeclarations options.includeTypes (liveImports options.locator source) ds
  else ⟨[], ds⟩

/-- The text of the new statements. -/
def statements (options : InjectOptions) (fresh : List Declaration) : String :=
  let ds := options.before fresh
  let text := renderImports options.dialect options.includeTypes ds
  (options.after text ds).getD text

/-- The offset behind which new statements go, if they do not go to the top. -/
def anchor (options : InjectOptions) (source : String) : Nat :=
  if options.injectAtEnd then
    (anchor? options.firstOccurrence (liveImports options.locator source)).getD 0
  else 0

/-- Puts new statements behind the anchor, or else at the top, below a line that names an
interpreter. -/
def place (options : InjectOptions) (o : Overlay) (statements : String) : Overlay :=
  if statements = "" then o
  else if 0 < options.anchor o.base then
    o.appendRight (options.anchor o.base) ("\n" ++ statements ++ "\n")
  else match shebangEnd? o.base with
    | some lineEnd =>
      if '\n' ∈ o.base.toList then o.appendLeft lineEnd (statements ++ "\n")
      else o.appendLeft lineEnd ("\n" ++ statements ++ "\n")
    | none => o.prepend (statements ++ "\n")

end InjectOptions

/-- Injects the declarations into the text below an overlay. -/
def inject (options : InjectOptions) (ds : List Declaration) (o : Overlay) : Overlay :=
  let plan := options.plan o.base ds
  options.place (plan.merges.foldl Merge.apply o) (options.statements plan.fresh)

end ImportWeave
