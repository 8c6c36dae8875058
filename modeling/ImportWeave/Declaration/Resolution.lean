import ImportWeave.Declaration.Basic

/-! # Competing declarations

Of the declarations that bind one name, one is kept. A declaration of the module that already has the
name changes nothing; of two modules the one with the higher priority has it, and of equal ones the
later, which is reported. -/

namespace ImportWeave

/-- Two modules claimed a name with equal priority. -/
structure Conflict where
  name : String
  ignored : String
  used : String
deriving DecidableEq, Repr

def Conflict.message (c : Conflict) : String :=
  "Duplicated imports \"" ++ c.name ++ "\", the one from \"" ++ c.ignored ++
    "\" has been ignored and \"" ++ c.used ++ "\" is used"

/-- The declarations kept so far, and the conflicts met on the way. -/
structure Resolution where
  kept : List Declaration := []
  conflicts : List Conflict := []
deriving DecidableEq

namespace Declaration

/-- Both declarations compete, and for one name. -/
def rivals (d e : Declaration) : Bool :=
  !d.isExempt && !e.isExempt && d.displayName == e.displayName

end Declaration

namespace Resolution

/-- The declaration takes the place of the one that held its name. -/
def supersede (r : Resolution) (d : Declaration) : Resolution :=
  { r with kept := r.kept.filter (fun e => !d.rivals e) ++ [d] }

def report (r : Resolution) (holder d : Declaration) : Resolution :=
  { r with conflicts := r.conflicts ++ [⟨d.displayName, holder.specifier, d.specifier⟩] }

/-- Takes one more declaration into account. -/
def add (r : Resolution) (d : Declaration) : Resolution :=
  match r.kept.find? d.rivals with
  | none => { r with kept := r.kept ++ [d] }
  | some holder =>
    if holder.specifier = d.specifier then r
    else if d.effectivePriority < holder.effectivePriority then r
    else if d.effectivePriority = holder.effectivePriority then (r.report holder d).supersede d
    else r.supersede d

end Resolution

/-- Settles which declarations are kept, in the order in which they came. -/
def resolve (ds : List Declaration) : Resolution := ds.foldl Resolution.add {}

end ImportWeave
