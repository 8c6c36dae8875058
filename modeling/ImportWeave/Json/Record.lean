import ImportWeave.Json.Basic

/-! # Records in JSON

A record is written as an object, or as an array of its fields in a fixed order. -/

namespace ImportWeave.Json

def string? : Json → Option String
  | .str value => some value
  | _ => none

def bool? : Json → Option Bool
  | .bool value => some value
  | _ => none

/-- An integer literal of 32 bits. -/
def int32? : Json → Option Int32
  | .num (.integer value) =>
    if Int32.minValue.toInt ≤ value ∧ value ≤ Int32.maxValue.toInt then some (Int32.ofInt value)
    else none
  | _ => none

def list? : Json → Option (List Json)
  | .arr items => some items
  | _ => none

/-- A list whose items can all be read. -/
def listOf? {α : Type} (read : Json → Option α) (json : Json) : Option (List α) := do
  (← json.list?).mapM read

/-- Reads `null` as the absence of a value. -/
def nullable? {α : Type} (read : Json → Option α) : Json → Option (Option α)
  | .null => some none
  | json => (read json).map some

/-- The fields of a record by name. An object may hold other members, but no field twice; an array
gives the first fields, and may not be longer than there are fields. -/
def record? (names : List String) : Json → Option (List (String × Json))
  | .obj members =>
    if names.all fun name => members.countP (·.1 == name) ≤ 1 then some members else none
  | .arr items => if items.length ≤ names.length then some (names.zip items) else none
  | _ => none

/-- A field that must be there. -/
def field? {α : Type} (read : Json → Option α) (name : String) (fields : List (String × Json)) :
    Option α :=
  (fields.lookup name).bind read

/-- A field with a value to take where it is missing. -/
def fieldOr? {α : Type} (missing : α) (read : Json → Option α) (name : String)
    (fields : List (String × Json)) : Option α :=
  match fields.lookup name with
  | none => some missing
  | some json => read json

/-- A field that may be missing or `null`. -/
def optionalField? {α : Type} (read : Json → Option α) (name : String)
    (fields : List (String × Json)) : Option (Option α) :=
  fieldOr? none (nullable? read) name fields

/-- The member of a field that is only written when it has a value. -/
def member {α : Type} (write : α → Json) (name : String) : Option α → List (String × Json)
  | none => []
  | some value => [(name, write value)]

/-- The member of a flag that is only written when it is set. -/
def flag (name : String) (value : Bool) : List (String × Json) :=
  if value then [(name, .bool true)] else []

end ImportWeave.Json
