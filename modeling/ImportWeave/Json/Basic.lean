import ImportWeave.Json.Number

/-! # JSON values -/

namespace ImportWeave

/-- A JSON value. The members of an object stand in the order of the text, repeated names included.
`unrepresentable` stands for a value whose text is well formed but which no value corresponds to: a
string with half a surrogate pair, a number beyond all doubles, or too deep a nesting. -/
inductive Json where
  | null
  | bool (value : Bool)
  | num (value : Number)
  | str (value : String)
  | arr (items : List Json)
  | obj (members : List (String × Json))
  | unrepresentable

namespace Json

mutual

/-- No part of the value is unrepresentable. -/
def isRepresentable : Json → Bool
  | .null | .bool _ | .num _ | .str _ => true
  | .arr items => areRepresentable items
  | .obj members => haveRepresentable members
  | .unrepresentable => false

def areRepresentable : List Json → Bool
  | [] => true
  | item :: items => isRepresentable item && areRepresentable items

def haveRepresentable : List (String × Json) → Bool
  | [] => true
  | (_, value) :: members => isRepresentable value && haveRepresentable members

end

end Json

end ImportWeave
