import ImportWeave.Json.Basic
import ImportWeave.Json.Quoted

/-! # Writing JSON -/

namespace ImportWeave

def Number.render : Number → String
  | .integer value => toString value
  | .decimal negative coefficient exponent =>
    (if negative then "-" else "") ++ toString coefficient ++ "e" ++ toString exponent

namespace Json

mutual

/-- The value on one line, without gaps. An unrepresentable value has no text and is written as
`null`. -/
def render : Json → String
  | .null | .unrepresentable => "null"
  | .bool true => "true"
  | .bool false => "false"
  | .num value => value.render
  | .str value => Quoted.encode value
  | .arr items => "[" ++ ",".intercalate (renderItems items) ++ "]"
  | .obj members => "\x7b" ++ ",".intercalate (renderMembers members) ++ "\x7d"

def renderItems : List Json → List String
  | [] => []
  | item :: items => render item :: renderItems items

def renderMembers : List (String × Json) → List String
  | [] => []
  | (name, value) :: members => (Quoted.encode name ++ ":" ++ render value) :: renderMembers members

end

end Json

end ImportWeave
