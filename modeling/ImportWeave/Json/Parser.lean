import ImportWeave.Json.Token

/-! # Reading JSON

A text is read token by token. The containers that are open at some point of it stand on a stack,
the innermost first. -/

namespace ImportWeave.Json

/-- Containers nested deeper than this are unrepresentable. -/
def maxDepth : Nat := 127

namespace Parser

/-- An open container, with what it holds so far, last first. A name is none if it is not
representable. -/
inductive Frame where
  | arr (items : List Json)
  | obj (members : List (Option String × Json)) (name : Option String)

/-- What may come next. -/
inductive State where
  /-- A value. -/
  | value (stack : List Frame)
  /-- The first item of an array, or its end. -/
  | firstItem (outer : List Frame)
  /-- The first name of an object, or its end. -/
  | firstName (outer : List Frame)
  /-- The next name of an object. -/
  | name (members : List (Option String × Json)) (outer : List Frame)
  /-- The colon after a name. -/
  | colon (members : List (Option String × Json)) (name : Option String) (outer : List Frame)
  /-- A comma, or the end of the innermost container. -/
  | separator (stack : List Frame)
  /-- Nothing more. -/
  | done (value : Json)

def array (items : List Json) (outer : List Frame) : Json :=
  if outer.length < maxDepth then .arr items.reverse else .unrepresentable

def object (members : List (Option String × Json)) (outer : List Frame) : Json :=
  match members.reverse.mapM fun (name, value) => name.map (·, value) with
  | some members => if outer.length < maxDepth then .obj members else .unrepresentable
  | none => .unrepresentable

/-- After a whole value. -/
def push (value : Json) : List Frame → State
  | [] => .done value
  | .arr items :: outer => .separator (.arr (value :: items) :: outer)
  | .obj members name :: outer => .separator (.obj ((name, value) :: members) none :: outer)

/-- Where a value may begin. -/
def value? (stack : List Frame) : Token → Option State
  | .null => some (push .null stack)
  | .bool b => some (push (.bool b) stack)
  | .num n => some (push (if n.isDouble then .num n else .unrepresentable) stack)
  | .str (some s) => some (push (.str s) stack)
  | .str none => some (push .unrepresentable stack)
  | .openArr => some (.firstItem stack)
  | .openObj => some (.firstName stack)
  | .closeArr | .closeObj | .colon | .comma => none

def step : State → Token → Option State
  | .value stack, token => value? stack token
  | .firstItem outer, .closeArr => some (push (array [] outer) outer)
  | .firstItem outer, token => value? (.arr [] :: outer) token
  | .firstName outer, .closeObj => some (push (object [] outer) outer)
  | .firstName outer, .str name => some (.colon [] name outer)
  | .name members outer, .str name => some (.colon members name outer)
  | .colon members name outer, .colon => some (.value (.obj members name :: outer))
  | .separator (.arr items :: outer), .comma => some (.value (.arr items :: outer))
  | .separator (.arr items :: outer), .closeArr => some (push (array items outer) outer)
  | .separator (.obj members _ :: outer), .comma => some (.name members outer)
  | .separator (.obj members _ :: outer), .closeObj => some (push (object members outer) outer)
  | _, _ => none

end Parser

/-- The value that a text writes. -/
def parse? (text : String) : Option Json := do
  let tokens ← Token.scan text.toList
  match ← tokens.foldlM Parser.step (.value []) with
  | .done value => some value
  | _ => none

end ImportWeave.Json
