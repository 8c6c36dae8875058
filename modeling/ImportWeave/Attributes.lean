import ImportWeave.Json.Quoted
import ImportWeave.Keyed
import ImportWeave.Text.Basic

/-! # Module attributes

The clause of an import statement that tells how its module is to be loaded, as in
`with { type: "json" }`. -/

namespace ImportWeave

/-- Attribute keys with their values, each key once. -/
structure Attributes where
  entries : List (String × String)
  nodup : (Keyed.keys entries).Nodup
deriving DecidableEq

namespace Attributes

theorem eq_of_entries_eq {a b : Attributes} (h : a.entries = b.entries) : a = b := by
  cases a
  cases b
  cases h
  rfl

def empty : Attributes := ⟨[], List.nodup_nil⟩

def isEmpty (attributes : Attributes) : Bool := attributes.entries.isEmpty

def keys (attributes : Attributes) : List String := Keyed.keys attributes.entries

/-- A key that is already there keeps its place and takes the new value. -/
def insert (attributes : Attributes) (key value : String) : Attributes :=
  ⟨Keyed.update key (fun _ => value) attributes.entries,
    Keyed.nodup_keys_update key _ _ attributes.nodup⟩

/-- Inserts the pairs one after the other. -/
def ofList (pairs : List (String × String)) : Attributes :=
  pairs.foldl (fun attributes (key, value) => attributes.insert key value) empty

def isKeyStart (c : Char) : Bool := c.isAlpha || c == '$' || c == '_'

def isKeyPart (c : Char) : Bool := isKeyStart c || c.isDigit

/-- The key can be written without quotation marks. -/
def isBareKey (key : String) : Bool :=
  match key.toList with
  | [] => false
  | c :: cs => isKeyStart c && cs.all isKeyPart

theorem isBareKey_iff {key : String} : isBareKey key = true ↔
    ∃ c cs, key.toList = c :: cs ∧ isKeyStart c = true ∧ ∀ d ∈ cs, isKeyPart d = true := by
  unfold isBareKey
  split
  · next empty => simp [empty]
  · next c cs text =>
      rw [text, Bool.and_eq_true, List.all_eq_true]
      constructor
      · rintro ⟨start, parts⟩
        exact ⟨c, cs, rfl, start, parts⟩
      · rintro ⟨_, _, ⟨⟩, start, parts⟩
        exact ⟨start, parts⟩

def renderKey (key : String) : String := if isBareKey key then key else Json.Quoted.encode key

def renderEntry (entry : String × String) : String :=
  renderKey entry.1 ++ ": " ++ Json.Quoted.encode entry.2

/-- The attributes as an object literal. -/
def render (attributes : Attributes) : String :=
  Text.braced (attributes.entries.map renderEntry)

end Attributes

end ImportWeave
