/-! # Texts

White space, letters, pieces and quotations of a text. A text that is scanned is a list of characters. -/

namespace ImportWeave.Text

/-! ## White space -/

/-- The twenty-five characters of the Unicode property `White_Space`. -/
def isSpace (c : Char) : Bool :=
  (0x09 ≤ c.toNat && c.toNat ≤ 0x0D) || c.toNat == 0x20 || c.toNat == 0x85 || c.toNat == 0xA0 ||
    c.toNat == 0x1680 || (0x2000 ≤ c.toNat && c.toNat ≤ 0x200A) || c.toNat == 0x2028 ||
    c.toNat == 0x2029 || c.toNat == 0x202F || c.toNat == 0x205F || c.toNat == 0x3000

def trimStart (cs : List Char) : List Char := cs.dropWhile isSpace

def trimEnd (cs : List Char) : List Char := (cs.reverse.dropWhile isSpace).reverse

def trim (cs : List Char) : List Char := trimEnd (trimStart cs)

/-- Nothing but white space. -/
def isBlank (cs : List Char) : Bool := cs.all isSpace

@[simp] theorem trimStart_nil : trimStart [] = [] := rfl
@[simp] theorem trimEnd_nil : trimEnd [] = [] := rfl
@[simp] theorem trim_nil : trim [] = [] := rfl
@[simp] theorem isBlank_nil : isBlank [] = true := rfl

/-! ## Letters -/

theorem isAlpha_iff_toNat {c : Char} :
    c.isAlpha = true ↔ (65 ≤ c.toNat ∧ c.toNat ≤ 90) ∨ 97 ≤ c.toNat ∧ c.toNat ≤ 122 := by
  have upper : c.isUpper = true ↔ 65 ≤ c.toNat ∧ c.toNat ≤ 90 := decide_eq_true_iff
  have lower : c.isLower = true ↔ 97 ≤ c.toNat ∧ c.toNat ≤ 122 :=
    Bool.and_eq_true_iff.trans (and_congr decide_eq_true_iff decide_eq_true_iff)
  rw [← upper, ← lower]
  exact Bool.or_eq_true_iff

/-! ## Pieces -/

/-- The pieces between separators: one more than there are separators. -/
def splitOn (isSeparator : Char → Bool) : List Char → List (List Char)
  | [] => [[]]
  | c :: cs =>
    if isSeparator c then [] :: splitOn isSeparator cs
    else match splitOn isSeparator cs with
      | [] => [[c]]
      | piece :: pieces => (c :: piece) :: pieces

/-- What stands before and after the first occurrence of `word`. -/
def splitOnce? (word cs : List Char) : Option (List Char × List Char) :=
  match word.isPrefixOf? cs with
  | some after => some ([], after)
  | none => match cs with
    | [] => none
    | c :: cs => (splitOnce? word cs).map fun (before, after) => (c :: before, after)

/-- The text without `word` at its beginning; all of it, if it does not begin so. -/
def dropWord (word cs : List Char) : List Char := (word.isPrefixOf? cs).getD cs

/-! ## Braces and quotation marks -/

/-- The parts separated by commas, between braces. -/
def braced (parts : List String) : String := "\x7b " ++ ", ".intercalate parts ++ " \x7d"

/-- The text between single quotation marks. -/
def inQuotes (text : String) : String := "\x27" ++ text ++ "\x27"

end ImportWeave.Text
