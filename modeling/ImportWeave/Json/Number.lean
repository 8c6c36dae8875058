/-! # JSON numbers

A number is read as an integer where its text is one and 64 bits hold it, and else as a scaled
coefficient: its leading digits, as many as 64 bits hold, and a power of ten. -/

namespace ImportWeave

/-- A number as it was written. An integer literal keeps its value; every other literal, `-0` among
them, is a coefficient scaled by a power of ten. -/
inductive Number where
  | integer (value : Int)
  | decimal (negative : Bool) (coefficient : Nat) (exponent : Int)
deriving DecidableEq, Repr

namespace Number

def digitValue (c : Char) : Nat := c.toNat - '0'.toNat

/-- Writes digits behind a number as long as 64 bits hold it, and gives the digits that are left. -/
def appendDigits (n : Nat) : List Char → Nat × List Char
  | [] => (n, [])
  | c :: cs =>
    if n * 10 + digitValue c < UInt64.size then appendDigits (n * 10 + digitValue c) cs else (n, c :: cs)

/-- The number written by the digits before and after a decimal point and by an exponent. A digit in
front of the point that the coefficient does not hold still counts as a place. -/
def ofDigits (negative : Bool) (whole fraction : List Char) (exponent : Option Int) : Number :=
  let (head, dropped) := appendDigits 0 whole
  let (coefficient, ignored) := appendDigits head fraction
  if dropped.isEmpty ∧ fraction.isEmpty ∧ exponent.isNone ∧ ¬ (negative ∧ coefficient = 0) then
    .integer (if negative then -(coefficient : Int) else coefficient)
  else
    let places := (dropped.length : Int) - (fraction.length - ignored.length : Nat)
    .decimal negative coefficient (exponent.getD 0 + places)

/-- The number of 53 significant bits that is nearest to `n`. Of two it is the one whose last bit is
zero. -/
def nearest (n : Nat) : Nat :=
  let unit := 1 <<< (n.log2 - 52)
  let below := n / unit
  let excess := 2 * (n % unit)
  if excess < unit ∨ (excess = unit ∧ below % 2 = 0) then below * unit else (below + 1) * unit

/-- The number is a finite double. The coefficient and the power of ten are rounded before they are
multiplied, and the product is rounded again; a power of ten must itself be a double. -/
def isDouble : Number → Bool
  | .integer _ | .decimal _ _ (.negSucc _) => true
  | .decimal _ coefficient (.ofNat e) =>
    coefficient == 0 || (e ≤ 308 && (nearest (nearest coefficient * nearest (Nat.pow 10 e))).log2 < 1024)

end Number

end ImportWeave
