import ImportWeave.Proofs.Overlay.Pieces
import Mathlib.Data.List.Induction
import Mathlib.Order.Bounds.Defs

/-! # Edits of an overlay

An overlay takes its edits one after the other and keeps them in three parts. Which part an edit goes to
depends on the place in the text that it settles at, and at each place the edits stay in the order in which
they came. -/

namespace ImportWeave

namespace Text

theorem floorOffset_le (cs : List Char) (n : Nat) : floorOffset cs n ≤ n := by
  unfold floorOffset
  induction cs generalizing n with
  | nil => exact Nat.zero_le n
  | cons c cs ih =>
      rw [splitAtByte]
      split
      · have := ih (n - c.utf8Size)
        simp only [byteLength_cons]
        omega
      · exact Nat.zero_le n

theorem byteLength_le_floorOffset (front after : List Char) {n : Nat} (h : byteLength front ≤ n) :
    byteLength front ≤ floorOffset (front ++ after) n := by
  unfold floorOffset
  induction front generalizing n with
  | nil => exact Nat.zero_le _
  | cons c front ih =>
      rw [byteLength_cons] at h
      rw [List.cons_append, splitAtByte, if_pos (by omega)]
      have := ih (n := n - c.utf8Size) (by omega)
      simp only [byteLength_cons]
      omega

theorem IsOffset.le_byteLength {cs : List Char} {n : Nat} (h : IsOffset cs n) : n ≤ byteLength cs := by
  obtain ⟨front, after, rfl, rfl⟩ := isOffset_iff.mp h
  rw [byteLength_append]
  exact Nat.le_add_right _ _

/-- Of the offsets between characters, it is the greatest that is not beyond `n` and not beyond the text. -/
theorem isGreatest_floorOffset (cs : List Char) (n : Nat) :
    IsGreatest {q | (∃ front after, cs = front ++ after ∧ q = byteLength front) ∧
      q ≤ min n (byteLength cs)} (floorOffset cs n) := by
  have offset := isOffset_floorOffset cs n
  refine ⟨⟨isOffset_iff.mp offset, Nat.le_min.mpr ⟨floorOffset_le cs n, offset.le_byteLength⟩⟩, ?_⟩
  rintro q ⟨⟨front, after, rfl, rfl⟩, le⟩
  exact byteLength_le_floorOffset front after (Nat.le_trans le (Nat.min_le_left ..))

end Text

/-- A place that text is inserted at. -/
inductive Spot where
  /-- Before all other text. -/
  | front
  | left (offset : Nat)
  | right (offset : Nat)
  /-- After all other text. -/
  | back
deriving DecidableEq, Repr

/-- The place in `base` that is meant. An offset falls back to the end of a character, and at the end of
the text the right side is where text is appended. -/
def Spot.settle (base : String) : Spot → Spot
  | .front => .front
  | .left offset => .left (Text.floorOffset base.toList offset)
  | .right offset =>
    if Text.floorOffset base.toList offset = Text.byteLength base.toList then .back
    else .right (Text.floorOffset base.toList offset)
  | .back => .back

@[simp] theorem Spot.settle_back (base : String) : Spot.back.settle base = .back := rfl

structure Edit where
  spot : Spot
  text : String
deriving DecidableEq, Repr

namespace Edit

def settlesAt (base : String) (spot : Spot) (e : Edit) : Bool := e.spot.settle base = spot

/-- The texts of the edits with a property, in their order. -/
def textsOf (p : Edit → Bool) (edits : List Edit) : List String := (edits.filter p).map text

/-- The texts of the edits that settle at a place, in their order. -/
def textsAt (base : String) (spot : Spot) (edits : List Edit) : List String :=
  textsOf (settlesAt base spot) edits

/-- What an overlay records of an edit that settles inside the text. -/
def insertion? (base : String) (e : Edit) : Option Insertion :=
  match e.spot.settle base with
  | .front | .left 0 | .back => none
  | .left (offset + 1) => some ⟨offset + 1, .left, e.text⟩
  | .right offset => some ⟨offset, .right, e.text⟩

variable {base : String} {spot : Spot}

@[simp] theorem textsOf_cons (p : Edit → Bool) (e : Edit) (edits : List Edit) :
    textsOf p (e :: edits) = (if p e then [e.text] else []) ++ textsOf p edits := by
  cases h : p e <;> simp [textsOf, h]

@[simp] theorem textsOf_append (p : Edit → Bool) (edits edits' : List Edit) :
    textsOf p (edits ++ edits') = textsOf p edits ++ textsOf p edits' := by
  simp [textsOf]

@[simp] theorem textsAt_nil : textsAt base spot [] = [] := rfl

@[simp] theorem textsAt_cons (e : Edit) (edits : List Edit) :
    textsAt base spot (e :: edits) =
      (if e.spot.settle base = spot then [e.text] else []) ++ textsAt base spot edits := by
  rw [textsAt, textsOf_cons]
  simp only [settlesAt, decide_eq_true_eq, textsAt]

@[simp] theorem textsAt_append (edits edits' : List Edit) :
    textsAt base spot (edits ++ edits') = textsAt base spot edits ++ textsAt base spot edits' :=
  textsOf_append _ edits edits'

theorem isOffset_of_settle_left {s : Spot} {offset : Nat} (h : s.settle base = .left offset) :
    Text.IsOffset base.toList offset := by
  cases s with
  | front | back => cases h
  | left n =>
      obtain rfl := Spot.left.inj h
      exact Text.isOffset_floorOffset _ _
  | right n =>
      rw [Spot.settle] at h
      split at h <;> cases h

theorem isOffset_of_settle_right {s : Spot} {offset : Nat} (h : s.settle base = .right offset) :
    Text.IsOffset base.toList offset ∧ offset ≠ Text.byteLength base.toList := by
  cases s with
  | front | left n | back => cases h
  | right n =>
      rw [Spot.settle] at h
      split at h
      · cases h
      · next inside =>
          obtain rfl := Spot.right.inj h
          exact ⟨Text.isOffset_floorOffset _ _, inside⟩

end Edit

namespace Overlay

def record (o : Overlay) (e : Edit) : Overlay :=
  match e.spot with
  | .front => o.prepend e.text
  | .left offset => o.appendLeft offset e.text
  | .right offset => o.appendRight offset e.text
  | .back => o.append e.text

/-- The overlay of a text after the edits. -/
def ofEdits (base : String) (edits : List Edit) : Overlay := edits.foldl record (ofString base)

theorem ofEdits_append (base : String) (edits edits' : List Edit) :
    ofEdits base (edits ++ edits') = edits'.foldl record (ofEdits base edits) :=
  List.foldl_append

theorem ofEdits_concat (base : String) (edits : List Edit) (e : Edit) :
    ofEdits base (edits ++ [e]) = (ofEdits base edits).record e := by
  simp [ofEdits]

/-- What an overlay holds after the edits: the front ends with what settles left of the whole text, the
back has all that settles at the end but left of it, and the rest is recorded as insertions. The induction
is on the edits from the last one. -/
theorem ofEdits_eq (base : String) (edits : List Edit) :
    ofEdits base edits =
      { base
        intro := String.join
          ((Edit.textsAt base .front edits).reverse ++ Edit.textsAt base (.left 0) edits)
        outro := String.join (Edit.textsAt base .back edits)
        insertions := edits.filterMap (Edit.insertion? base) } := by
  induction edits using List.reverseRecOn with
  | nil => rfl
  | append_singleton edits e ih =>
      rw [ofEdits_concat, ih]
      rcases e with ⟨spot, text⟩
      cases spot with
      | front => simp [record, prepend, Spot.settle, Edit.insertion?]
      | back => simp [record, append, Spot.settle, Edit.insertion?]
      | left n =>
          simp only [record, appendLeft, clamp]
          by_cases h : Text.floorOffset base.toList n = 0
          · simp [Spot.settle, Edit.insertion?, h, ← String.append_assoc]
          · obtain ⟨k, h⟩ := Nat.exists_eq_succ_of_ne_zero h
            simp [Spot.settle, Edit.insertion?, h]
      | right n =>
          simp only [record, appendRight, clamp, size]
          by_cases h : Text.floorOffset base.toList n = Text.byteLength base.toList
          · simp [Spot.settle, Edit.insertion?, h]
          · simp [Spot.settle, Edit.insertion?, h]

end Overlay

end ImportWeave
