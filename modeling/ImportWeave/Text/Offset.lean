/-! # Byte offsets

Places in a text are counted in bytes of its UTF-8 form. An offset that falls between two characters, or
at an end of the text, is the byte length of a beginning of the text. -/

namespace ImportWeave.Text

def byteLength (cs : List Char) : Nat := cs.foldr (fun c n => c.utf8Size + n) 0

@[simp] theorem byteLength_nil : byteLength [] = 0 := rfl

@[simp] theorem byteLength_cons (c : Char) (cs : List Char) :
    byteLength (c :: cs) = c.utf8Size + byteLength cs := rfl

@[simp] theorem byteLength_append (cs ds : List Char) :
    byteLength (cs ++ ds) = byteLength cs + byteLength ds := by
  induction cs with
  | nil => simp
  | cons c cs ih => rw [List.cons_append, byteLength_cons, byteLength_cons, ih, Nat.add_assoc]

/-- Splits off the longest beginning of at most `n` bytes. -/
def splitAtByte : List Char → Nat → List Char × List Char
  | [], _ => ([], [])
  | c :: cs, n =>
    if c.utf8Size ≤ n then
      let (before, after) := splitAtByte cs (n - c.utf8Size)
      (c :: before, after)
    else ([], c :: cs)

theorem splitAtByte_append (cs : List Char) (n : Nat) :
    (splitAtByte cs n).1 ++ (splitAtByte cs n).2 = cs := by
  induction cs generalizing n with
  | nil => rfl
  | cons c cs ih =>
      simp only [splitAtByte]
      split
      · simp [ih]
      · rfl

theorem splitAtByte_byteLength (cs ds : List Char) :
    splitAtByte (cs ++ ds) (byteLength cs) = (cs, ds) := by
  induction cs with
  | nil =>
      cases ds with
      | nil => rfl
      | cons d ds =>
          have := d.utf8Size_pos
          rw [List.nil_append, byteLength_nil, splitAtByte, if_neg (by omega)]
  | cons c cs ih =>
      rw [List.cons_append, byteLength_cons, splitAtByte, if_pos (by omega),
        Nat.add_sub_cancel_left, ih]

/-- The greatest offset between characters that is at most `n`. -/
def floorOffset (cs : List Char) (n : Nat) : Nat := byteLength (splitAtByte cs n).1

@[simp] theorem floorOffset_byteLength (cs ds : List Char) :
    floorOffset (cs ++ ds) (byteLength cs) = byteLength cs := by
  rw [floorOffset, splitAtByte_byteLength]

/-- The part from byte `start` to byte `stop`, if both fall between characters and are in order. -/
def slice? (cs : List Char) (start stop : Nat) : Option (List Char) :=
  let upTo := (splitAtByte cs stop).1
  let (before, part) := splitAtByte upTo start
  if byteLength upTo = stop ∧ byteLength before = start then some part else none

theorem slice?_eq_some_iff {cs part : List Char} {start stop : Nat} :
    slice? cs start stop = some part ↔
      ∃ before after, cs = before ++ part ++ after ∧ byteLength before = start ∧
        byteLength (before ++ part) = stop := by
  constructor
  · intro h
    simp only [slice?] at h
    split at h
    · next hb =>
        obtain ⟨hstop, hstart⟩ := hb
        have hpart := Option.some.inj h
        subst hpart
        have houter := splitAtByte_append cs stop
        have hinner := splitAtByte_append (splitAtByte cs stop).1 start
        exact ⟨_, (splitAtByte cs stop).2, by rw [hinner, houter], hstart, by rw [hinner, hstop]⟩
    · simp at h
  · rintro ⟨before, after, rfl, rfl, rfl⟩
    simp only [slice?]
    rw [splitAtByte_byteLength (before ++ part) after, splitAtByte_byteLength before part]
    simp

end ImportWeave.Text
