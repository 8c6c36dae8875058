import ImportWeave.Proofs.Overlay.ByOffset

/-! # One more edit

An edit puts its text in at the offset where it settles, between two parts of the text that was there
without it, and changes neither of them. -/

namespace ImportWeave

namespace Piece

@[simp] theorem render_nil : render [] = [] := rfl
@[simp] theorem source_nil : source [] = [] := rfl

/-- The gaps between characters, as blocks. -/
theorem exists_render_interleave (gap : Nat → List Char) (offset : Nat) (cs : List Char) :
    ∃ ps, render ps = Text.interleave gap offset cs ∧ source ps = cs := by
  induction cs generalizing offset with
  | nil => exact ⟨[.block (String.ofList (gap offset))], by simp [Text.interleave], rfl⟩
  | cons c cs ih =>
      obtain ⟨ps, text, kept⟩ := ih (offset + c.utf8Size)
      refine ⟨.block (String.ofList (gap offset)) :: .kept c :: ps, ?_, ?_⟩
      · simp [Text.interleave, text]
      · simp [kept]

/-- A text that is put into one gap comes between two lists of pieces, of which the first has the
characters in front of the gap. The induction is on these characters. -/
theorem exists_render_gap {gap gap' : Nat → List Char} {left right : List Char} {text : String}
    (front rest : List Char) {offset : Nat}
    (here : gap (offset + Text.byteLength front) = left ++ right)
    (here' : gap' (offset + Text.byteLength front) = left ++ text.toList ++ right)
    (elsewhere : ∀ n, n ≠ offset + Text.byteLength front → gap' n = gap n) :
    ∃ ps qs, Text.interleave gap offset (front ++ rest) = render (ps ++ qs) ∧
      Text.interleave gap' offset (front ++ rest) = render (ps ++ .block text :: qs) ∧
      source ps = front ∧ source qs = rest := by
  induction front generalizing offset with
  | nil =>
      rw [Text.byteLength_nil, Nat.add_zero] at here here' elsewhere
      cases rest with
      | nil =>
          refine ⟨[.block (String.ofList left)], [.block (String.ofList right)], ?_, ?_, rfl, rfl⟩
          · simp [Text.interleave, here]
          · simp [Text.interleave, here']
      | cons c cs =>
          have later : Text.interleave gap' (offset + c.utf8Size) cs =
              Text.interleave gap (offset + c.utf8Size) cs := by
            have pos := c.utf8Size_pos
            exact Text.interleave_congr cs fun n le => elsewhere n (by omega)
          obtain ⟨ps, rendered, kept⟩ := exists_render_interleave gap (offset + c.utf8Size) cs
          refine ⟨[.block (String.ofList left)], .block (String.ofList right) :: .kept c :: ps,
            ?_, ?_, rfl, ?_⟩
          · simp [Text.interleave, here, rendered]
          · simp [Text.interleave, here', later, rendered]
          · simp [kept]
  | cons c front ih =>
      have shift : offset + Text.byteLength (c :: front) =
          offset + c.utf8Size + Text.byteLength front := by
        rw [Text.byteLength_cons, Nat.add_assoc]
      rw [shift] at here here' elsewhere
      obtain ⟨ps, qs, before, after, hps, hqs⟩ := ih here here' elsewhere
      have first : gap' offset = gap offset := by
        have pos := c.utf8Size_pos
        exact elsewhere offset (by omega)
      refine ⟨.block (String.ofList (gap offset)) :: .kept c :: ps, qs, ?_, ?_, ?_, hqs⟩
      · simp [Text.interleave, before]
      · simp [Text.interleave, after, first]
      · simp [hps]

end Piece

/-- The offset in `base` that text at this place comes behind. -/
def Spot.offsetIn (base : String) : Spot → Nat
  | .front => 0
  | .left n | .right n => Text.floorOffset base.toList n
  | .back => Text.byteLength base.toList

theorem Spot.offsetIn_settle (base : String) (spot : Spot) :
    (spot.settle base).offsetIn base = spot.offsetIn base := by
  have floor (n : Nat) := Text.isOffset_floorOffset base.toList n
  cases spot with
  | front | back => rfl
  | left n => exact floor n
  | right n =>
      rw [settle]
      split
      · next last => exact last.symm
      · exact floor n

namespace Overlay

/-- The text of `o'` is that of `o` with `text` put in, behind as many bytes of the base as `offset`
says. -/
def Inserts (o o' : Overlay) (offset : Nat) (text : String) : Prop :=
  ∃ ps qs, o.text? = some (String.ofList (Piece.render (ps ++ qs))) ∧
    o'.text? = some (String.ofList (Piece.render (ps ++ .block text :: qs))) ∧
    Piece.source (ps ++ qs) = o.base.toList ∧ Text.byteLength (Piece.source ps) = offset

section

variable (base : String) (edits : List Edit)

theorem base_ofEdits : (ofEdits base edits).base = base := by rw [ofEdits_eq]

theorem exists_pieces_ofEdits :
    ∃ ps, (ofEdits base edits).text? = some (String.ofList (Piece.render ps)) ∧
      Piece.source ps = base.toList := by
  obtain ⟨ps, rendered, kept⟩ :=
    Piece.exists_render_interleave (Edit.gap base edits) 0 base.toList
  refine ⟨.block (String.join (Edit.textsAt base .front edits).reverse) :: ps ++
    [.block (String.join (Edit.textsAt base .back edits))], ?_, by simp [kept]⟩
  rw [text?_ofEdits, ← rendered, Option.some.injEq, ← String.toList_inj]
  simp

variable {base edits} {e : Edit}

/-- An edit adds its text where it settles. -/
theorem textsAt_concat_of_eq {spot : Spot} (h : e.spot.settle base = spot) :
    Edit.textsAt base spot (edits ++ [e]) = Edit.textsAt base spot edits ++ [e.text] := by
  simp [h]

/-- An edit adds nothing where it does not settle. -/
theorem textsAt_concat_of_ne {spot : Spot} (h : e.spot.settle base ≠ spot) :
    Edit.textsAt base spot (edits ++ [e]) = Edit.textsAt base spot edits := by
  simp [h]

theorem gap_concat_of_ne {n : Nat} (left : e.spot.settle base ≠ .left n)
    (right : e.spot.settle base ≠ .right n) :
    Edit.gap base (edits ++ [e]) n = Edit.gap base edits n := by
  rw [Edit.gap, Edit.gap, textsAt_concat_of_ne left, textsAt_concat_of_ne right]

/-- Text that goes to the front comes before all that is there. -/
theorem text?_concat_front (h : e.spot.settle base = .front) :
    (ofEdits base (edits ++ [e])).text? = (ofEdits base edits).text?.map (e.text ++ ·) := by
  have gaps : Edit.gap base (edits ++ [e]) = Edit.gap base edits :=
    funext fun n => gap_concat_of_ne (by simp [h]) (by simp [h])
  rw [text?_ofEdits, text?_ofEdits, gaps, textsAt_concat_of_eq h, textsAt_concat_of_ne (by simp [h])]
  simp [String.append_assoc]

/-- Text that goes to the back comes after all that is there. -/
theorem text?_concat_back (h : e.spot.settle base = .back) :
    (ofEdits base (edits ++ [e])).text? = (ofEdits base edits).text?.map (· ++ e.text) := by
  have gaps : Edit.gap base (edits ++ [e]) = Edit.gap base edits :=
    funext fun n => gap_concat_of_ne (by simp [h]) (by simp [h])
  rw [text?_ofEdits, text?_ofEdits, gaps, textsAt_concat_of_eq h, textsAt_concat_of_ne (by simp [h])]
  simp [String.append_assoc]

/-- Text that goes to one gap of the base is inserted there. -/
theorem inserts_of_gap {left right : List Char} {n : Nat} (isOffset : Text.IsOffset base.toList n)
    (front : e.spot.settle base ≠ .front) (back : e.spot.settle base ≠ .back)
    (here : Edit.gap base edits n = left ++ right)
    (here' : Edit.gap base (edits ++ [e]) n = left ++ e.text.toList ++ right)
    (elsewhere : ∀ m, m ≠ n → Edit.gap base (edits ++ [e]) m = Edit.gap base edits m) :
    (ofEdits base edits).Inserts (ofEdits base (edits ++ [e])) n e.text := by
  obtain ⟨beginning, rest, split, rfl⟩ := Text.isOffset_iff.mp isOffset
  rw [← Nat.zero_add (Text.byteLength beginning)] at here here' elsewhere
  obtain ⟨ps, qs, woven, woven', hps, hqs⟩ := Piece.exists_render_gap beginning rest here here' elsewhere
  refine ⟨.block (String.join (Edit.textsAt base .front edits).reverse) :: ps,
    qs ++ [.block (String.join (Edit.textsAt base .back edits))], ?_, ?_, ?_, ?_⟩
  · rw [text?_ofEdits, split, woven, Option.some.injEq, ← String.toList_inj]
    simp
  · rw [text?_ofEdits, split, woven', textsAt_concat_of_ne front, textsAt_concat_of_ne back,
      Option.some.injEq, ← String.toList_inj]
    simp
  · rw [base_ofEdits, split]
    simp [hps, hqs]
  · rw [Piece.source_block_cons, hps]

/-- One more edit puts its text in where it settles. -/
theorem inserts_concat (base : String) (edits : List Edit) (e : Edit) :
    (ofEdits base edits).Inserts (ofEdits base (edits ++ [e])) (e.spot.offsetIn base) e.text := by
  obtain ⟨ps, rendered, kept⟩ := exists_pieces_ofEdits base edits
  rw [← Spot.offsetIn_settle]
  cases settled : e.spot.settle base with
  | front =>
      refine ⟨[], ps, rendered, ?_, kept.trans (congrArg _ (base_ofEdits base edits).symm), rfl⟩
      rw [text?_concat_front settled, rendered, Option.map_some, Option.some.injEq, ← String.toList_inj]
      simp
  | left n =>
      have isOffset := Edit.isOffset_of_settle_left settled
      have offset : (Spot.left n).offsetIn base = n := isOffset
      rw [offset]
      refine inserts_of_gap isOffset (by simp [settled]) (by simp [settled]) rfl ?_ ?_
      · rw [Edit.gap, textsAt_concat_of_eq settled, textsAt_concat_of_ne (by simp [settled])]
        simp
      · intro m hm
        exact gap_concat_of_ne (by simp [settled, Ne.symm hm]) (by simp [settled])
  | right n =>
      have isOffset := (Edit.isOffset_of_settle_right settled).1
      have offset : (Spot.right n).offsetIn base = n := isOffset
      rw [offset]
      refine inserts_of_gap isOffset (by simp [settled]) (by simp [settled])
        (List.append_nil _).symm ?_ ?_
      · rw [Edit.gap, textsAt_concat_of_ne (by simp [settled]), textsAt_concat_of_eq settled, Edit.gap]
        simp
      · intro m hm
        exact gap_concat_of_ne (by simp [settled]) (by simp [settled, Ne.symm hm])
  | back =>
      refine ⟨ps, [], ?_, ?_, ?_, ?_⟩
      · rw [List.append_nil, rendered]
      · rw [text?_concat_back settled, rendered, Option.map_some, Option.some.injEq, ← String.toList_inj]
        simp
      · rw [List.append_nil, kept, base_ofEdits]
      · rw [kept]
        rfl

end

end Overlay

end ImportWeave
