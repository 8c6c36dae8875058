import ImportWeave.Proofs.Overlay.ByOffset

/-! # What is prepended and appended

Prepended text comes before all other text of an overlay, whatever the order of the edits is. Appended text
shares its place with text that sticks to the right at the end of the base, so it comes last exactly if no
such text is recorded after it. -/

namespace ImportWeave

namespace Spot

/-- An offset is given. -/
def isPositioned (spot : Spot) : Bool := spot ≠ .front && spot ≠ .back

/-- An offset is given, at which text settles where it is appended. -/
def isAtEnd (base : String) (spot : Spot) : Bool := spot ≠ .back && spot.settle base = .back

variable {base : String} {spot : Spot}

theorem settle_eq_front_iff : spot.settle base = .front ↔ spot = .front := by
  cases spot with
  | front | left n | back => simp [settle]
  | right n =>
      rw [settle]
      split <;> simp

theorem isPositioned_of_settle (front : spot.settle base ≠ .front) (back : spot.settle base ≠ .back) :
    spot.isPositioned = true := by
  simp only [isPositioned, Bool.and_eq_true, decide_eq_true_eq]
  constructor
  · intro e
    exact front (settle_eq_front_iff.mpr e)
  · rintro rfl
    exact back rfl

theorem isAtEnd_iff :
    spot.isAtEnd base = true ↔ spot.settle base = .back ∧ spot.isPositioned = true := by
  have front (settled : spot.settle base = .back) : spot ≠ .front := by
    rintro rfl
    cases settled
  simp only [isPositioned, isAtEnd, Bool.and_eq_true, decide_eq_true_eq]
  exact ⟨fun ⟨ne, settled⟩ => ⟨settled, front settled, ne⟩, fun ⟨settled, _, ne⟩ => ⟨ne, settled⟩⟩

end Spot

namespace Edit

/-- The texts in front, the last one first. -/
def prepended (edits : List Edit) : String := String.join (textsOf (·.spot = .front) edits).reverse

def appended (edits : List Edit) : String := String.join (textsOf (·.spot = .back) edits)

variable {base : String} {spot : Spot} {edits : List Edit} {p q : Edit → Bool}

theorem textsOf_congr (h : ∀ e, p e = true ↔ q e = true) : textsOf p edits = textsOf q edits := by
  obtain rfl : p = q := funext fun e => Bool.eq_iff_iff.mpr (h e)
  rfl

theorem textsOf_filter : textsOf p (edits.filter q) = textsOf (fun e => p e && q e) edits := by
  rw [textsOf, List.filter_filter]
  rfl

theorem textsOf_eq_nil (h : ∀ e, p e = false) : textsOf p edits = [] := by
  rw [textsOf, List.map_eq_nil_iff, List.filter_eq_nil_iff]
  intro e _
  simp [h e]

/-! ## Where the edits go -/

theorem prepended_eq (base : String) (edits : List Edit) :
    prepended edits = String.join (textsAt base .front edits).reverse := by
  have same : textsOf (·.spot = .front) edits = textsAt base .front edits :=
    textsOf_congr fun e => by simp [settlesAt, Spot.settle_eq_front_iff]
  rw [prepended, same]

theorem textsAt_filter (h : ∀ e, e.spot.settle base = spot → q e = true) :
    textsAt base spot (edits.filter q) = textsAt base spot edits := by
  rw [textsAt, textsOf_filter]
  refine textsOf_congr fun e => ?_
  rw [Bool.and_eq_true, and_iff_left_iff_imp]
  exact fun settled => h e (of_decide_eq_true settled)

theorem gap_filter (h : ∀ e, e.spot.isPositioned = true → q e = true) :
    gap base (edits.filter q) = gap base edits := by
  have positioned (spot : Spot) (front : spot ≠ .front) (back : spot ≠ .back) :
      textsAt base spot (edits.filter q) = textsAt base spot edits := by
    refine textsAt_filter ?_
    rintro e rfl
    exact h e (Spot.isPositioned_of_settle front back)
  funext n
  rw [gap, gap, positioned (.left n) (by simp) (by simp), positioned (.right n) (by simp) (by simp)]

theorem prepended_filter (h : ∀ e, e.spot = .front → q e = false) : prepended (edits.filter q) = "" := by
  rw [prepended, textsOf_filter, textsOf_eq_nil fun e => by simpa using h e]
  rfl

end Edit

namespace Overlay

variable {base : String} {edits : List Edit}

/-- The text after the edits: what is prepended, the base with what is put in between its characters, and
what settles at the back in the order of the edits. -/
theorem text_ofEdits (base : String) (edits : List Edit) :
    (ofEdits base edits).text =
      Edit.prepended edits ++ String.ofList (Text.interleave (Edit.gap base edits) 0 base.toList) ++
        String.join (Edit.textsAt base .back edits) := by
  rw [text, text?_ofEdits, Option.getD_some, Edit.prepended_eq base]

/-- Prepended text comes before all other text. -/
theorem text_eq_prepended_append (base : String) (edits : List Edit) :
    (ofEdits base edits).text =
      Edit.prepended edits ++ (ofEdits base (edits.filter (·.spot ≠ .front))).text := by
  have back : Edit.textsAt base .back (edits.filter (·.spot ≠ .front)) =
      Edit.textsAt base .back edits := by
    refine Edit.textsAt_filter fun e settled => decide_eq_true ?_
    intro front
    rw [front] at settled
    cases settled
  have gaps : Edit.gap base (edits.filter (·.spot ≠ .front)) = Edit.gap base edits :=
    Edit.gap_filter fun e h => by simp_all [Spot.isPositioned]
  rw [text_ofEdits, text_ofEdits, gaps, back, Edit.prepended_filter fun e h => by simp [h],
    String.empty_append, String.append_assoc]

/-- The text after the edits that give an offset. -/
theorem text_filter_isPositioned (base : String) (edits : List Edit) :
    (ofEdits base (edits.filter (·.spot.isPositioned))).text =
      String.ofList (Text.interleave (Edit.gap base edits) 0 base.toList) ++
        String.join (Edit.textsOf (·.spot.isAtEnd base) edits) := by
  have back : Edit.textsAt base .back (edits.filter (·.spot.isPositioned)) =
      Edit.textsOf (·.spot.isAtEnd base) edits := by
    rw [Edit.textsAt, Edit.textsOf_filter]
    exact Edit.textsOf_congr fun e => by simp [Edit.settlesAt, Spot.isAtEnd_iff]
  rw [text_ofEdits, Edit.gap_filter fun e h => h, back,
    Edit.prepended_filter fun e h => by simp [h, Spot.isPositioned], String.empty_append]

/-- What is prepended comes first and what is appended comes last, and between them there is the text with
all edits that give an offset. -/
def Wraps (base : String) (edits : List Edit) : Prop :=
  (ofEdits base edits).text =
    Edit.prepended edits ++ (ofEdits base (edits.filter (·.spot.isPositioned))).text ++ Edit.appended edits

/-- The text is wrapped if what settles at the back is in the right order. -/
theorem wraps_iff_join : Wraps base edits ↔
    String.join (Edit.textsAt base .back edits) =
      String.join (Edit.textsOf (·.spot.isAtEnd base) edits) ++ Edit.appended edits := by
  rw [Wraps, text_ofEdits, text_filter_isPositioned]
  simp only [String.append_assoc, String.append_right_inj]

/-- If no text at the end is recorded after appended text, the back is split into the two. -/
theorem wraps_of_pairwise
    (h : edits.Pairwise fun e f => e.spot = .back → f.spot.isAtEnd base = false) : Wraps base edits := by
  let last := edits.filter (Edit.settlesAt base .back)
  have order : last.Pairwise fun e f => f.spot.isAtEnd base = true → e.spot.isAtEnd base = true := by
    refine (List.Pairwise.and_mem.mp (h.filter _)).imp ?_
    rintro e f ⟨he, -, before⟩ atEnd
    have settled : e.spot.settle base = .back := of_decide_eq_true (List.mem_filter.mp he).2
    have ne : e.spot ≠ .back := by
      intro back
      rw [before back] at atEnd
      cases atEnd
    simp [Spot.isAtEnd, ne, settled]
  have ends : Edit.textsOf (·.spot.isAtEnd base) last = Edit.textsOf (·.spot.isAtEnd base) edits := by
    rw [Edit.textsOf_filter]
    exact Edit.textsOf_congr fun e => by simp [Spot.isAtEnd, Edit.settlesAt]
  have rest : Edit.textsOf (!·.spot.isAtEnd base) last = Edit.textsOf (·.spot = .back) edits := by
    rw [Edit.textsOf_filter]
    refine Edit.textsOf_congr fun e => ?_
    by_cases back : e.spot = .back <;> simp [Spot.isAtEnd, Edit.settlesAt, back]
  refine wraps_iff_join.mpr ?_
  calc
    String.join (Edit.textsAt base .back edits)
      = String.join ((last.filter (·.spot.isAtEnd base) ++
          last.filter (!·.spot.isAtEnd base)).map Edit.text) := by
        rw [filter_append_filter_of_pairwise order]
        rfl
    _ = String.join (Edit.textsOf (·.spot.isAtEnd base) last) ++
          String.join (Edit.textsOf (!·.spot.isAtEnd base) last) := by
        rw [List.map_append, String.join_append]
        rfl
    _ = String.join (Edit.textsOf (·.spot.isAtEnd base) edits) ++ Edit.appended edits := by
        rw [ends, rest]
        rfl

/-- The same edits without their texts. -/
def silent (edits : List Edit) : List Edit := edits.map fun e => { e with text := "" }

theorem map_spot_silent (edits : List Edit) : (silent edits).map (·.spot) = edits.map (·.spot) := by
  rw [silent, List.map_map]
  rfl

theorem join_textsOf_silent (p : Edit → Bool) (edits : List Edit) :
    String.join (Edit.textsOf p (silent edits)) = "" := by
  refine Piece.join_eq_empty_iff.mpr fun text ht => ?_
  obtain ⟨e, he, rfl⟩ := List.mem_map.mp ht
  obtain ⟨f, -, rfl⟩ := List.mem_map.mp (List.mem_filter.mp he).1
  rfl

/-- Text at the end that is recorded after appended text comes after it. The texts are chosen so that only
these two edits show. -/
theorem not_wraps_silent (xs ys zs : List Edit) {atEnd : Spot} (h : atEnd.isAtEnd base = true) :
    ¬ Wraps base (silent xs ++ ⟨.back, "a"⟩ :: (silent ys ++ ⟨atEnd, "b"⟩ :: silent zs)) := by
  have shown (p : Edit → Bool) :
      String.join (Edit.textsOf p
        (silent xs ++ ⟨.back, "a"⟩ :: (silent ys ++ ⟨atEnd, "b"⟩ :: silent zs))) =
      (if p ⟨.back, "a"⟩ then "a" else "") ++ (if p ⟨atEnd, "b"⟩ then "b" else "") := by
    simp only [Edit.textsOf_append, Edit.textsOf_cons, String.join_append, join_textsOf_silent,
      String.empty_append, String.append_empty]
    split <;> split <;> rfl
  simp only [Spot.isAtEnd, Bool.and_eq_true, decide_eq_true_eq] at h
  rw [wraps_iff_join, Edit.appended, Edit.textsAt, shown, shown, shown]
  simp [Edit.settlesAt, Spot.isAtEnd, h]

/-- Prepended text comes before all other text. All text is wrapped, whatever the texts of the edits are,
exactly if no text that sticks to the right at the end of the base is recorded after appended text. -/
theorem wraps_iff_end_before_append (base : String) (edits : List Edit) :
    (ofEdits base edits).text =
      Edit.prepended edits ++ (ofEdits base (edits.filter (·.spot ≠ .front))).text ∧
    ((∀ edits', edits'.map (·.spot) = edits.map (·.spot) → Wraps base edits') ↔
      edits.Pairwise fun e f => e.spot = .back → f.spot.isAtEnd base = false) := by
  refine ⟨text_eq_prepended_append base edits, ?_, ?_⟩
  · intro wraps
    refine List.pairwise_iff_forall_sublist.mpr fun {e f} both back => ?_
    by_contra atEnd
    rw [Bool.not_eq_false] at atEnd
    obtain ⟨front, rest, rfl, he, hf⟩ := List.cons_sublist_iff.mp both
    obtain ⟨xs, ys, rfl⟩ := List.append_of_mem he
    obtain ⟨ys', zs, rfl⟩ := List.append_of_mem (List.singleton_sublist.mp hf)
    refine not_wraps_silent xs (ys ++ ys') zs atEnd (wraps _ ?_)
    simp [map_spot_silent, back]
  · intro order edits' same
    have spots : (edits.map (·.spot)).Pairwise fun s t => s = .back → t.isAtEnd base = false :=
      List.pairwise_map.mpr order
    rw [← same] at spots
    exact wraps_of_pairwise (List.pairwise_map.mp spots)

/-- Text at both ends of the base, recorded among what is prepended and appended. -/
theorem wraps_around_both_ends :
    let edits : List Edit := [⟨.left 0, "<"⟩, ⟨.front, "a"⟩, ⟨.right 4, ">"⟩, ⟨.front, "b"⟩, ⟨.left 9, "!"⟩,
      ⟨.back, "y"⟩, ⟨.right 0, "-"⟩, ⟨.back, "z"⟩]
    (edits.Pairwise fun e f => e.spot = .back → f.spot.isAtEnd "body" = false) ∧
      Wraps "body" edits ∧ (ofEdits "body" edits).text = "ba<-body!>yz" := by
  intro edits
  have order : edits.Pairwise fun e f => e.spot = .back → f.spot.isAtEnd "body" = false := by decide
  refine ⟨order, (wraps_iff_end_before_append "body" edits).2.mpr order edits rfl, ?_⟩
  rw [text, text?_ofEdits]
  decide

/-- Appended text is followed by text that sticks to the right at the end. -/
theorem append_followed_by_end :
    ¬ Wraps "a" [⟨.back, "A"⟩, ⟨.right 1, "R"⟩] ∧
      (ofEdits "a" [⟨.back, "A"⟩, ⟨.right 1, "R"⟩]).text = "aAR" := by
  constructor
  · rw [wraps_iff_join]
    decide
  · rw [text, text?_ofEdits]
    decide

end Overlay

end ImportWeave
