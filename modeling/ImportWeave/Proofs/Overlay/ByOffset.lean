import ImportWeave.Proofs.Blanking.Characters
import ImportWeave.Proofs.Overlay.Edits

/-! # The result of an overlay, offset by offset

Sorting puts the insertions of an overlay in the order of the text, and keeps those at one offset and side
in the order in which they came. So the text of an overlay can be read off its edits: at each offset there
are the texts that settle left of it, then those that settle right of it, then the next byte. -/

namespace ImportWeave

section Sorting

variable {α : Type} {l : List α}

/-- If nothing with a property comes after something without it, the list is split by the property. -/
theorem filter_append_filter_of_pairwise {p : α → Bool}
    (h : l.Pairwise fun a b => p b = true → p a = true) : l.filter p ++ l.filter (!p ·) = l := by
  induction l with
  | nil => rfl
  | cons a l ih =>
      rw [List.pairwise_cons] at h
      cases ha : p a with
      | true => simp [ha, ih h.2]
      | false =>
          have none : ∀ b ∈ l, p b = false := fun b hb =>
            Bool.eq_false_iff.mpr fun hp => by simp [h.1 b hb hp] at ha
          have out : l.filter p = [] := List.filter_eq_nil_iff.mpr fun b hb => by simp [none b hb]
          have all : l.filter (!p ·) = l := List.filter_eq_self.mpr fun b hb => by simp [none b hb]
          simp [ha, out, all]

/-- Entries that sorting does not tell apart stay in their order. -/
theorem filter_mergeSort {le : α → α → Bool} (trans : ∀ a b c, le a b = true → le b c = true → le a c = true)
    (total : ∀ a b, (le a b || le b a) = true) {p : α → Bool}
    (h : ∀ a b, p a = true → p b = true → le a b = true) :
    (l.mergeSort le).filter p = l.filter p := by
  have sorted : (l.filter p).Pairwise fun a b => le a b = true :=
    List.pairwise_of_forall_mem_list fun a ha b hb =>
      h a b (List.mem_filter.mp ha).2 (List.mem_filter.mp hb).2
  have sublist : (l.filter p).Sublist ((l.mergeSort le).filter p) := by
    have := (List.sublist_mergeSort trans total sorted List.filter_sublist).filter p
    simpa only [List.filter_filter, Bool.and_self] using this
  exact (sublist.eq_of_length ((List.mergeSort_perm l le).filter p).length_eq.symm).symm

end Sorting

namespace Text

/-- The text with `gap n` at each offset `n` between its characters. -/
def interleave (gap : Nat → List Char) (offset : Nat) : List Char → List Char
  | [] => gap offset
  | c :: cs => gap offset ++ c :: interleave gap (offset + c.utf8Size) cs

theorem interleave_congr {gap gap' : Nat → List Char} {offset : Nat} (cs : List Char)
    (h : ∀ n, offset ≤ n → gap n = gap' n) :
    interleave gap offset cs = interleave gap' offset cs := by
  induction cs generalizing offset with
  | nil => exact h offset (Nat.le_refl _)
  | cons c cs ih =>
      rw [interleave, interleave, h offset (Nat.le_refl _), ih fun n le => h n (by omega)]

/-- What is at the first offset can be taken in two parts. -/
theorem interleave_first {gap gap' : Nat → List Char} {first : List Char} (cs : List Char)
    (zero : gap 0 = first ++ gap' 0) (h : ∀ n, 0 < n → gap n = gap' n) :
    interleave gap 0 cs = first ++ interleave gap' 0 cs := by
  cases cs with
  | nil => exact zero
  | cons c cs =>
      have later : interleave gap (0 + c.utf8Size) cs = interleave gap' (0 + c.utf8Size) cs :=
        interleave_congr cs fun n le => h n (by have := c.utf8Size_pos; omega)
      rw [interleave, interleave, zero, later, List.append_assoc]

/-- There is no offset inside of a character. -/
theorem not_isOffset_of_lt {before cs : List Char} {c : Char} {n : Nat} (gt : byteLength before < n)
    (lt : n < byteLength before + c.utf8Size) : ¬ IsOffset (before ++ c :: cs) n := by
  intro h
  obtain ⟨front, after, e, rfl⟩ := isOffset_iff.mp h
  obtain ⟨part, rfl, e'⟩ := eq_append_of_byteLength_le e (Nat.le_of_lt gt)
  cases part with
  | nil => simp at gt
  | cons d part =>
      obtain rfl := (List.cons.inj e').1
      simp only [byteLength_append, byteLength_cons] at lt
      omega

theorem IsOffset.byteLength_concat_le {before cs : List Char} {c : Char} {n : Nat}
    (h : IsOffset (before ++ c :: cs) n) (gt : byteLength before < n) :
    byteLength (before ++ [c]) ≤ n := by
  by_contra lt
  simp only [byteLength_append, byteLength_cons, byteLength_nil] at lt
  exact not_isOffset_of_lt gt (by omega) h

theorem flatMap_zipIdx_of_gap_eq_nil {gap : Nat → List Char} (bs : List UInt8) {offset : Nat}
    (h : ∀ n, offset ≤ n → n < offset + bs.length → gap n = []) :
    (bs.zipIdx offset).flatMap (fun (b, n) => encode (gap n) ++ [b]) = bs := by
  induction bs generalizing offset with
  | nil => rfl
  | cons b bs ih =>
      rw [List.length_cons] at h
      have none : gap offset = [] := h offset (by omega) (by omega)
      rw [List.zipIdx_cons, List.flatMap_cons, ih fun n ge lt => h n (by omega) (by omega)]
      simp [none]

/-- In bytes, the gaps are at offsets between characters, and there is nothing at the others. -/
theorem encode_interleave {gap : Nat → List Char} (before cs : List Char)
    (h : ∀ n, ¬ IsOffset (before ++ cs) n → gap n = []) :
    encode (interleave gap (byteLength before) cs) =
      ((encode cs).zipIdx (byteLength before)).flatMap (fun (b, n) => encode (gap n) ++ [b]) ++
        encode (gap (byteLength (before ++ cs))) := by
  induction cs generalizing before with
  | nil => simp [interleave]
  | cons c cs ih =>
      have inside (n : Nat) (gt : byteLength before < n) (lt : n < byteLength before + c.utf8Size) :
          gap n = [] := h n (not_isOffset_of_lt gt lt)
      have character : ((String.utf8EncodeChar c).zipIdx (byteLength before)).flatMap
          (fun (b, n) => encode (gap n) ++ [b]) =
          encode (gap (byteLength before)) ++ String.utf8EncodeChar c := by
        have length := String.length_utf8EncodeChar c
        cases bytes : String.utf8EncodeChar c with
        | nil => exact absurd bytes (utf8EncodeChar_ne_nil c)
        | cons b bs =>
            rw [bytes, List.length_cons] at length
            rw [List.zipIdx_cons, List.flatMap_cons, flatMap_zipIdx_of_gap_eq_nil bs fun n ge lt =>
              inside n (by omega) (by omega)]
            simp
      have rest := ih (before ++ [c]) (by simpa using h)
      rw [byteLength_append, byteLength_cons, byteLength_nil, Nat.add_zero, List.append_assoc,
        List.singleton_append] at rest
      rw [interleave, encode_append, encode_cons, rest, encode_cons, List.zipIdx_append,
        List.flatMap_append, character, String.length_utf8EncodeChar]
      simp only [List.append_assoc]

end Text

namespace Overlay

/-! ## Weaving sorted insertions -/

/-- The texts of the insertions at an offset. -/
def gap (is : List Insertion) (offset : Nat) : List Char :=
  (is.filter (·.offset = offset)).flatMap (·.text.toList)

theorem gap_filter_ne {is : List Insertion} {offset n : Nat} (h : n ≠ offset) :
    gap (is.filter (·.offset ≠ offset)) n = gap is n := by
  rw [gap, gap, List.filter_filter]
  congr 2
  funext i
  by_cases e : i.offset = n <;> simp [e, h]

/-- Sorted insertions start with those at the lowest offset. -/
theorem filter_offset_append {is : List Insertion} (sorted : is.Pairwise (·.offset ≤ ·.offset))
    {offset : Nat} (ge : ∀ i ∈ is, offset ≤ i.offset) :
    is.filter (·.offset = offset) ++ is.filter (·.offset ≠ offset) = is := by
  have := filter_append_filter_of_pairwise (p := fun i => i.offset = offset) (l := is)
    ((List.Pairwise.and_mem.mp sorted).imp ?_)
  · simpa using this
  · rintro i j ⟨hi, -, le⟩ hj
    have := ge i hi
    simp only [decide_eq_true_eq] at *
    omega

/-- Insertions at the offset that weaving has come to are put in one after the other. -/
theorem weave?_append {text : List Char} {offset : Nat} (is js : List Insertion)
    (here : Text.IsOffset text offset) (h : ∀ i ∈ is, i.offset = offset) :
    weave? text offset (is ++ js) = (weave? text offset js).map (is.flatMap (·.text.toList) ++ ·) := by
  have nothing : Text.slice? text offset offset = some [] := by
    obtain ⟨front, after, rfl, rfl⟩ := Text.isOffset_iff.mp here
    simpa using Text.slice?_append front [] after
  induction is with
  | nil => simp
  | cons i is ih =>
      rw [List.forall_mem_cons] at h
      rw [List.cons_append, weave?, h.1, nothing, ih h.2]
      cases weave? text offset js <;> simp

/-- Where there is no insertion, weaving takes the next character. -/
theorem weave?_cons (before cs : List Char) (c : Char) (is : List Insertion)
    (placed : ∀ i ∈ is, Text.byteLength (before ++ [c]) ≤ i.offset ∧
      Text.IsOffset (before ++ c :: cs) i.offset) :
    weave? (before ++ c :: cs) (Text.byteLength before) is =
      (weave? (before ++ c :: cs) (Text.byteLength (before ++ [c])) is).map (c :: ·) := by
  -- up to any later offset, the two slices differ by the character
  have slices (part after : List Char) :
      Text.slice? (before ++ c :: (part ++ after)) (Text.byteLength before)
        (Text.byteLength (before ++ c :: part)) = some (c :: part) ∧
      Text.slice? (before ++ c :: (part ++ after)) (Text.byteLength (before ++ [c]))
        (Text.byteLength (before ++ c :: part)) = some part := by
    constructor
    · simpa using Text.slice?_append before (c :: part) after
    · simpa using Text.slice?_append (before ++ [c]) part after
  cases is with
  | nil =>
      have := slices cs []
      rw [List.append_nil] at this
      rw [weave?, weave?, this.1, this.2, Option.map_some]
  | cons i is =>
      obtain ⟨le, offset⟩ := placed i (List.mem_cons_self ..)
      obtain ⟨front, after, e, hi⟩ := Text.isOffset_iff.mp offset
      have e' : (before ++ [c]) ++ cs = front ++ after := by simpa using e
      obtain ⟨part, rfl, rfl⟩ := Text.eq_append_of_byteLength_le e' (by omega)
      rw [List.append_assoc, List.singleton_append] at hi
      have := slices part after
      rw [weave?, weave?, hi, this.1, this.2]
      cases weave? (before ++ c :: (part ++ after)) (Text.byteLength (before ++ c :: part)) is <;> simp

/-- Sorted insertions are woven into the gaps between the characters. The induction is on the text that is
left: the insertions at its beginning come first, and the others are beyond its first character. -/
theorem weave?_eq_interleave (before rest : List Char) (is : List Insertion)
    (sorted : is.Pairwise (·.offset ≤ ·.offset))
    (placed : ∀ i ∈ is, Text.byteLength before ≤ i.offset ∧ Text.IsOffset (before ++ rest) i.offset) :
    weave? (before ++ rest) (Text.byteLength before) is =
      some (Text.interleave (gap is) (Text.byteLength before) rest) := by
  induction rest generalizing before is with
  | nil =>
      have here : ∀ i ∈ is, i.offset = Text.byteLength before := by
        intro i hi
        obtain ⟨ge, offset⟩ := placed i hi
        have le := offset.le_byteLength
        rw [List.append_nil] at le
        omega
      have all : is.filter (·.offset = Text.byteLength before) = is :=
        List.filter_eq_self.mpr fun i hi => by simpa using here i hi
      have nothing := Text.slice?_append before [] []
      have front : Text.IsOffset (before ++ []) (Text.byteLength before) :=
        Text.floorOffset_byteLength before []
      have woven := weave?_append is [] front here
      rw [List.append_nil] at woven nothing
      simp only [List.append_nil] at woven nothing ⊢
      rw [woven, weave?, nothing, Text.interleave, gap, all]
      simp
  | cons c cs ih =>
      let later := is.filter (·.offset ≠ Text.byteLength before)
      have split : is.filter (·.offset = Text.byteLength before) ++ later = is :=
        filter_offset_append sorted fun i hi => (placed i hi).1
      have beyond : ∀ i ∈ later, Text.byteLength (before ++ [c]) ≤ i.offset ∧
          Text.IsOffset (before ++ c :: cs) i.offset := by
        intro i hi
        obtain ⟨hi, ne⟩ := List.mem_filter.mp hi
        obtain ⟨ge, offset⟩ := placed i hi
        have ne : i.offset ≠ Text.byteLength before := of_decide_eq_true ne
        exact ⟨offset.byteLength_concat_le (by omega), offset⟩
      have front : Text.IsOffset (before ++ c :: cs) (Text.byteLength before) :=
        Text.floorOffset_byteLength before (c :: cs)
      have rest := ih (before ++ [c]) later (sorted.filter _) (by simpa using beyond)
      rw [List.append_assoc, List.singleton_append] at rest
      have same : Text.interleave (gap later) (Text.byteLength (before ++ [c])) cs =
          Text.interleave (gap is) (Text.byteLength (before ++ [c])) cs := by
        refine Text.interleave_congr cs fun n le => gap_filter_ne ?_
        have := c.utf8Size_pos
        simp only [Text.byteLength_append, Text.byteLength_cons, Text.byteLength_nil] at le
        omega
      have here : ∀ i ∈ is.filter (·.offset = Text.byteLength before),
          i.offset = Text.byteLength before := by
        intro i hi
        simpa using (List.mem_filter.mp hi).2
      calc
        weave? (before ++ c :: cs) (Text.byteLength before) is
          = weave? (before ++ c :: cs) (Text.byteLength before)
              (is.filter (·.offset = Text.byteLength before) ++ later) := by rw [split]
        _ = some (gap is (Text.byteLength before) ++
              c :: Text.interleave (gap is) (Text.byteLength (before ++ [c])) cs) := by
            rw [weave?_append _ _ front here, weave?_cons before cs c later beyond, rest, same]
            rfl
        _ = _ := by simp [Text.interleave]

/-! ## From edits to text -/

/-- Sorted insertions at one offset are those of its left side, then those of its right side, each in the
order in which they came. -/
theorem gap_mergeSort (is : List Insertion) (n : Nat) :
    gap (is.mergeSort Insertion.precedes) n =
      (is.filter fun i => i.side = .left && i.offset = n).flatMap (·.text.toList) ++
        (is.filter fun i => i.side = .right && i.offset = n).flatMap (·.text.toList) := by
  have sorted := (List.pairwise_mergeSort Insertion.precedes_trans Insertion.precedes_total is).filter
    (·.offset = n)
  have sides : ((is.mergeSort Insertion.precedes).filter (·.offset = n)).Pairwise fun i j =>
      decide (j.side = .left) = true → decide (i.side = .left) = true := by
    refine (List.Pairwise.and_mem.mp sorted).imp ?_
    rintro i j ⟨hi, hj, le⟩ left
    have hi := (List.mem_filter.mp hi).2
    have hj := (List.mem_filter.mp hj).2
    rw [Insertion.precedes_iff] at le
    simp only [decide_eq_true_eq] at *
    rcases le with lt | ⟨-, left' | right⟩
    · omega
    · exact left'
    · rw [left] at right
      cases right
  have stable (side : Side) :
      ((is.mergeSort Insertion.precedes).filter (·.offset = n)).filter (·.side = side) =
        is.filter fun i => i.side = side && i.offset = n := by
    rw [List.filter_filter]
    refine filter_mergeSort Insertion.precedes_trans Insertion.precedes_total fun i j hi hj => ?_
    simp only [Bool.and_eq_true, decide_eq_true_eq] at hi hj
    refine Insertion.precedes_iff.mpr (.inr ⟨hi.2.trans hj.2.symm, ?_⟩)
    cases side with
    | left => exact .inl hi.1
    | right => exact .inr hj.1
  have other (i : Insertion) : (!decide (i.side = .left)) = decide (i.side = .right) := by
    cases h : i.side <;> rfl
  have split := filter_append_filter_of_pairwise sides
  simp only [other] at split
  rw [gap, ← split, List.flatMap_append, stable, stable]

end Overlay

/-- The place at an offset and on a side of it. -/
def Side.spot : Side → Nat → Spot
  | .left => .left
  | .right => .right

namespace Edit

/-- What the edits put in at an offset. -/
def gap (base : String) (edits : List Edit) (n : Nat) : List Char :=
  (textsAt base (.left n) edits).flatMap String.toList ++
    (textsAt base (.right n) edits).flatMap String.toList

theorem gap_eq_nil {base : String} {edits : List Edit} {n : Nat}
    (h : ¬ Text.IsOffset base.toList n) : gap base edits n = [] := by
  have left : edits.filter (settlesAt base (.left n)) = [] :=
    List.filter_eq_nil_iff.mpr fun e _ at' => h (isOffset_of_settle_left (of_decide_eq_true at'))
  have right : edits.filter (settlesAt base (.right n)) = [] :=
    List.filter_eq_nil_iff.mpr fun e _ at' => h (isOffset_of_settle_right (of_decide_eq_true at')).1
  simp [gap, textsAt, textsOf, left, right]

/-- The insertions at an offset and side are the edits that settle there, except left of the whole text. -/
theorem map_text_insertions (base : String) (edits : List Edit) (side : Side) (n : Nat) :
    ((edits.filterMap (insertion? base)).filter fun i => i.side = side && i.offset = n).map (·.text) =
      if side.spot n = .left 0 then [] else textsAt base (side.spot n) edits := by
  induction edits with
  | nil => simp
  | cons e edits ih =>
      rw [textsAt_cons]
      cases h : e.spot.settle base with
      | front | back => cases side <;> simpa [insertion?, h, Side.spot] using ih
      | left m =>
          cases m with
          | zero =>
              by_cases first : side.spot n = .left 0
              · simpa [insertion?, h, first] using ih
              · simpa [insertion?, h, first, eq_comm (b := side.spot n)] using ih
          | succ m =>
              have inserted : insertion? base e = some ⟨m + 1, .left, e.text⟩ := by simp [insertion?, h]
              rw [List.filterMap_cons_some inserted]
              cases side with
              | left =>
                  by_cases here : m + 1 = n
                  · subst here
                    simpa [Side.spot] using ih
                  · simpa [Side.spot, here] using ih
              | right => simpa [Side.spot] using ih
      | right m =>
          have inserted : insertion? base e = some ⟨m, .right, e.text⟩ := by simp [insertion?, h]
          rw [List.filterMap_cons_some inserted]
          cases side with
          | left => simpa [Side.spot] using ih
          | right =>
              by_cases here : m = n
              · subst here
                simpa [Side.spot] using ih
              · simpa [Side.spot, here] using ih

theorem flatMap_insertions (base : String) (edits : List Edit) (side : Side) (n : Nat) :
    ((edits.filterMap (insertion? base)).filter fun i => i.side = side && i.offset = n).flatMap
        (·.text.toList) =
      if side.spot n = .left 0 then [] else (textsAt base (side.spot n) edits).flatMap String.toList := by
  rw [← List.flatMap_map (fun i : Insertion => i.text) String.toList, map_text_insertions]
  split <;> rfl

end Edit

namespace Overlay

/-- The insertions that edits leave in an overlay are placed at offsets of the text. -/
theorem isOffset_of_mem_insertions {base : String} {edits : List Edit} {i : Insertion}
    (h : i ∈ edits.filterMap (Edit.insertion? base)) : Text.IsOffset base.toList i.offset := by
  obtain ⟨e, -, inserted⟩ := List.mem_filterMap.mp h
  unfold Edit.insertion? at inserted
  split at inserted
  · cases inserted
  · cases inserted
  · cases inserted
  · next settled =>
      cases inserted
      exact Edit.isOffset_of_settle_left settled
  · next settled =>
      cases inserted
      exact (Edit.isOffset_of_settle_right settled).1

/-- The text after the edits, character by character. -/
theorem text?_ofEdits (base : String) (edits : List Edit) :
    (ofEdits base edits).text? =
      some (String.join (Edit.textsAt base .front edits).reverse ++
        String.ofList (Text.interleave (Edit.gap base edits) 0 base.toList) ++
          String.join (Edit.textsAt base .back edits)) := by
  let is := edits.filterMap (Edit.insertion? base)
  let sorted := is.mergeSort Insertion.precedes
  have placed : ∀ i ∈ sorted, Text.byteLength [] ≤ i.offset ∧
      Text.IsOffset ([] ++ base.toList) i.offset := fun i hi =>
    ⟨Nat.zero_le _, isOffset_of_mem_insertions ((List.mergeSort_perm is _).mem_iff.mp hi)⟩
  have woven := weave?_eq_interleave [] base.toList sorted (pairwise_mergeSort is) placed
  have gaps (n : Nat) : gap sorted n =
      (if n = 0 then [] else (Edit.textsAt base (.left n) edits).flatMap String.toList) ++
        (Edit.textsAt base (.right n) edits).flatMap String.toList := by
    rw [gap_mergeSort, Edit.flatMap_insertions, Edit.flatMap_insertions]
    simp [Side.spot]
  have body : Text.interleave (Edit.gap base edits) 0 base.toList =
      (Edit.textsAt base (.left 0) edits).flatMap String.toList ++
        Text.interleave (gap sorted) 0 base.toList := by
    refine Text.interleave_first base.toList ?_ fun n pos => ?_
    · rw [gaps]
      rfl
    · rw [gaps, if_neg (by omega)]
      rfl
  rw [List.nil_append, Text.byteLength_nil] at woven
  rw [ofEdits_eq, text?, woven, body, ← String.toList_join, String.join_append, String.ofList_append,
    String.ofList_toList, ← String.append_assoc]
  rfl

end Overlay

/-! ## From text to bytes -/

theorem bytesOf_join (texts : List String) : bytesOf (String.join texts) = texts.flatMap bytesOf := by
  rw [bytesOf_eq_encode, String.toList_join, Text.encode, List.flatMap_assoc]
  congr 1
  funext text
  exact (bytesOf_eq_encode text).symm

@[simp] theorem bytesOf_append (text text' : String) :
    bytesOf (text ++ text') = bytesOf text ++ bytesOf text' := by
  simp [bytesOf_eq_encode]

namespace Edit

def bytesAt (base : String) (spot : Spot) (edits : List Edit) : List UInt8 :=
  (textsAt base spot edits).flatMap bytesOf

/-- The text after the edits, byte by byte. What goes to the front comes first, the last edit before the
others. Then each byte of the base has in front of it what settles left of its offset and what settles
right of it. After the last byte there is what settles left of the end, and then what goes to the back. -/
def written (base : String) (edits : List Edit) : List UInt8 :=
  (textsAt base .front edits).reverse.flatMap bytesOf ++
    (bytesOf base).zipIdx.flatMap (fun (b, offset) =>
      bytesAt base (.left offset) edits ++ bytesAt base (.right offset) edits ++ [b]) ++
    bytesAt base (.left (bytesOf base).length) edits ++ bytesAt base .back edits

theorem encode_gap (base : String) (edits : List Edit) (n : Nat) :
    Text.encode (gap base edits n) = bytesAt base (.left n) edits ++ bytesAt base (.right n) edits := by
  simp only [gap, Text.encode_append, ← String.toList_join, ← bytesOf_eq_encode, bytesOf_join, bytesAt]

theorem bytesAt_right_end (base : String) (edits : List Edit) :
    bytesAt base (.right (Text.byteLength base.toList)) edits = [] := by
  have none : edits.filter (settlesAt base (.right (Text.byteLength base.toList))) = [] :=
    List.filter_eq_nil_iff.mpr fun e _ here =>
      (isOffset_of_settle_right (of_decide_eq_true here)).2 rfl
  simp [bytesAt, textsAt, textsOf, none]

end Edit

namespace Overlay

theorem bytesOf_text_ofEdits (base : String) (edits : List Edit) :
    (ofEdits base edits).text? = some (ofEdits base edits).text ∧
      bytesOf (ofEdits base edits).text = Edit.written base edits := by
  have text := text?_ofEdits base edits
  have body := Text.encode_interleave [] base.toList fun n h => @Edit.gap_eq_nil base edits n h
  simp only [List.nil_append, Text.byteLength_nil, Edit.encode_gap, Edit.bytesAt_right_end,
    List.append_nil] at body
  constructor
  · rw [Overlay.text, text, Option.getD_some]
  · rw [Overlay.text, text, Option.getD_some, bytesOf_append, bytesOf_append, bytesOf_join, bytesOf_join,
      bytesOf_eq_encode (String.ofList _), String.toList_ofList, body, Edit.written, Edit.bytesAt,
      bytesOf_eq_encode base, Text.length_encode]
    simp only [List.append_assoc]
    rfl

/-- After any edits an overlay has a text, and it is the base with the texts of the edits at the places
where they settle. An offset settles at the greatest one between characters that is not beyond it. Edits
that settle at different places can be recorded in any order. -/
theorem text_of_edits_written (base : String) (edits : List Edit) :
    ((ofEdits base edits).text? = some (ofEdits base edits).text ∧
      bytesOf (ofEdits base edits).text = Edit.written base edits) ∧
    (∀ n, (ofEdits base edits).clamp n = Text.floorOffset base.toList n ∧
      IsGreatest {q | (∃ front after, base.toList = front ++ after ∧ q = Text.byteLength front) ∧
        q ≤ min n (bytesOf base).length} (Text.floorOffset base.toList n)) ∧
    ∀ edits', (∀ spot, edits'.filter (Edit.settlesAt base spot) = edits.filter (Edit.settlesAt base spot)) →
      (ofEdits base edits').text? = (ofEdits base edits).text? := by
  refine ⟨bytesOf_text_ofEdits base edits, fun n => ?_, fun edits' same => ?_⟩
  · rw [ofEdits_eq, clamp, bytesOf_eq_encode, Text.length_encode]
    exact ⟨rfl, Text.isGreatest_floorOffset base.toList n⟩
  · have texts (spot : Spot) : Edit.textsAt base spot edits' = Edit.textsAt base spot edits :=
      congrArg (List.map Edit.text) (same spot)
    have gaps : Edit.gap base edits' = Edit.gap base edits := by
      funext n
      simp only [Edit.gap, texts]
    rw [text?_ofEdits, text?_ofEdits, gaps, texts, texts]

/-- Edits at both ends, inside a character and beyond the text, in two orders. -/
theorem text_of_edits_in_two_orders :
    let edits : List Edit := [⟨.left 1, "x"⟩, ⟨.left 100, "y"⟩, ⟨.right 2, "r"⟩, ⟨.back, "t"⟩,
      ⟨.right 9, "z"⟩, ⟨.front, "f"⟩]
    let edits' : List Edit := [⟨.front, "f"⟩, ⟨.back, "t"⟩, ⟨.right 2, "r"⟩, ⟨.left 100, "y"⟩,
      ⟨.right 9, "z"⟩, ⟨.left 1, "x"⟩]
    (∀ spot, edits'.filter (Edit.settlesAt "é!" spot) = edits.filter (Edit.settlesAt "é!" spot)) ∧
      (ofEdits "é!" edits').text? = (ofEdits "é!" edits).text? ∧
      (ofEdits "é!" edits).text = "fxér!ytz" := by
  intro edits edits'
  have same : ∀ spot, edits'.filter (Edit.settlesAt "é!" spot) =
      edits.filter (Edit.settlesAt "é!" spot) := by
    intro spot
    have settled : Spot.settle "é!" (.left 1) = .left 0 ∧ Spot.settle "é!" (.left 100) = .left 3 ∧
        Spot.settle "é!" (.right 2) = .right 2 ∧ Spot.settle "é!" (.right 9) = .back ∧
        Spot.settle "é!" .front = .front ∧ Spot.settle "é!" .back = .back := by decide
    cases spot with
    | front | right n | back => simp [edits, edits', List.filter_cons, Edit.settlesAt, settled]
    | left n =>
        by_cases first : 0 = n
        · simp [edits, edits', Edit.settlesAt, settled, ← first]
        · simp [edits, edits', List.filter_cons, Edit.settlesAt, settled, first]
  refine ⟨same, (text_of_edits_written "é!" edits).2.2 edits' same, ?_⟩
  rw [text, text?_ofEdits]
  decide

end Overlay

end ImportWeave
