import ImportWeave.Overlay
import Mathlib.Data.List.Basic

/-! # The result of an overlay, piece by piece

The text of an overlay is its base with blocks between the characters. An overlay that was built by
insertions alone has a text, and the blocks in it are the texts that were inserted, one for each. -/

namespace ImportWeave

namespace Text

/-- Falls between two characters, or at an end of the text. -/
def IsOffset (cs : List Char) (n : Nat) : Prop := floorOffset cs n = n

theorem isOffset_iff {cs : List Char} {n : Nat} :
    IsOffset cs n ↔ ∃ before after, cs = before ++ after ∧ n = byteLength before := by
  constructor
  · intro h
    exact ⟨_, _, (splitAtByte_append cs n).symm, h.symm⟩
  · rintro ⟨before, after, rfl, rfl⟩
    exact floorOffset_byteLength before after

theorem isOffset_floorOffset (cs : List Char) (n : Nat) : IsOffset cs (floorOffset cs n) :=
  isOffset_iff.mpr ⟨_, _, (splitAtByte_append cs n).symm, rfl⟩

@[simp] theorem byteLength_eq_zero {cs : List Char} : byteLength cs = 0 ↔ cs = [] := by
  cases cs with
  | nil => simp
  | cons c cs =>
      have := c.utf8Size_pos
      simp only [byteLength_cons, reduceCtorEq, iff_false]
      omega

/-- Of two beginnings of a text, the one with more bytes goes on from the other. -/
theorem eq_append_of_byteLength_le {xs ys xs' ys' : List Char} (h : xs ++ ys = xs' ++ ys')
    (le : byteLength xs ≤ byteLength xs') : ∃ part, xs' = xs ++ part ∧ ys = part ++ ys' := by
  rcases List.append_eq_append_iff.mp h with ⟨part, h₁, h₂⟩ | ⟨part, h₁, h₂⟩
  · exact ⟨part, h₁, h₂⟩
  · rw [h₁, byteLength_append] at le
    have : part = [] := byteLength_eq_zero.mp (by omega)
    subst this
    exact ⟨[], by simpa using h₁.symm, by simpa using h₂.symm⟩

/-- The part between the ends of two beginnings of a text, of which one goes on from the other. -/
theorem slice?_append (before part after : List Char) :
    slice? (before ++ part ++ after) (byteLength before) (byteLength (before ++ part)) =
      some part :=
  slice?_eq_some_iff.mpr ⟨before, after, rfl, rfl, rfl⟩

end Text

/-- A character of the base, or a block that was inserted. -/
inductive Piece where
  | kept (c : Char)
  | block (text : String)
deriving DecidableEq, Repr

namespace Piece

def chars : Piece → List Char
  | .kept c => [c]
  | .block text => text.toList

def kept? : Piece → Option Char
  | .kept c => some c
  | .block _ => none

def block? : Piece → Option String
  | .kept _ => none
  | .block text => some text

/-- All pieces, one after the other. -/
def render (ps : List Piece) : List Char := ps.flatMap chars

/-- What is left when the blocks are deleted. -/
def source (ps : List Piece) : List Char := ps.filterMap kept?

def blocks (ps : List Piece) : List String := ps.filterMap block?

@[simp] theorem render_kept_cons (c : Char) (ps : List Piece) :
    render (.kept c :: ps) = c :: render ps := rfl
@[simp] theorem render_block_cons (text : String) (ps : List Piece) :
    render (.block text :: ps) = text.toList ++ render ps := rfl
@[simp] theorem source_kept_cons (c : Char) (ps : List Piece) :
    source (.kept c :: ps) = c :: source ps := rfl
@[simp] theorem source_block_cons (text : String) (ps : List Piece) :
    source (.block text :: ps) = source ps := rfl
@[simp] theorem blocks_kept_cons (c : Char) (ps : List Piece) :
    blocks (.kept c :: ps) = blocks ps := rfl
@[simp] theorem blocks_block_cons (text : String) (ps : List Piece) :
    blocks (.block text :: ps) = text :: blocks ps := rfl

@[simp] theorem render_append (ps qs : List Piece) : render (ps ++ qs) = render ps ++ render qs := by
  simp [render]

@[simp] theorem source_append (ps qs : List Piece) : source (ps ++ qs) = source ps ++ source qs := by
  simp [source]

@[simp] theorem blocks_append (ps qs : List Piece) : blocks (ps ++ qs) = blocks ps ++ blocks qs := by
  simp [blocks]

@[simp] theorem render_kept (cs : List Char) : render (cs.map .kept) = cs := by
  simp [render, List.flatMap_map, chars]

@[simp] theorem source_kept (cs : List Char) : source (cs.map .kept) = cs := by
  simp [source, List.filterMap_map, Function.comp_def, kept?]

@[simp] theorem blocks_kept (cs : List Char) : blocks (cs.map .kept) = [] := by
  simp [blocks, block?]

@[simp] theorem render_block (texts : List String) :
    render (texts.map .block) = (String.join texts).toList := by
  simp [render, List.flatMap_map, chars]

@[simp] theorem source_block (texts : List String) : source (texts.map .block) = [] := by
  simp [source, kept?]

@[simp] theorem blocks_block (texts : List String) : blocks (texts.map .block) = texts := by
  simp [blocks, List.filterMap_map, Function.comp_def, block?]

/-- Blocks are the only thing that makes a text longer than its base. -/
theorem length_render (ps : List Piece) :
    (render ps).length = (source ps).length + (String.join (blocks ps)).length := by
  induction ps with
  | nil => rfl
  | cons p ps ih =>
      cases p with
      | kept c =>
          rw [render_kept_cons, source_kept_cons, blocks_kept_cons, List.length_cons, List.length_cons,
            ih]
          omega
      | block text =>
          rw [render_block_cons, source_block_cons, blocks_block_cons, List.length_append,
            String.length_toList, String.join_cons, String.length_append, ih]
          omega

theorem join_eq_empty_iff {texts : List String} : String.join texts = "" ↔ ∀ b ∈ texts, b = "" := by
  rw [← String.toList_inj]
  simp

/-- The blocks change nothing exactly if all of them are empty. -/
theorem render_eq_source_iff (ps : List Piece) : render ps = source ps ↔ ∀ b ∈ blocks ps, b = "" := by
  constructor
  · intro h
    have length := length_render ps
    rw [h] at length
    have empty : (String.join (blocks ps)).length = 0 := by omega
    exact join_eq_empty_iff.mp (String.length_eq_zero_iff.mp empty)
  · intro h
    induction ps with
    | nil => rfl
    | cons p ps ih =>
        cases p with
        | kept c => rw [render_kept_cons, source_kept_cons, ih h]
        | block text =>
            rw [blocks_block_cons, List.forall_mem_cons] at h
            rw [render_block_cons, source_block_cons, ih h.2, h.1]
            rfl

end Piece

namespace Insertion

theorem precedes_iff {i j : Insertion} :
    i.precedes j = true ↔
      i.offset < j.offset ∨ i.offset = j.offset ∧ (i.side = .left ∨ j.side = .right) := by
  simp [precedes]

theorem precedes_trans (i j k : Insertion) (hij : i.precedes j = true) (hjk : j.precedes k = true) :
    i.precedes k = true := by
  rw [precedes_iff] at *
  rcases hij with lt | ⟨eq, sides⟩
  · exact .inl (by omega)
  · rcases hjk with lt' | ⟨eq', sides'⟩
    · exact .inl (by omega)
    · refine .inr ⟨eq.trans eq', ?_⟩
      rcases sides with left | right
      · exact .inl left
      · rcases sides' with left | right
        · rw [left] at right
          cases right
        · exact .inr right

theorem precedes_total (i j : Insertion) : (i.precedes j || j.precedes i) = true := by
  rw [Bool.or_eq_true, precedes_iff, precedes_iff]
  cases hi : i.side <;> cases hj : j.side <;> simp <;> omega

end Insertion

namespace Overlay

/-! ## Weaving -/

/-- Insertions in the order of their offsets, none of which is before the end of `before`, are woven
into the rest of the text. The induction is on the insertions: up to the first of them the text is
kept, and the weaving goes on from there. -/
theorem weave?_eq_render (before rest : List Char) (is : List Insertion)
    (sorted : is.Pairwise (·.offset ≤ ·.offset))
    (placed : ∀ i ∈ is, ∃ part after, rest = part ++ after ∧
      i.offset = Text.byteLength (before ++ part)) :
    ∃ ps, weave? (before ++ rest) (Text.byteLength before) is = some (Piece.render ps) ∧
      Piece.source ps = rest ∧ Piece.blocks ps = is.map (·.text) := by
  induction is generalizing before rest with
  | nil =>
      refine ⟨rest.map .kept, ?_, Piece.source_kept rest, Piece.blocks_kept rest⟩
      have h := Text.slice?_append before rest []
      rw [List.append_nil] at h
      rw [weave?, h, Piece.render_kept]
  | cons i is ih =>
      obtain ⟨part, after, rfl, hi⟩ := placed i (List.mem_cons_self ..)
      rw [List.pairwise_cons] at sorted
      have placed' : ∀ j ∈ is, ∃ part' after', after = part' ++ after' ∧
          j.offset = Text.byteLength (before ++ part ++ part') := by
        intro j hj
        obtain ⟨part', after', e, hj'⟩ := placed j (List.mem_cons_of_mem _ hj)
        have hle := sorted.1 j hj
        rw [hi, hj', Text.byteLength_append, Text.byteLength_append] at hle
        obtain ⟨part'', rfl, rfl⟩ := Text.eq_append_of_byteLength_le e (by omega)
        exact ⟨part'', after', rfl, by rw [hj', List.append_assoc]⟩
      obtain ⟨ps, hw, hs, hb⟩ := ih (before ++ part) after sorted.2 placed'
      refine ⟨part.map .kept ++ .block i.text :: ps, ?_, ?_, ?_⟩
      · rw [weave?, hi, ← List.append_assoc, Text.slice?_append, Option.bind_eq_bind, Option.bind_some,
          hw]
        simp
      · simp [hs]
      · simp [hb]

theorem pairwise_mergeSort (is : List Insertion) :
    (is.mergeSort Insertion.precedes).Pairwise (·.offset ≤ ·.offset) := by
  refine (List.pairwise_mergeSort Insertion.precedes_trans Insertion.precedes_total is).imp ?_
  intro i j h
  rw [Insertion.precedes_iff] at h
  omega

/-! ## Overlays and their blocks -/

/-- The overlay holds these blocks, in some order, each at an offset of its base or at an end. -/
structure Carries (o : Overlay) (blocks : List String) : Prop where
  placed : ∀ i ∈ o.insertions, Text.IsOffset o.base.toList i.offset
  parts : ∃ front back, o.intro = String.join front ∧ o.outro = String.join back ∧
    (front ++ o.insertions.map (·.text) ++ back).Perm blocks

namespace Carries

variable {o : Overlay} {blocks : List String}

theorem ofString (base : String) : (Overlay.ofString base).Carries [] where
  placed := by simp [Overlay.ofString]
  parts := ⟨[], [], rfl, rfl, .nil⟩

theorem prepend (h : o.Carries blocks) (text : String) : (o.prepend text).Carries (text :: blocks) where
  placed := h.placed
  parts := by
    obtain ⟨front, back, hf, hb, perm⟩ := h.parts
    exact ⟨text :: front, back, by simp [Overlay.prepend, hf], hb, perm.cons text⟩

theorem append (h : o.Carries blocks) (text : String) : (o.append text).Carries (text :: blocks) where
  placed := h.placed
  parts := by
    obtain ⟨front, back, hf, hb, perm⟩ := h.parts
    refine ⟨front, back ++ [text], hf, by simp [Overlay.append, hb], ?_⟩
    rw [← List.append_assoc]
    exact (List.perm_append_singleton text _).trans (perm.cons text)

theorem insert (h : o.Carries blocks) (offset : Nat) (side : Side) (text : String) :
    Carries { o with insertions := o.insertions ++ [⟨o.clamp offset, side, text⟩] } (text :: blocks) where
  placed := by
    intro i hi
    rcases List.mem_append.mp hi with hi | hi
    · exact h.placed i hi
    · rw [List.mem_singleton.mp hi]
      exact Text.isOffset_floorOffset _ _
  parts := by
    obtain ⟨front, back, hf, hb, perm⟩ := h.parts
    refine ⟨front, back, hf, hb, ?_⟩
    have move : (front ++ (o.insertions.map (·.text) ++ [text]) ++ back).Perm
        (text :: (front ++ o.insertions.map (·.text) ++ back)) := by
      rw [← List.append_assoc, List.append_assoc _ [text] back]
      exact List.perm_middle
    rw [List.map_append]
    exact move.trans (perm.cons text)

/-- At the beginning, text that sticks to the left comes after the intro. -/
theorem appendLeft (h : o.Carries blocks) (offset : Nat) (text : String) :
    (o.appendLeft offset text).Carries (text :: blocks) := by
  unfold Overlay.appendLeft
  split
  · refine ⟨h.placed, ?_⟩
    obtain ⟨front, back, hf, hb, perm⟩ := h.parts
    have move : (front ++ [text] ++ o.insertions.map (·.text) ++ back).Perm
        (text :: (front ++ o.insertions.map (·.text) ++ back)) := by
      simp
    exact ⟨front ++ [text], back, by simp [hf], hb, move.trans (perm.cons text)⟩
  · exact h.insert offset .left text

/-- At the end, text that sticks to the right comes after the outro. -/
theorem appendRight (h : o.Carries blocks) (offset : Nat) (text : String) :
    (o.appendRight offset text).Carries (text :: blocks) := by
  unfold Overlay.appendRight
  split
  · exact h.append text
  · exact h.insert offset .right text

/-- An overlay that carries blocks has a text, which is its base with these blocks in it. -/
theorem text?_eq_render (h : o.Carries blocks) :
    ∃ ps, o.text? = some (String.ofList (Piece.render ps)) ∧ Piece.source ps = o.base.toList ∧
      (Piece.blocks ps).Perm blocks := by
  obtain ⟨front, back, hf, hb, perm⟩ := h.parts
  have sortPerm := List.mergeSort_perm o.insertions Insertion.precedes
  have placed : ∀ i ∈ o.insertions.mergeSort Insertion.precedes, ∃ part after,
      o.base.toList = part ++ after ∧ i.offset = Text.byteLength ([] ++ part) := by
    intro i hi
    exact Text.isOffset_iff.mp (h.placed i (sortPerm.mem_iff.mp hi))
  obtain ⟨ps, hw, hs, hblocks⟩ :=
    weave?_eq_render [] o.base.toList _ (pairwise_mergeSort o.insertions) placed
  rw [List.nil_append, Text.byteLength_nil] at hw
  refine ⟨front.map .block ++ ps ++ back.map .block, ?_, ?_, ?_⟩
  · have joined : o.intro ++ String.ofList (Piece.render ps) ++ o.outro =
        String.ofList (Piece.render (front.map .block ++ ps ++ back.map .block)) := by
      apply String.toList_inj.mp
      simp [hf, hb]
    rw [text?, hw, ← joined]
    rfl
  · simp [hs]
  · rw [Piece.blocks_append, Piece.blocks_append, Piece.blocks_block, Piece.blocks_block, hblocks]
    exact (((sortPerm.map _).append_left front).append_right back).trans perm

/-- An overlay has changed exactly if one of its blocks is not empty. -/
theorem hasChanged_iff (h : o.Carries blocks) : o.hasChanged = true ↔ ∃ b ∈ blocks, b ≠ "" := by
  obtain ⟨front, back, hf, hb, perm⟩ := h.parts
  have join (texts : List String) : String.join texts ≠ "" ↔ ∃ b ∈ texts, b ≠ "" := by
    rw [ne_eq, Piece.join_eq_empty_iff]
    push Not
    rfl
  have mem (b : String) : b ∈ blocks ↔ b ∈ front ∨ b ∈ o.insertions.map (·.text) ∨ b ∈ back := by
    rw [← perm.mem_iff, List.mem_append, List.mem_append, or_assoc]
  simp only [hasChanged, hf, hb, Bool.or_eq_true, decide_eq_true_eq, join, List.any_eq_true, mem,
    List.mem_map]
  constructor
  · rintro ((⟨b, hm, hne⟩ | ⟨b, hm, hne⟩) | ⟨i, hm, hne⟩)
    · exact ⟨b, .inl hm, hne⟩
    · exact ⟨b, .inr (.inr hm), hne⟩
    · exact ⟨i.text, .inr (.inl ⟨i, hm, rfl⟩), hne⟩
  · rintro ⟨b, hm | ⟨i, hm, rfl⟩ | hm, hne⟩
    · exact .inl (.inl ⟨b, hm, hne⟩)
    · exact .inr ⟨i, hm, hne⟩
    · exact .inl (.inr ⟨b, hm, hne⟩)

/-- The text of an overlay differs from its base exactly if the overlay has changed. -/
theorem hasChanged_iff_text_ne (h : o.Carries blocks) : o.hasChanged = true ↔ o.text ≠ o.base := by
  obtain ⟨ps, ht, hs, perm⟩ := h.text?_eq_render
  have text : o.text = o.base ↔ Piece.render ps = Piece.source ps := by
    rw [Overlay.text, ht, Option.getD_some, hs, ← String.toList_inj, String.toList_ofList]
  rw [h.hasChanged_iff, ne_eq, text, Piece.render_eq_source_iff]
  push Not
  exact ⟨fun ⟨b, hb, hne⟩ => ⟨b, perm.mem_iff.mpr hb, hne⟩,
    fun ⟨b, hb, hne⟩ => ⟨b, perm.mem_iff.mp hb, hne⟩⟩

end Carries

end Overlay

end ImportWeave
