import ImportWeave.Proofs.Text.Splitting
import ImportWeave.Specifier.Path
import Mathlib.Data.List.Infix

/-! # Normal forms of paths

Below a root, the normal form of a path has no empty parts and no steps. So it is written in one way, and
the way from a directory to a target leads to the target: behind the directory, it has the normal form of
the target. -/

namespace ImportWeave

open Specifier

namespace Path

/-! ## Parts and their text -/

/-- The part has no slash in it. -/
def IsPlainPart (part : String) : Prop := ∀ c ∈ part.toList, isSlash c = false

theorem isPlainPart_of_mem_parts {cs : List Char} {part : String} (h : part ∈ parts cs) :
    IsPlainPart part := by
  obtain ⟨piece, hp, rfl⟩ := List.mem_map.mp h
  intro c hc
  rw [String.toList_ofList] at hc
  exact Text.not_of_mem_splitOn hp c hc

theorem isPlainPart_up : IsPlainPart ".." := by
  intro c hc
  rcases (by simpa using hc : c = '.') with rfl
  rfl

theorem parts_append_cons {slash : Char} (h : isSlash slash = true) (cs ds : List Char) :
    parts (cs ++ slash :: ds) = parts cs ++ parts ds := by
  rw [parts, Text.splitOn_append_cons h, List.map_append]
  rfl

theorem parts_of_isPlainPart {part : String} (h : IsPlainPart part) : parts part.toList = [part] := by
  rw [parts, Text.splitOn_eq_singleton h, List.map_singleton, String.ofList_toList]

/-- Parts that are written with slashes between them are read as they were. -/
theorem parts_intercalate {segments : List String} (nonempty : segments ≠ [])
    (h : ∀ s ∈ segments, IsPlainPart s) : parts ("/".intercalate segments).toList = segments := by
  induction segments with
  | nil => exact absurd rfl nonempty
  | cons s segments ih =>
      obtain ⟨hs, h⟩ := List.forall_mem_cons.mp h
      rw [String.toList_intercalate]
      cases segments with
      | nil =>
          rw [List.map_singleton, List.intercalate_singleton]
          exact parts_of_isPlainPart hs
      | cons s' segments =>
          have tail := ih (List.cons_ne_nil _ _) h
          rw [String.toList_intercalate] at tail
          have slash : "/".toList = ['/'] := rfl
          rw [List.map_cons, List.intercalate_cons_of_ne_nil (by simp), slash, List.append_assoc,
            List.singleton_append, parts_append_cons rfl, parts_of_isPlainPart hs, ← slash, tail,
            List.singleton_append]

/-! ## Parts of a normal form -/

/-- A part of a normal form below a root. -/
structure IsSegment (part : String) : Prop where
  ne_empty : part ≠ ""
  ne_here : part ≠ "."
  ne_up : part ≠ ".."
  plain : IsPlainPart part

theorem enter_of_isSegment {part : String} (h : IsSegment part) (rooted : Bool) (above : List String) :
    enter rooted above part = part :: above := by
  simp [enter, h.ne_empty, h.ne_here, h.ne_up]

theorem enter_up {last : String} (h : last ≠ "..") (rooted : Bool) (above : List String) :
    enter rooted (last :: above) ".." = above := by
  simp [enter, h]

/-- What is entered below a root is a part of a normal form. -/
theorem isSegment_of_mem_enter {above : List String} {part : String}
    (h : ∀ s ∈ above, IsSegment s) (plain : IsPlainPart part) :
    ∀ s ∈ enter true above part, IsSegment s := by
  unfold enter
  split
  · exact h
  · next stays =>
      obtain ⟨empty, here⟩ := not_or.mp stays
      split
      · cases above with
        | nil => simp
        | cons last above =>
            obtain ⟨hl, ha⟩ := List.forall_mem_cons.mp h
            simp only [if_pos hl.ne_up]
            exact ha
      · next up => exact List.forall_mem_cons.mpr ⟨⟨empty, here, up, plain⟩, h⟩

theorem isSegment_of_mem_foldl_enter {parts above : List String} (h : ∀ s ∈ above, IsSegment s)
    (plain : ∀ s ∈ parts, IsPlainPart s) : ∀ s ∈ parts.foldl (enter true) above, IsSegment s := by
  induction parts generalizing above with
  | nil => exact h
  | cons part parts ih =>
      obtain ⟨hp, plain⟩ := List.forall_mem_cons.mp plain
      exact ih (isSegment_of_mem_enter h hp) plain

theorem foldl_enter_segments {segments : List String} (h : ∀ s ∈ segments, IsSegment s)
    (rooted : Bool) (above : List String) :
    segments.foldl (enter rooted) above = segments.reverse ++ above := by
  induction segments generalizing above with
  | nil => rfl
  | cons s segments ih =>
      obtain ⟨hs, h⟩ := List.forall_mem_cons.mp h
      rw [List.foldl_cons, enter_of_isSegment hs, ih h, List.reverse_cons, List.append_assoc,
        List.singleton_append]

/-- As many steps up as there are parts lead back to where these start. -/
theorem foldl_enter_ups {ups : List String} (h : ∀ s ∈ ups, IsSegment s) (rooted : Bool)
    (above : List String) :
    (ups.map fun _ => "..").foldl (enter rooted) (ups ++ above) = above := by
  induction ups with
  | nil => rfl
  | cons s ups ih =>
      obtain ⟨hs, h⟩ := List.forall_mem_cons.mp h
      rw [List.map_cons, List.foldl_cons, List.cons_append, enter_up hs.ne_up, ih h]

/-! ## Roots -/

/-- The beginning of a path that is its root: a slash, or a drive letter with a colon and a slash. -/
def IsRoot (front : List Char) : Prop :=
  (∃ slash, front = [slash] ∧ isSlash slash = true) ∨
    ∃ letter slash, front = [letter, ':', slash] ∧ letter.isAlpha = true ∧ isSlash slash = true

theorem isAlpha_of_isSlash {c : Char} (h : isSlash c = true) : c.isAlpha = false := by
  rcases (by simpa [isSlash] using h : c = '/' ∨ c = '\\') with rfl | rfl <;> rfl

theorem drive?_of_not_isAlpha {c : Char} (h : c.isAlpha = false) (cs : List Char) :
    drive? (c :: cs) = none := by
  unfold drive?
  split
  · next e =>
      rw [← (List.cons.inj e).1, h]
      rfl
  · rfl

theorem drive?_root {letter slash : Char} (hl : letter.isAlpha = true) (hs : isSlash slash = true)
    (cs : List Char) : drive? (letter :: ':' :: slash :: cs) = some (letter, cs) := by
  simp [drive?, hl, hs]

theorem isAbsolute_iff {text : String} :
    isAbsolute text = true ↔ ∃ front rest, text.toList = front ++ rest ∧ IsRoot front := by
  constructor
  · intro h
    rcases Bool.or_eq_true_iff.mp h with h | h
    · cases e : text.toList with
      | nil =>
          rw [e] at h
          cases h
      | cons c cs =>
          rw [e] at h
          exact ⟨[c], cs, rfl, .inl ⟨c, rfl, h⟩⟩
    · unfold drive? at h
      split at h
      · next letter slash path e =>
          split at h
          · next hd =>
              obtain ⟨hl, hs⟩ := Bool.and_eq_true_iff.mp hd
              exact ⟨[letter, ':', slash], path, e, .inr ⟨letter, slash, rfl, hl, hs⟩⟩
          · cases h
      · cases h
  · rintro ⟨front, rest, e, ⟨slash, rfl, hs⟩ | ⟨letter, slash, rfl, hl, hs⟩⟩
    · simp [isAbsolute, e, startsWithSlash, hs]
    · have drive := drive?_root hl hs rest
      simp only [List.cons_append, List.nil_append] at e
      simp [isAbsolute, e, drive]

theorem splitRoot_append {front : List Char} (h : IsRoot front) (rest : List Char) :
    splitRoot (front ++ rest) = ((splitRoot front).1, rest) := by
  rcases h with ⟨slash, rfl, hs⟩ | ⟨letter, slash, rfl, hl, hs⟩
  · have none (cs : List Char) : drive? (slash :: cs) = none :=
      drive?_of_not_isAlpha (isAlpha_of_isSlash hs) cs
    simp [splitRoot, none, hs]
  · have drive (cs : List Char) := drive?_root hl hs cs
    simp [splitRoot, drive]

/-- Letters have small codes, so this can be checked code by code. -/
theorem toUpper_of_isAlpha {letter : Char} (h : letter.isAlpha = true) :
    letter.toUpper.isAlpha = true ∧ letter.toUpper.toUpper = letter.toUpper := by
  have all : ∀ n < 123, (Char.ofNat n).isAlpha = true → (Char.ofNat n).toUpper.isAlpha = true ∧
      (Char.ofNat n).toUpper.toUpper = (Char.ofNat n).toUpper := by decide
  have small : letter.toNat < 123 := by
    have := Text.isAlpha_iff_toNat.mp h
    omega
  rw [← Char.ofNat_toNat letter] at h ⊢
  exact all letter.toNat small h

/-- A root is written as a slash, or as a drive in upper case. -/
theorem splitRoot_root {front : List Char} (h : IsRoot front) :
    (splitRoot front).1 = "/" ∨ ∃ letter, letter.isAlpha = true ∧ letter.toUpper = letter ∧
      (splitRoot front).1 = String.ofList [letter, ':', '/'] := by
  rcases h with ⟨slash, rfl, hs⟩ | ⟨letter, slash, rfl, hl, hs⟩
  · have none := drive?_of_not_isAlpha (isAlpha_of_isSlash hs) []
    exact .inl (by simp [splitRoot, none, hs])
  · obtain ⟨alpha, upper⟩ := toUpper_of_isAlpha hl
    exact .inr ⟨letter.toUpper, alpha, upper, by simp [splitRoot, drive?_root hl hs]⟩

theorem ne_empty_of_isRoot {front : List Char} (h : IsRoot front) : (splitRoot front).1 ≠ "" := by
  rcases splitRoot_root h with e | ⟨letter, -, -, e⟩
  · rw [e]
    decide
  · rw [e]
    intro empty
    have := congrArg String.toList empty
    simp at this

/-- The root in its written form is a root again, and its own written form. -/
theorem isRoot_splitRoot {front : List Char} (h : IsRoot front) :
    IsRoot (splitRoot front).1.toList ∧
      (splitRoot (splitRoot front).1.toList).1 = (splitRoot front).1 := by
  rcases splitRoot_root h with e | ⟨letter, hl, upper, e⟩
  · rw [e]
    exact ⟨.inl ⟨'/', rfl, rfl⟩, rfl⟩
  · rw [e, String.toList_ofList]
    refine ⟨.inr ⟨letter, '/', rfl, hl, rfl⟩, ?_⟩
    simp [splitRoot, drive?_root hl (rfl : isSlash '/' = true), upper]

/-! ## The normal form of a text -/

theorem ofString_of_root {text : String} {front rest : List Char} (h : text.toList = front ++ rest)
    (root : IsRoot front) :
    ofString text = ⟨(splitRoot front).1, normalize true (parts rest)⟩ := by
  rw [ofString, h, splitRoot_append root]
  simp [ne_empty_of_isRoot root]

theorem root_ofString {text : String} (h : isAbsolute text = true) :
    (ofString text).root = "/" ∨ ∃ letter, letter.isAlpha = true ∧
      (ofString text).root = String.ofList [letter, ':', '/'] := by
  obtain ⟨front, rest, e, root⟩ := isAbsolute_iff.mp h
  rw [ofString_of_root e root]
  exact (splitRoot_root root).imp id fun ⟨letter, alpha, _, e⟩ => ⟨letter, alpha, e⟩

theorem isSegment_of_mem_ofString {text : String} (h : isAbsolute text = true) :
    ∀ s ∈ (ofString text).segments, IsSegment s := by
  obtain ⟨front, rest, e, root⟩ := isAbsolute_iff.mp h
  rw [ofString_of_root e root]
  intro s hs
  refine isSegment_of_mem_foldl_enter (by simp) ?_ s (List.mem_reverse.mp hs)
  exact fun _ => isPlainPart_of_mem_parts

/-- A path behind a directory is entered from there. -/
theorem ofString_below {dir : String} (h : isAbsolute dir = true) (path : String) :
    ofString (dir ++ "/" ++ path) = ⟨(ofString dir).root,
      ((parts path.toList).foldl (enter true) (ofString dir).segments.reverse).reverse⟩ := by
  obtain ⟨front, rest, e, root⟩ := isAbsolute_iff.mp h
  have text : (dir ++ "/" ++ path).toList = front ++ (rest ++ '/' :: path.toList) := by
    simp [e]
  rw [ofString_of_root text root, ofString_of_root e root, parts_append_cons rfl]
  simp only [normalize, List.foldl_append, List.reverse_reverse]

/-- The empty path has an empty part, which leads nowhere. -/
theorem foldl_enter_parts_intercalate {way : List String} (h : ∀ s ∈ way, IsPlainPart s)
    (above : List String) :
    (parts ("/".intercalate way).toList).foldl (enter true) above = way.foldl (enter true) above := by
  cases way with
  | nil => rfl
  | cons s way => rw [parts_intercalate (List.cons_ne_nil _ _) h]

/-- A normal form below a root is read as it is written. -/
theorem ofString_render {text : String} (h : isAbsolute text = true) :
    ofString (ofString text).render = ofString text := by
  have segments := isSegment_of_mem_ofString h
  obtain ⟨front, rest, e, root⟩ := isAbsolute_iff.mp h
  rw [ofString_of_root e root] at segments ⊢
  obtain ⟨again, same⟩ := isRoot_splitRoot root
  generalize normalize true (parts rest) = way at segments ⊢
  have written : (render ⟨(splitRoot front).1, way⟩).toList =
      (splitRoot front).1.toList ++ ("/".intercalate way).toList := by
    rw [render, String.toList_append]
  rw [ofString_of_root written again, same, normalize,
    foldl_enter_parts_intercalate fun s hs => (segments s hs).plain, foldl_enter_segments segments,
    List.append_nil, List.reverse_reverse]

/-! ## The way from a directory to a target -/

theorem dropShared_append (as bs : List String) : dropShared as (as ++ bs) = ([], bs) := by
  induction as with
  | nil => cases bs <;> rfl
  | cons a as ih => rw [List.cons_append, dropShared, if_pos rfl, ih]

theorem exists_shared (as bs : List String) :
    ∃ shared, as = shared ++ (dropShared as bs).1 ∧ bs = shared ++ (dropShared as bs).2 := by
  fun_induction dropShared as bs with
  | case1 as a bs ih =>
      obtain ⟨shared, ha, hb⟩ := ih
      exact ⟨a :: shared, by rw [List.cons_append, ← ha], by rw [List.cons_append, ← hb]⟩
  | case2 => exact ⟨[], rfl, rfl⟩
  | case3 => exact ⟨[], rfl, rfl⟩

/-- The parts of the way: up to what the two have in common, then down. -/
def way (source goal : List String) : List String :=
  (dropShared source goal).1.map (fun _ => "..") ++ (dropShared source goal).2

theorem relative_of_root_eq {dir target : String} (h : (ofString dir).root = (ofString target).root) :
    relative dir target = "/".intercalate (way (ofString dir).segments (ofString target).segments) := by
  simp only [relative]
  exact if_neg (not_not.mpr h)

theorem relative_of_root_ne {dir target : String} (h : (ofString dir).root ≠ (ofString target).root) :
    relative dir target = (ofString target).render := by
  simp only [relative]
  exact if_pos h

/-- What is below the directory is reached by going down. -/
theorem way_append (source below : List String) : way source (source ++ below) = below := by
  rw [way, dropShared_append]
  rfl

/-- What is not below the directory is reached by going up first. -/
theorem exists_way_eq_up {source goal : List String} (h : ¬ source <+: goal) :
    ∃ rest, way source goal = ".." :: rest := by
  obtain ⟨shared, hs, hg⟩ := exists_shared source goal
  cases up : (dropShared source goal).1 with
  | nil =>
      rw [up, List.append_nil] at hs
      exact absurd ⟨_, (congrArg (· ++ _) hs).trans hg.symm⟩ h
  | cons s ups => exact ⟨_, by rw [way, up]; rfl⟩

section Way

variable {source goal : List String} (hs : ∀ s ∈ source, IsSegment s) (hg : ∀ s ∈ goal, IsSegment s)

include hg

theorem isPlainPart_of_mem_way : ∀ s ∈ way source goal, IsPlainPart s := by
  obtain ⟨shared, -, eg⟩ := exists_shared source goal
  intro s hm
  rcases List.mem_append.mp hm with hm | hm
  · obtain ⟨-, -, rfl⟩ := List.mem_map.mp hm
    exact isPlainPart_up
  · exact (hg s (eg ▸ List.mem_append_right _ hm)).plain

include hs

/-- The way leads from the one to the other. -/
theorem foldl_enter_way : (way source goal).foldl (enter true) source.reverse = goal.reverse := by
  obtain ⟨shared, es, eg⟩ := exists_shared source goal
  rw [way]
  generalize dropShared source goal = left at es eg ⊢
  subst es eg
  have ups : ∀ s ∈ left.1.reverse, IsSegment s := fun s h =>
    hs s (List.mem_append_right _ (List.mem_reverse.mp h))
  have steps : left.1.map (fun _ => "..") = left.1.reverse.map fun _ => ".." := by
    rw [List.map_const', List.map_const', List.length_reverse]
  rw [List.foldl_append, List.reverse_append, steps, foldl_enter_ups ups,
    foldl_enter_segments fun s h => hg s (List.mem_append_right _ h), List.reverse_append]

end Way

/-- Behind its directory, a way with the same root leads to the target. -/
theorem ofString_relative {dir target : String} (hd : isAbsolute dir = true)
    (ht : isAbsolute target = true) (root : (ofString dir).root = (ofString target).root) :
    ofString (dir ++ "/" ++ relative dir target) = ofString target := by
  have hs := isSegment_of_mem_ofString hd
  have hg := isSegment_of_mem_ofString ht
  rw [ofString_below hd, relative_of_root_eq root,
    foldl_enter_parts_intercalate (isPlainPart_of_mem_way hg), foldl_enter_way hs hg,
    List.reverse_reverse, root]

/-- A way leads as often up as the directory has parts that the target does not share, and then down
through the other parts of the target. -/
theorem way_eq_up_down (source goal : List String) :
    ∃ shared ups names, source = shared ++ ups ∧ goal = shared ++ names ∧
      way source goal = List.replicate ups.length ".." ++ names := by
  obtain ⟨shared, es, eg⟩ := exists_shared source goal
  exact ⟨shared, _, _, es, eg, by rw [way, List.map_const']⟩

/-- With the root of the target, a directory and the way from it lead to the target, and the way consists
of steps up and then of parts of a normal form. With another root, the target is written in full. -/
theorem relative_leads_to_target {dir target : String} (hd : isAbsolute dir = true)
    (ht : isAbsolute target = true) :
    ((ofString dir).root = (ofString target).root →
      ofString (dir ++ "/" ++ relative dir target) = ofString target ∧
      ∃ shared ups names, (ofString dir).segments = shared ++ ups ∧
        (ofString target).segments = shared ++ names ∧
        relative dir target = "/".intercalate (List.replicate ups.length ".." ++ names) ∧
        ∀ s ∈ names, IsSegment s) ∧
    ((ofString dir).root ≠ (ofString target).root →
      ofString (relative dir target) = ofString target) := by
  constructor
  · intro root
    refine ⟨ofString_relative hd ht root, ?_⟩
    obtain ⟨shared, ups, names, es, eg, up_down⟩ :=
      way_eq_up_down (ofString dir).segments (ofString target).segments
    refine ⟨shared, ups, names, es, eg, by rw [relative_of_root_eq root, up_down], ?_⟩
    intro s hs
    exact isSegment_of_mem_ofString ht s (eg ▸ List.mem_append_right _ hs)
  · intro root
    rw [relative_of_root_ne root, ofString_render ht]

/-- Steps above the root, slashes of both kinds and drives in both cases. -/
theorem relative_leads_to_target_on_drive :
    let dir := "c:\\a\\..\\..\\b/./c"
    let target := "C://b/d/../e"
    relative dir target = "../e" ∧ ofString (dir ++ "/" ++ relative dir target) = ⟨"C:/", ["b", "e"]⟩ ∧
      relative "/b" target = "C:/b/e" ∧ ofString (relative "/b" target) = ⟨"C:/", ["b", "e"]⟩ := by
  intro dir target
  have goal : ofString target = ⟨"C:/", ["b", "e"]⟩ := by decide +kernel
  have sameRoot : (ofString dir).root = (ofString target).root := by decide +kernel
  have otherRoot : (ofString "/b").root ≠ (ofString target).root := by decide +kernel
  refine ⟨by decide +kernel, ?_, by decide +kernel, ?_⟩
  · rw [((relative_leads_to_target (by decide +kernel) (by decide +kernel)).1 sameRoot).1, goal]
  · rw [(relative_leads_to_target (by decide +kernel) (by decide +kernel)).2 otherRoot, goal]

end Path

end ImportWeave
