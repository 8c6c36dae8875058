import ImportWeave.Proofs.Specifier.Paths
import ImportWeave.Proofs.Statement.Modules

/-! # Where exports point to

The specifier of an export statement is a path that is seen from the directory of the exporting file. With
the root of that directory it leads back to the module. It is taken for relative by its first character
alone, so a part below the directory that starts with a point is not marked as relative. With another root
it is written in full, but a drive at its beginning is taken for a part below the directory. -/

namespace ImportWeave

open ImportWeave.Path

namespace Specifier

/-- The specifier is read as relative to the file that it stands in. -/
def IsRelative (specifier : String) : Prop :=
  specifier = "." ∨ specifier = ".." ∨ "./".toList <+: specifier.toList ∨
    "../".toList <+: specifier.toList

instance (specifier : String) : Decidable (IsRelative specifier) :=
  inferInstanceAs (Decidable (_ ∨ _))

/-! ## The first part of a path -/

/-- What stands in front of the first slash. -/
def firstPart (cs : List Char) : List Char := cs.takeWhile (· ≠ '/')

theorem firstPart_append {part : String} (h : IsPlainPart part) (cs : List Char) :
    firstPart (part.toList ++ cs) = part.toList ++ firstPart cs := by
  refine List.takeWhile_append_of_pos fun c hc => decide_eq_true ?_
  rintro rfl
  exact absurd (h '/' hc) (by decide)

/-- A path of parts starts with the first of them. -/
theorem firstPart_intercalate {part : String} (h : IsPlainPart part) (parts : List String) :
    firstPart ("/".intercalate (part :: parts)).toList = part.toList := by
  rw [String.toList_intercalate, List.map_cons]
  cases parts with
  | nil =>
      rw [List.map_nil, List.intercalate_singleton, ← List.append_nil part.toList, firstPart_append h]
      rfl
  | cons part' parts =>
      rw [List.intercalate_cons_of_ne_nil (by simp), List.append_assoc, firstPart_append h]
      exact List.append_nil _

theorem head?_intercalate {part : String} (h : IsPlainPart part) (nonempty : part ≠ "")
    (parts : List String) :
    ("/".intercalate (part :: parts)).toList.head? = part.toList.head? := by
  have first := firstPart_intercalate h parts
  cases path : ("/".intercalate (part :: parts)).toList with
  | nil =>
      rw [path] at first
      rw [← first]
      rfl
  | cons c cs =>
      rw [path, firstPart, List.takeWhile_cons] at first
      split at first
      · rw [← first]
        rfl
      · exact absurd (String.toList_inj.mp first.symm) nonempty

/-- A specifier is relative exactly if its first part is a step. -/
theorem isRelative_iff {specifier : String} :
    IsRelative specifier ↔ firstPart specifier.toList = ".".toList ∨
      firstPart specifier.toList = "..".toList := by
  constructor
  · rintro (rfl | rfl | ⟨rest, e⟩ | ⟨rest, e⟩)
    · exact .inl rfl
    · exact .inr rfl
    · exact .inl (e ▸ rfl)
    · exact .inr (e ▸ rfl)
  · have split : firstPart specifier.toList ++ specifier.toList.dropWhile (· ≠ '/') =
        specifier.toList := List.takeWhile_append_dropWhile
    intro h
    cases rest : specifier.toList.dropWhile (· ≠ '/') with
    | nil =>
        rw [rest, List.append_nil] at split
        rw [split] at h
        exact h.imp String.toList_inj.mp fun h => .inl (String.toList_inj.mp h)
    | cons c cs =>
        have slash : c = '/' := by
          have := List.head?_dropWhile_not (fun c => decide (c ≠ '/')) specifier.toList
          rw [rest] at this
          simpa using this
        rw [rest, slash] at split
        rcases h with h | h
        · exact .inr (.inr (.inl ⟨cs, by rw [← split, h]; rfl⟩))
        · exact .inr (.inr (.inr ⟨cs, by rw [← split, h]; rfl⟩))

theorem isRelative_here (path : String) : IsRelative ("./" ++ path) := by
  refine .inr (.inr (.inl ?_))
  rw [String.toList_append]
  exact List.prefix_append _ _

theorem isAbsolute_here (path : String) : isAbsolute ("./" ++ path) = false := by
  have cs : ("./" ++ path).toList = '.' :: '/' :: path.toList := by simp
  have drive : drive? ('.' :: '/' :: path.toList) = none := drive?_of_not_isAlpha rfl _
  rw [isAbsolute, cs, drive]
  rfl

/-! ## A specifier seen from a directory -/

theorem point_notMem_of_isRoot {front : List Char} (h : IsRoot front) : '.' ∉ front := by
  rintro hm
  rcases h with ⟨slash, rfl, hs⟩ | ⟨letter, slash, rfl, hl, hs⟩
  · rw [← List.mem_singleton.mp hm] at hs
    cases hs
  · simp only [List.mem_cons, List.not_mem_nil, or_false] at hm
    rcases hm with rfl | hm | rfl
    · cases hl
    · cases hm
    · cases hs

/-- A root is not part of an extension, which starts with a point. -/
theorem isAbsolute_withoutExtension {specifier : String} (h : isAbsolute specifier = true) :
    isAbsolute (withoutExtension specifier) = true := by
  unfold withoutExtension
  simp only
  split
  · next backwards stem _ drop =>
      have split : stem.reverse ++ '.' :: (specifier.toList.reverse.takeWhile isLowerAscii).reverse =
          specifier.toList := by
        have := List.takeWhile_append_dropWhile (p := isLowerAscii) (l := specifier.toList.reverse)
        rw [drop] at this
        simpa using congrArg List.reverse this
      obtain ⟨front, rest, e, root⟩ := isAbsolute_iff.mp h
      rw [← split] at e
      rcases List.append_eq_append_iff.mp e with ⟨between, rfl, point⟩ | ⟨between, stem', -⟩
      · cases between with
        | nil => exact isAbsolute_iff.mpr ⟨stem.reverse, [], by simp, by simpa using root⟩
        | cons c between =>
            rw [← (List.cons.inj point).1] at root
            exact absurd (by simp) (point_notMem_of_isRoot root)
      · exact isAbsolute_iff.mpr ⟨front, between, by simpa using stem', root⟩
  · exact h

theorem bare_of_isAbsolute {specifier : String} (h : isAbsolute specifier = true) :
    bare specifier = withoutExtension specifier := by
  have file : isFile specifier = true := by simp [isFile, h]
  rw [bare, if_pos file]

section SeenFrom

variable {dir target : String} (hd : isAbsolute dir = true) (ht : isAbsolute target = true)

include ht

/-- A path that starts with a point or a slash is written as it is. -/
theorem seenFrom_of_marked (marked : (relative dir target).toList.head? = some '.' ∨
    (relative dir target).toList.head? = some '/') :
    seenFrom (some dir) target = relative dir target := by
  simp only [seenFrom, if_pos ht]
  exact if_pos marked

/-- Every other path is marked as relative. -/
theorem seenFrom_of_not_marked (dot : (relative dir target).toList.head? ≠ some '.')
    (slash : (relative dir target).toList.head? ≠ some '/') :
    seenFrom (some dir) target = "./" ++ relative dir target := by
  simp only [seenFrom, if_pos ht]
  exact if_neg (not_or.mpr ⟨dot, slash⟩)

section SameRoot

variable (root : (ofString dir).root = (ofString target).root)

include root

/-- A target below the directory is marked as relative, unless the way there starts with a point. -/
theorem isRelative_seenFrom_below {down : List String}
    (below : (ofString target).segments = (ofString dir).segments ++ down) :
    IsRelative (seenFrom (some dir) target) ↔ ∀ part ∈ down.head?, part.toList.head? ≠ some '.' := by
  have path : relative dir target = "/".intercalate down := by
    rw [relative_of_root_eq root, below, way_append]
  cases down with
  | nil =>
      rw [seenFrom_of_not_marked ht (by rw [path]; simp) (by rw [path]; simp)]
      simp [isRelative_here]
  | cons part rest =>
      have segment : IsSegment part :=
        isSegment_of_mem_ofString ht part (below ▸ List.mem_append_right _ List.mem_cons_self)
      have head : (relative dir target).toList.head? = part.toList.head? := by
        rw [path, head?_intercalate segment.plain segment.ne_empty]
      have first : (∀ p ∈ (part :: rest).head?, p.toList.head? ≠ some '.') ↔
          part.toList.head? ≠ some '.' := by simp
      rw [first]
      by_cases point : part.toList.head? = some '.'
      · rw [seenFrom_of_marked ht (.inl (head.trans point)), path, isRelative_iff,
          firstPart_intercalate segment.plain]
        simp only [ne_eq, point, not_true_eq_false, iff_false, not_or]
        exact ⟨fun h => segment.ne_here (String.toList_inj.mp h),
          fun h => segment.ne_up (String.toList_inj.mp h)⟩
      · have slash : part.toList.head? ≠ some '/' := fun h =>
          absurd (segment.plain '/' (List.mem_of_mem_head? h)) (by decide)
        rw [seenFrom_of_not_marked ht (by rwa [head]) (by rwa [head])]
        simp only [isRelative_here, ne_eq, point, not_false_eq_true]

/-- The way to any other target starts with a step up. -/
theorem isRelative_seenFrom_aside (aside : ¬ (ofString dir).segments <+: (ofString target).segments) :
    IsRelative (seenFrom (some dir) target) := by
  obtain ⟨rest, up⟩ := exists_way_eq_up aside
  have path : relative dir target = "/".intercalate (".." :: rest) := by
    rw [relative_of_root_eq root, up]
  have plain : IsPlainPart ".." := isPlainPart_up
  have marked : (relative dir target).toList.head? = some '.' := by
    rw [path, head?_intercalate plain (by decide)]
    rfl
  rw [seenFrom_of_marked ht (.inl marked), path, isRelative_iff, firstPart_intercalate plain]
  exact .inr rfl

theorem isRelative_seenFrom_iff :
    IsRelative (seenFrom (some dir) target) ↔
      ∀ (part : String) (rest : List String),
        (ofString target).segments = (ofString dir).segments ++ part :: rest →
          part.toList.head? ≠ some '.' := by
  constructor
  · intro relative part rest below
    exact (isRelative_seenFrom_below ht root below).mp relative part rfl
  · intro h
    by_cases below : (ofString dir).segments <+: (ofString target).segments
    · obtain ⟨down, below⟩ := below
      refine (isRelative_seenFrom_below ht root below.symm).mpr ?_
      intro part hp
      obtain ⟨rest, rfl⟩ := List.head?_eq_some_iff.mp hp
      exact h part rest below.symm
    · exact isRelative_seenFrom_aside ht root below

include hd

/-- With the root of the directory, the specifier leads back. -/
theorem ofString_seenFrom : ofString (dir ++ "/" ++ seenFrom (some dir) target) = ofString target := by
  by_cases marked : (relative dir target).toList.head? = some '.' ∨
      (relative dir target).toList.head? = some '/'
  · rw [seenFrom_of_marked ht marked, ofString_relative hd ht root]
  · obtain ⟨point, slash⟩ := not_or.mp marked
    have here : parts ("./" ++ relative dir target).toList =
        "." :: parts (relative dir target).toList := by
      have written : ("./" ++ relative dir target).toList =
          ['.'] ++ '/' :: (relative dir target).toList := by simp
      rw [written, parts_append_cons rfl]
      rfl
    have same := ofString_relative hd ht root
    rw [ofString_below hd] at same
    rw [seenFrom_of_not_marked ht point slash, ofString_below hd, here, List.foldl_cons]
    exact same

end SameRoot

/-- With another root, the specifier is the target in full if that starts with a slash, and leads below
the directory if it starts with a drive. -/
theorem isAbsolute_seenFrom_iff (root : (ofString dir).root ≠ (ofString target).root) :
    (isAbsolute (seenFrom (some dir) target) = true ∧
      ofString (seenFrom (some dir) target) = ofString target) ↔ (ofString target).root = "/" := by
  have path := relative_of_root_ne root
  have written : (ofString target).render.toList =
      (ofString target).root.toList ++ ("/".intercalate (ofString target).segments).toList := by
    rw [render, String.toList_append]
  rcases root_ofString ht with slash | ⟨letter, alpha, drive⟩
  · rw [slash] at written
    have marked : (relative dir target).toList.head? = some '/' := by
      rw [path, written]
      rfl
    rw [seenFrom_of_marked ht (.inr marked), path]
    simp only [slash, iff_true]
    exact ⟨isAbsolute_iff.mpr ⟨_, _, written, .inl ⟨'/', rfl, rfl⟩⟩, ofString_render ht⟩
  · rw [drive, String.toList_ofList] at written
    have head : (relative dir target).toList.head? = some letter := by
      rw [path, written]
      rfl
    have other {c : Char} (hc : c.isAlpha = false) : (relative dir target).toList.head? ≠ some c := by
      rw [head]
      rintro ⟨⟩
      rw [alpha] at hc
      cases hc
    rw [seenFrom_of_not_marked ht (other rfl) (other rfl), drive]
    constructor
    · rintro ⟨absolute, -⟩
      rw [isAbsolute_here] at absolute
      cases absolute
    · intro h
      have := congrArg String.length h
      rw [String.length_ofList] at this
      cases this

end SeenFrom

end Specifier

open Specifier

namespace ExportStatement

def specifier : ExportStatement → String
  | .namespaceObject _ specifier | .named _ specifier => specifier

/-- The statement exports what the declaration stands for. -/
def Exports : ExportStatement → Declaration → Prop
  | .namespaceObject localName _, d => d.kind = .namespaceObject ∧ localName = d.namespaceAlias
  | .named bindings _, d => (d.kind = .default ∨ d.kind = .named) ∧ d.binding ∈ bindings

section OfModule

variable {specifier : String} {ds : List Declaration}

/-- A statement of a module has its specifier and exports one of its declarations. -/
theorem exists_exports_of_mem_ofModule {s : ExportStatement} (h : s ∈ ofModule specifier ds) :
    s.specifier = specifier ∧ ∃ d ∈ ds, s.Exports d := by
  rw [ofModule_eq] at h
  rcases List.mem_append.mp h with h | h
  · obtain ⟨d, hd, rfl⟩ := List.mem_map.mp h
    obtain ⟨hd, kind⟩ := List.mem_filter.mp hd
    exact ⟨rfl, d, hd, of_decide_eq_true kind, rfl⟩
  · rw [shared] at h
    split at h
    · cases h
    · next nonempty =>
        obtain ⟨d, hd⟩ := List.exists_mem_of_ne_nil _ nonempty
        obtain ⟨member, kind⟩ := List.mem_filter.mp hd
        rw [List.mem_singleton.mp h]
        exact ⟨rfl, d, member, of_decide_eq_true kind, List.mem_map_of_mem hd⟩

/-- Namespace objects, default exports and names are exported. -/
theorem exists_mem_ofModule {d : Declaration} (hd : d ∈ ds)
    (kind : d.kind = .namespaceObject ∨ d.kind = .default ∨ d.kind = .named) :
    ∃ s ∈ ofModule specifier ds, s.Exports d := by
  rw [ofModule_eq]
  rcases kind with kind | kind
  · refine ⟨_, List.mem_append_left _ (List.mem_map_of_mem (List.mem_filter.mpr
      ⟨hd, decide_eq_true kind⟩)), kind, rfl⟩
  · have member : d ∈ ds.filter fun d => d.kind = .default ∨ d.kind = .named :=
      List.mem_filter.mpr ⟨hd, decide_eq_true kind⟩
    rw [shared, if_neg (List.ne_nil_of_mem member)]
    exact ⟨_, List.mem_append_right _ (List.mem_singleton_self _), kind, List.mem_map_of_mem member⟩

end OfModule

section OfDeclarations

variable {fileDir : Option String} {includeTypes : Bool} {ds : List Declaration}

/-- A statement exports a declaration, and has its specifier as seen from the directory. -/
theorem exists_exports_of_mem {s : ExportStatement} (h : s ∈ ofDeclarations fileDir includeTypes ds) :
    ∃ d ∈ ds, d.isEmitted includeTypes = true ∧ s.Exports d ∧
      s.specifier = seenFrom fileDir (bare d.specifier) := by
  obtain ⟨⟨specifier, group⟩, hg, hs⟩ := List.mem_flatMap.mp h
  obtain ⟨written, d, member, exports⟩ := exists_exports_of_mem_ofModule hs
  obtain ⟨⟨hd, emitted⟩, rfl⟩ := (ModuleGroups.mem_group_iff hg).mp member
  exact ⟨d, hd, emitted, exports, written⟩

theorem exists_mem_ofDeclarations {d : Declaration} (hd : d ∈ ds)
    (emitted : d.isEmitted includeTypes = true)
    (kind : d.kind = .namespaceObject ∨ d.kind = .default ∨ d.kind = .named) :
    ∃ s ∈ ofDeclarations fileDir includeTypes ds, s.Exports d ∧
      s.specifier = seenFrom fileDir (bare d.specifier) := by
  obtain ⟨group, hg, member⟩ := ModuleGroups.exists_group hd emitted
  obtain ⟨s, hs, exports⟩ :=
    @exists_mem_ofModule (seenFrom fileDir (bare d.specifier)) group d member kind
  exact ⟨s, List.mem_flatMap.mpr ⟨(d.specifier, group), hg, hs⟩, exports,
    (exists_exports_of_mem_ofModule hs).1⟩

end OfDeclarations

end ExportStatement

/-- Export statements in a file of directory `dir`. Each has the specifier of a declaration that it
exports, and each declaration that can be exported has one. For a declaration of an absolute module: if
the module and the directory have one root, the specifier leads from the directory back to the module, and
it is relative exactly if the module is not below the directory with a part right below it that starts
with a point. If their roots differ, the specifier is absolute and that of the module exactly if the root
of the module is not a drive. -/
theorem export_specifiers_point_back_iff (dir : String) (hd : isAbsolute dir = true)
    (includeTypes : Bool) (ds : List Declaration) :
    (∀ s ∈ ExportStatement.ofDeclarations (some dir) includeTypes ds, ∃ d ∈ ds,
      d.isEmitted includeTypes = true ∧ s.Exports d ∧
        s.specifier = seenFrom (some dir) (bare d.specifier)) ∧
    ∀ d ∈ ds, d.isEmitted includeTypes = true →
      d.kind = .namespaceObject ∨ d.kind = .default ∨ d.kind = .named →
      isAbsolute d.specifier = true →
      ∃ s ∈ ExportStatement.ofDeclarations (some dir) includeTypes ds, s.Exports d ∧
        s.specifier = seenFrom (some dir) (bare d.specifier) ∧
        (let target := Path.ofString (withoutExtension d.specifier)
        ((Path.ofString dir).root = target.root →
          Path.ofString (dir ++ "/" ++ s.specifier) = target ∧
          (IsRelative s.specifier ↔ ∀ part rest,
            target.segments = (Path.ofString dir).segments ++ part :: rest →
              part.toList.head? ≠ some '.')) ∧
        ((Path.ofString dir).root ≠ target.root →
          ((isAbsolute s.specifier = true ∧ Path.ofString s.specifier = target) ↔
            target.root = "/"))) := by
  refine ⟨fun s hs => ExportStatement.exists_exports_of_mem hs, ?_⟩
  intro d member emitted kind absolute
  obtain ⟨s, hs, exports, written⟩ :=
    @ExportStatement.exists_mem_ofDeclarations (some dir) includeTypes ds d member emitted kind
  refine ⟨s, hs, exports, written, ?_⟩
  intro target
  have ht := isAbsolute_withoutExtension absolute
  rw [written, bare_of_isAbsolute absolute]
  exact ⟨fun root => ⟨ofString_seenFrom hd ht root, isRelative_seenFrom_iff ht root⟩,
    isAbsolute_seenFrom_iff ht⟩

/-- A file of the same root is seen through a step up. -/
theorem export_specifiers_point_back_above :
    let d : Declaration := { name := "a", specifier := "/p/lib/a.ts" }
    isAbsolute "/p/src" = true ∧
      ∃ s ∈ ExportStatement.ofDeclarations (some "/p/src") false [d], s.Exports d ∧
        Path.ofString ("/p/src" ++ "/" ++ s.specifier) =
          Path.ofString (withoutExtension d.specifier) ∧
        IsRelative s.specifier := by
  intro d
  have root : (Path.ofString "/p/src").root =
      (Path.ofString (withoutExtension d.specifier)).root := by decide +kernel
  have target : (Path.ofString (withoutExtension d.specifier)).segments = ["p", "lib", "a"] := by
    decide +kernel
  have directory : (Path.ofString "/p/src").segments = ["p", "src"] := by decide +kernel
  have kind : d.kind = .named := by decide +kernel
  obtain ⟨s, hs, exports, -, sameRoot, -⟩ :=
    (export_specifiers_point_back_iff "/p/src" rfl false [d]).2 d (List.mem_singleton_self d) rfl
      (.inr (.inr kind)) (by decide +kernel)
  obtain ⟨same, relative⟩ := sameRoot root
  refine ⟨rfl, s, hs, exports, same, relative.mpr ?_⟩
  intro part rest below
  have parts : ["p", "lib", "a"] = ["p", "src"] ++ part :: rest :=
    target.symm.trans (below.trans (congrArg (· ++ part :: rest) directory))
  simp at parts

/-- A file in a hidden directory is exported as if it were a package, and a file of a drive as if it were
below the directory. -/
theorem export_specifiers_lost :
    let hidden : Declaration := { name := "a", specifier := "/d/.x/y.ts" }
    let drive : Declaration := { name := "a", specifier := "C:/x/y.ts" }
    (∃ s ∈ ExportStatement.ofDeclarations (some "/d") false [hidden],
      (Path.ofString "/d").root = (Path.ofString (withoutExtension hidden.specifier)).root ∧
      ¬ IsRelative s.specifier) ∧
    ∃ s ∈ ExportStatement.ofDeclarations (some "/d") false [drive],
      (Path.ofString "/d").root ≠ (Path.ofString (withoutExtension drive.specifier)).root ∧
      isAbsolute s.specifier = false := by
  decide +kernel

end ImportWeave
