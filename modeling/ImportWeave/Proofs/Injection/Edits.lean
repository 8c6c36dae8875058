import ImportWeave.Proofs.Injection.Merging
import ImportWeave.Proofs.Overlay.LastEdit

/-! # Injections as edits

An injection records one edit for each merge, and one for the new statements if there are any. -/

namespace ImportWeave

/-- Names go to the left of what follows the brace of their statement. -/
def Merge.edit (m : Merge) : Edit := ⟨.left m.offset, m.text⟩

theorem Merge.foldl_apply_eq (ms : List Merge) (o : Overlay) :
    ms.foldl apply o = (ms.map edit).foldl Overlay.record o := by
  rw [List.foldl_map]
  rfl

namespace InjectOptions

/-- The edit of the new statements: behind the anchor, or else below a line that names an interpreter, or
else to the top. -/
def statementEdit (options : InjectOptions) (source statements : String) : Edit :=
  if 0 < options.anchor source then ⟨.right (options.anchor source), "\n" ++ statements ++ "\n"⟩
  else match shebangEnd? source with
    | some lineEnd =>
      if '\n' ∈ source.toList then ⟨.left lineEnd, statements ++ "\n"⟩
      else ⟨.left lineEnd, "\n" ++ statements ++ "\n"⟩
    | none => ⟨.front, statements ++ "\n"⟩

def statementEdits (options : InjectOptions) (source statements : String) : List Edit :=
  if statements = "" then [] else [options.statementEdit source statements]

/-- The text of the new statements for a source. -/
def newStatements (options : InjectOptions) (source : String) (ds : List Declaration) : String :=
  options.statements (options.plan source ds).fresh

/-- All edits of an injection. -/
def edits (options : InjectOptions) (source : String) (ds : List Declaration) : List Edit :=
  (options.plan source ds).merges.map Merge.edit ++
    options.statementEdits source (options.newStatements source ds)

theorem place_eq (options : InjectOptions) (o : Overlay) (statements : String) :
    options.place o statements = (options.statementEdits o.base statements).foldl Overlay.record o := by
  unfold place statementEdits statementEdit
  split
  · rfl
  · rw [List.foldl_cons, List.foldl_nil]
    split
    · rfl
    · cases shebangEnd? o.base with
      | none => rfl
      | some lineEnd =>
          dsimp only
          split <;> rfl

/-- An injection adds its edits to those that an overlay has. -/
theorem inject_ofEdits (options : InjectOptions) (ds : List Declaration) (source : String)
    (es : List Edit) :
    inject options ds (.ofEdits source es) = .ofEdits source (es ++ options.edits source ds) := by
  rw [inject, Overlay.base_ofEdits, Merge.foldl_apply_eq, ← Overlay.ofEdits_append, place_eq,
    Overlay.base_ofEdits, ← Overlay.ofEdits_append, List.append_assoc]
  rfl

theorem inject_ofString (options : InjectOptions) (ds : List Declaration) (source : String) :
    inject options ds (.ofString source) = .ofEdits source (options.edits source ds) :=
  options.inject_ofEdits ds source []

/-! ## New statements in a source -/

/-- The source with names merged into its statements, before new statements come to it. -/
def merged (options : InjectOptions) (source : String) (ds : List Declaration) : Overlay :=
  (options.plan source ds).merges.foldl Merge.apply (.ofString source)

variable {options : InjectOptions} {source : String} {ds : List Declaration}

theorem merged_eq_ofEdits :
    options.merged source ds = .ofEdits source ((options.plan source ds).merges.map Merge.edit) :=
  Merge.foldl_apply_eq _ _

theorem inject_eq_ofEdits_concat (written : options.newStatements source ds ≠ "") :
    inject options ds (.ofString source) =
      .ofEdits source ((options.plan source ds).merges.map Merge.edit ++
        [options.statementEdit source (options.newStatements source ds)]) := by
  rw [inject_ofString, edits, statementEdits, if_neg written]

/-- New statements are put in where their edit settles. -/
theorem inserts_newStatements (written : options.newStatements source ds ≠ "") {e : Edit}
    (edit : options.statementEdit source (options.newStatements source ds) = e) :
    (options.merged source ds).Inserts (inject options ds (.ofString source))
      (e.spot.offsetIn source) e.text := by
  rw [merged_eq_ofEdits, inject_eq_ofEdits_concat written, edit]
  exact Overlay.inserts_concat ..

theorem statementEdit_behind_anchor (pos : 0 < options.anchor source) (statements : String) :
    options.statementEdit source statements =
      ⟨.right (options.anchor source), "\n" ++ statements ++ "\n"⟩ := if_pos pos

theorem statementEdit_below_line (top : options.anchor source = 0) {lineEnd : Nat}
    (line : shebangEnd? source = some lineEnd) (statements : String) :
    options.statementEdit source statements =
      ⟨.left lineEnd, if '\n' ∈ source.toList then statements ++ "\n"
        else "\n" ++ statements ++ "\n"⟩ := by
  rw [statementEdit, if_neg (by simp [top]), line]
  dsimp only
  split <;> rfl

theorem inserts_behind_anchor (written : options.newStatements source ds ≠ "")
    (pos : 0 < options.anchor source) (offset : Text.IsOffset source.toList (options.anchor source)) :
    (options.merged source ds).Inserts (inject options ds (.ofString source))
      (options.anchor source) ("\n" ++ options.newStatements source ds ++ "\n") := by
  have inserts := inserts_newStatements written (statementEdit_behind_anchor pos _)
  rwa [Spot.offsetIn, offset] at inserts

theorem inserts_below_line (written : options.newStatements source ds ≠ "")
    (top : options.anchor source = 0) {lineEnd : Nat} (line : shebangEnd? source = some lineEnd)
    (offset : Text.IsOffset source.toList lineEnd) :
    (options.merged source ds).Inserts (inject options ds (.ofString source)) lineEnd
      (if '\n' ∈ source.toList then options.newStatements source ds ++ "\n"
        else "\n" ++ options.newStatements source ds ++ "\n") := by
  have inserts := inserts_newStatements written (statementEdit_below_line top line _)
  rwa [Spot.offsetIn, offset] at inserts

theorem text?_at_top (written : options.newStatements source ds ≠ "")
    (top : options.anchor source = 0) (noLine : shebangEnd? source = none) :
    ∃ text, (options.merged source ds).text? = some text ∧
      (inject options ds (.ofString source)).text? =
        some (options.newStatements source ds ++ "\n" ++ text) := by
  have edit : options.statementEdit source (options.newStatements source ds) =
      ⟨.front, options.newStatements source ds ++ "\n"⟩ := by
    rw [statementEdit, if_neg (by simp [top]), noLine]
  have front : Spot.front.settle source = .front := rfl
  obtain ⟨ps, rendered, -⟩ :=
    Overlay.exists_pieces_ofEdits source ((options.plan source ds).merges.map Merge.edit)
  refine ⟨_, merged_eq_ofEdits ▸ rendered, ?_⟩
  rw [inject_eq_ofEdits_concat written, edit, Overlay.text?_concat_front front, rendered]
  rfl

end InjectOptions

end ImportWeave
