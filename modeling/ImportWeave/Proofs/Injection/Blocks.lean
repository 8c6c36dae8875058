import ImportWeave.Proofs.Injection.Merging
import ImportWeave.Proofs.Overlay.Pieces
import Mathlib.Data.List.TakeWhile

/-! # Injection only inserts

Whatever the options, the locator and the hooks are, the result of an injection is the source with blocks
between its characters: one for each statement that takes names, and one for the new statements, if there
are any. -/

namespace ImportWeave

namespace Overlay

@[simp] theorem base_prepend (o : Overlay) (text : String) : (o.prepend text).base = o.base := rfl

@[simp] theorem base_appendLeft (o : Overlay) (offset : Nat) (text : String) :
    (o.appendLeft offset text).base = o.base := by
  unfold appendLeft
  split <;> rfl

@[simp] theorem base_appendRight (o : Overlay) (offset : Nat) (text : String) :
    (o.appendRight offset text).base = o.base := by
  unfold appendRight
  split <;> rfl

theorem Carries.perm {o : Overlay} {blocks blocks' : List String} (h : o.Carries blocks)
    (perm : blocks.Perm blocks') : o.Carries blocks' where
  placed := h.placed
  parts := by
    obtain ⟨front, back, hf, hb, hp⟩ := h.parts
    exact ⟨front, back, hf, hb, hp.trans perm⟩

end Overlay

namespace Merge

@[simp] theorem base_foldl_apply (ms : List Merge) (o : Overlay) :
    (ms.foldl apply o).base = o.base := by
  induction ms generalizing o with
  | nil => rfl
  | cons m ms ih => rw [List.foldl_cons, ih, apply, Overlay.base_appendLeft]

/-- Each merge puts one block into the overlay. -/
theorem carries_foldl_apply (ms : List Merge) {o : Overlay} {blocks : List String}
    (h : o.Carries blocks) : (ms.foldl apply o).Carries (ms.map text ++ blocks) := by
  induction ms generalizing o blocks with
  | nil => exact h
  | cons m ms ih =>
      rw [List.foldl_cons]
      exact (ih (h.appendLeft m.offset m.text)).perm List.perm_middle

end Merge

/-! ## The line that names an interpreter -/

section

variable {source : String}

theorem shebangEnd?_eq_none (h : ¬ ['#', '!'] <+: source.toList) : shebangEnd? source = none := by
  unfold shebangEnd?
  split
  · next rest text => exact absurd ⟨rest, text.symm⟩ h
  · rfl

theorem shebangEnd?_eq_some (h : ['#', '!'] <+: source.toList) :
    shebangEnd? source = some (Text.byteLength (source.toList.takeWhile (· ≠ '\n')) +
      if '\n' ∈ source.toList then 1 else 0) := by
  obtain ⟨rest, text⟩ := h
  unfold shebangEnd?
  rw [← text]
  rfl

/-- The line ends behind its line feed. -/
theorem shebangEnd?_of_line (h : ['#', '!'] <+: source.toList) {line rest : List Char}
    (split : source.toList = line ++ '\n' :: rest) (first : '\n' ∉ line) :
    shebangEnd? source = some (Text.byteLength (line ++ ['\n'])) := by
  have mem : '\n' ∈ source.toList := split ▸ List.mem_append_right _ List.mem_cons_self
  have before : source.toList.takeWhile (· ≠ '\n') = line := by
    rw [split, List.takeWhile_append_of_pos, List.takeWhile_cons_of_neg (by simp), List.append_nil]
    intro c hc
    simpa using fun h : c = '\n' => first (h ▸ hc)
  rw [shebangEnd?_eq_some h, if_pos mem, before, Text.byteLength_append]
  rfl

/-- Without a line feed, the line is the whole source. -/
theorem shebangEnd?_of_notMem (h : ['#', '!'] <+: source.toList) (single : '\n' ∉ source.toList) :
    shebangEnd? source = some (Text.byteLength source.toList) := by
  have all : source.toList.takeWhile (· ≠ '\n') = source.toList := by
    rw [List.takeWhile_eq_self_iff]
    intro c hc
    simpa using fun h : c = '\n' => single (h ▸ hc)
  rw [shebangEnd?_eq_some h, if_neg single, all]
  rfl

/-- The line that names an interpreter is a beginning of the source, and ends with a line feed if the
source has one. -/
theorem slice?_shebangEnd? {lineEnd : Nat} (h : shebangEnd? source = some lineEnd) :
    ∃ line, Text.slice? source.toList 0 lineEnd = some line ∧
      (line.getLast? = some '\n' ↔ '\n' ∈ source.toList) := by
  have names : ['#', '!'] <+: source.toList := by
    by_contra other
    rw [shebangEnd?_eq_none other] at h
    cases h
  by_cases hn : '\n' ∈ source.toList
  · obtain ⟨line, rest, split, first⟩ := List.eq_append_cons_of_mem hn
    obtain rfl := Option.some.inj ((shebangEnd?_of_line names split first).symm.trans h)
    exact ⟨line ++ ['\n'], Text.slice?_eq_some_iff.mpr ⟨[], rest, by simp [split], rfl, rfl⟩,
      by simp [hn]⟩
  · obtain rfl := Option.some.inj ((shebangEnd?_of_notMem names hn).symm.trans h)
    refine ⟨source.toList, Text.slice?_eq_some_iff.mpr ⟨[], [], by simp, rfl, rfl⟩, ?_⟩
    simp only [hn, iff_false]
    intro last
    exact hn (List.mem_of_getLast? last)

end

namespace InjectOptions

/-- The block of the new statements, below a line break or not. Empty statements make no block. -/
def statementBlocks (lead statements : String) : List String :=
  if statements = "" then [] else [lead ++ statements ++ "\n"]

@[simp] theorem base_place (options : InjectOptions) (o : Overlay) (statements : String) :
    (options.place o statements).base = o.base := by
  unfold place
  split
  · rfl
  · split
    · exact Overlay.base_appendRight _ _ _
    · split
      · split <;> exact Overlay.base_appendLeft _ _ _
      · exact Overlay.base_prepend _ _

/-- New statements are put into the overlay as one block. -/
theorem carries_place (options : InjectOptions) {o : Overlay} {blocks : List String}
    (h : o.Carries blocks) (statements : String) :
    ∃ lead, (lead = "" ∨ lead = "\n") ∧
      (options.place o statements).Carries (statementBlocks lead statements ++ blocks) := by
  by_cases none : statements = ""
  · exact ⟨"", .inl rfl, by simpa [place, statementBlocks, none] using h⟩
  · simp only [place, statementBlocks, if_neg none, List.singleton_append]
    split
    · exact ⟨"\n", .inr rfl, h.appendRight _ _⟩
    · split
      · split
        · exact ⟨"", .inl rfl, by simpa using h.appendLeft _ _⟩
        · exact ⟨"\n", .inr rfl, h.appendLeft _ _⟩
      · exact ⟨"", .inl rfl, by simpa using h.prepend _⟩

end InjectOptions

/-- The block of a merge: a space, the names with commas between them, and a last comma. White space in
front of the first name is not written. -/
def Merge.block (m : Merge) : String :=
  " " ++ String.ofList (Text.trimStart (", ".intercalate m.names).toList) ++ ","

@[simp] theorem base_inject (options : InjectOptions) (ds : List Declaration) (o : Overlay) :
    (inject options ds o).base = o.base := by
  rw [inject, InjectOptions.base_place, Merge.base_foldl_apply]

theorem carries_inject (options : InjectOptions) (ds : List Declaration) (source : String) :
    ∃ lead, (lead = "" ∨ lead = "\n") ∧
      (inject options ds (.ofString source)).Carries
        ((options.plan source ds).merges.map Merge.block ++
          InjectOptions.statementBlocks lead (options.statements (options.plan source ds).fresh)) := by
  have texts : (options.plan source ds).merges.map Merge.text =
      (options.plan source ds).merges.map Merge.block :=
    List.map_congr_left fun m hm => m.text_eq (options.declarations_ne_nil source ds hm)
  have merged := Merge.carries_foldl_apply (options.plan source ds).merges (.ofString source)
  rw [List.append_nil, texts] at merged
  obtain ⟨lead, hlead, h⟩ := options.carries_place merged
    (options.statements (options.plan source ds).fresh)
  exact ⟨lead, hlead, h.perm List.perm_append_comm⟩

/-- The text of an injection is the source with blocks between its characters, and no slice on the way
to it falls outside of the source or inside a character. There is one block for each live statement that
takes declarations, with all that it takes, and one for the new statements unless they are empty. The
overlay says that it has changed exactly if the text is not the source. -/
theorem inject_eq_source_with_blocks (options : InjectOptions) (ds : List Declaration)
    (source : String) :
    (∀ lineEnd, shebangEnd? source = some lineEnd →
      ∃ line, Text.slice? source.toList 0 lineEnd = some line ∧
        (line.getLast? = some '\n' ↔ '\n' ∈ source.toList)) ∧
    ((options.plan source ds).merges.map (·.target)).Nodup ∧
    (∀ i, i ∈ (options.plan source ds).merges.map (·.target) ↔
      ∃ d ∈ ds, options.MergesInto source d i) ∧
    (∀ m ∈ (options.plan source ds).merges,
      m.declarations = ds.filter (options.MergesInto source · m.target)) ∧
    (∃ ps lead, (inject options ds (.ofString source)).text? = some (String.ofList (Piece.render ps)) ∧
      Piece.source ps = source.toList ∧ (lead = "" ∨ lead = "\n") ∧
      (Piece.blocks ps).Perm ((options.plan source ds).merges.map Merge.block ++
        InjectOptions.statementBlocks lead
          (options.statements (options.plan source ds).fresh))) ∧
    ((inject options ds (.ofString source)).hasChanged = true ↔
      (inject options ds (.ofString source)).text ≠ source) := by
  obtain ⟨lead, hlead, carries⟩ := carries_inject options ds source
  obtain ⟨ps, text, kept, blocks⟩ := carries.text?_eq_render
  have base : (inject options ds (.ofString source)).base = source := base_inject ..
  rw [base] at kept
  refine ⟨fun _ h => slice?_shebangEnd? h, options.nodup_plan_targets source ds,
    fun i => options.mem_plan_targets source ds, fun m hm => options.declarations_eq_filter source ds hm,
    ⟨ps, lead, text, kept, hlead, blocks⟩, ?_⟩
  rw [carries.hasChanged_iff_text_ne, base]

/-- A name with white space in front is merged without it, so the block is not always the names as they
are written alone. -/
theorem inject_trims_first_name :
    let source := "import \x7b x \x7d from 'm'"
    let d : Declaration := { name := " a", specifier := "m" }
    ¬ ∃ ps, (inject { mergeExisting := true } [d] (.ofString source)).text? =
        some (String.ofList (Piece.render ps)) ∧ Piece.source ps = source.toList ∧
      (Piece.blocks ps).Perm [" " ++ ", ".intercalate [d.binding.render .esm] ++ ","] := by
  rintro source d ⟨ps, text, kept, blocks⟩
  have result : (inject { mergeExisting := true } [d] (.ofString source)).text? =
      some "import \x7b a, x \x7d from 'm'" := by decide +kernel
  rw [result, Option.some.injEq] at text
  have length := Piece.length_render ps
  rw [kept, List.perm_singleton.mp blocks, ← String.length_ofList, ← text] at length
  exact absurd length (by decide +kernel)

end ImportWeave
