import ImportWeave.Proofs.Injection.Blocks
import ImportWeave.Proofs.Injection.Edits
import ImportWeave.Proofs.StaticImport.Spans

/-! # Statements behind those of the source

With `injectAtEnd`, new statements go behind the last live statement that ends within the bound. This is
the last one of a list, but located statements follow one another in the text, so it is also the one that
ends last, and no statement is divided. Without such a statement the new ones go to the top. -/

namespace ImportWeave

namespace StaticImport

/-- The statement does not go beyond the bound, if there is one. -/
def EndsWithin (bound? : Option Nat) (i : StaticImport) : Prop := ∀ bound ∈ bound?, i.stop ≤ bound

theorem endsWithin_iff {bound? : Option Nat} {i : StaticImport} :
    bound?.all (i.stop ≤ ·) = true ↔ i.EndsWithin bound? := by
  cases bound? <;> simp [EndsWithin]

instance (bound? : Option Nat) (i : StaticImport) : Decidable (i.EndsWithin bound?) :=
  decidable_of_iff _ endsWithin_iff

theorem EndsWithin.of_stop_le {bound? : Option Nat} {i j : StaticImport} (h : i.EndsWithin bound?)
    (le : j.stop ≤ i.stop) : j.EndsWithin bound? :=
  fun bound hb => Nat.le_trans le (h bound hb)

end StaticImport

section

variable {bound? : Option Nat} {imports : List StaticImport}

theorem anchor?_eq_none_iff :
    anchor? bound? imports = none ↔ ∀ i ∈ imports, ¬ i.EndsWithin bound? := by
  simp [anchor?, StaticImport.endsWithin_iff]

/-- The anchor is the end of a statement. What ends within the bound ends there or before, and what does
not begins there or behind. -/
theorem exists_of_anchor?_eq_some (sorted : imports.Pairwise fun i j => i.stop ≤ j.start)
    (proper : ∀ i ∈ imports, i.start < i.stop) {offset : Nat}
    (h : anchor? bound? imports = some offset) :
    (∃ i ∈ imports, i.EndsWithin bound? ∧ i.stop = offset) ∧
      (∀ i ∈ imports, i.EndsWithin bound? → i.stop ≤ offset) ∧
      ∀ i ∈ imports, ¬ i.EndsWithin bound? → offset ≤ i.start := by
  obtain ⟨last, found, rfl⟩ := Option.map_eq_some_iff.mp h
  obtain ⟨here, later, earlier, split, beyond⟩ := List.find?_eq_some_iff_append.mp found
  have within : last.EndsWithin bound? := StaticImport.endsWithin_iff.mp here
  have mem {i : StaticImport} : i ∈ imports ↔ i ∈ later ∨ i = last ∨ i ∈ earlier := by
    rw [← List.mem_reverse, split, List.mem_append, List.mem_cons]
  rw [← List.reverse_reverse imports, List.pairwise_reverse, split, List.pairwise_append,
    List.pairwise_cons] at sorted
  obtain ⟨-, ⟨before, -⟩, behind⟩ := sorted
  have ends : last.start < last.stop := proper last (mem.mpr (.inr (.inl rfl)))
  refine ⟨⟨last, mem.mpr (.inr (.inl rfl)), within, rfl⟩, ?_, ?_⟩
  · intro i hi inside
    rcases mem.mp hi with hi | rfl | hi
    · simpa [StaticImport.endsWithin_iff.mpr inside] using beyond i hi
    · exact Nat.le_refl _
    · exact Nat.le_trans (before i hi) (Nat.le_of_lt ends)
  · intro i hi outside
    rcases mem.mp hi with hi | rfl | hi
    · exact behind i hi last List.mem_cons_self
    · exact absurd within outside
    · exact absurd (within.of_stop_le (Nat.le_trans (before i hi) (Nat.le_of_lt ends))) outside

end

namespace InjectOptions

variable {options : InjectOptions} {source : String}

/-- The anchor of a source with statements that end within the bound. -/
theorem exists_anchor (located : options.locator = StaticImport.locate)
    (atEnd : options.injectAtEnd = true)
    (within : ∃ i ∈ liveImports options.locator source, i.EndsWithin options.firstOccurrence) :
    (∃ i ∈ liveImports options.locator source, i.EndsWithin options.firstOccurrence ∧
      i.stop = options.anchor source) ∧
    (∀ i ∈ liveImports options.locator source, i.EndsWithin options.firstOccurrence →
      i.stop ≤ options.anchor source) ∧
    ∀ i ∈ liveImports options.locator source, ¬ i.EndsWithin options.firstOccurrence →
      options.anchor source ≤ i.start := by
  obtain ⟨i, hi, inside⟩ := within
  obtain ⟨offset, found⟩ :
      ∃ offset, anchor? options.firstOccurrence (liveImports options.locator source) = some offset :=
    Option.ne_none_iff_exists'.mp fun none => anchor?_eq_none_iff.mp none i hi inside
  have anchor : options.anchor source = offset := by
    rw [InjectOptions.anchor, if_pos atEnd, found]
    rfl
  rw [anchor]
  rw [located] at found ⊢
  refine exists_of_anchor?_eq_some ?_ ?_ found
  · exact (StaticImport.pairwise_locate source).filter _
  · exact fun j hj => StaticImport.start_lt_stop (List.mem_filter.mp hj).1

theorem anchor_eq_zero (atEnd : options.injectAtEnd = true)
    (beyond : ∀ i ∈ liveImports options.locator source, ¬ i.EndsWithin options.firstOccurrence) :
    options.anchor source = 0 := by
  rw [anchor, if_pos atEnd, anchor?_eq_none_iff.mpr beyond]
  rfl

end InjectOptions

/-- With `injectAtEnd`, new statements go behind the live statement that ends last of those within the
bound. All of these lie before the new statements, and all other live statements lie behind them. If there
are none, the new statements come before all other text, or below the line that names an interpreter. -/
theorem statements_behind_live_imports (options : InjectOptions) (source : String)
    (ds : List Declaration) (located : options.locator = StaticImport.locate)
    (atEnd : options.injectAtEnd = true) (written : options.newStatements source ds ≠ "") :
    let live := liveImports options.locator source
    let bound? := options.firstOccurrence
    let statements := options.newStatements source ds
    let merged := options.merged source ds
    let result := inject options ds (.ofString source)
    ((∃ i ∈ live, i.EndsWithin bound?) →
      ∃ offset, IsGreatest {n | ∃ i ∈ live, i.EndsWithin bound? ∧ i.stop = n} offset ∧
        merged.Inserts result offset ("\n" ++ statements ++ "\n") ∧
        (∀ i ∈ live, i.EndsWithin bound? → i.stop ≤ offset) ∧
        ∀ i ∈ live, ¬ i.EndsWithin bound? → offset ≤ i.start) ∧
    ((∀ i ∈ live, ¬ i.EndsWithin bound?) →
      (¬ ['#', '!'] <+: source.toList →
        ∃ text, merged.text? = some text ∧ result.text? = some (statements ++ "\n" ++ text)) ∧
      (['#', '!'] <+: source.toList →
        ('\n' ∉ source.toList →
          merged.Inserts result (Text.byteLength source.toList) ("\n" ++ statements ++ "\n")) ∧
        ∀ line rest, source.toList = line ++ '\n' :: rest → '\n' ∉ line →
          merged.Inserts result (Text.byteLength (line ++ ['\n'])) (statements ++ "\n"))) := by
  intro live bound? statements merged result
  constructor
  · intro within
    obtain ⟨⟨last, hlast, inside, stop⟩, before, behind⟩ :=
      InjectOptions.exists_anchor located atEnd within
    have hl : last ∈ StaticImport.locate source := by
      rw [← located]
      exact (List.mem_filter.mp hlast).1
    have pos : 0 < options.anchor source := stop ▸ Nat.zero_lt_of_lt (StaticImport.start_lt_stop hl)
    have offset : Text.IsOffset source.toList (options.anchor source) :=
      stop ▸ StaticImport.isOffset_stop hl
    refine ⟨options.anchor source, ⟨⟨last, hlast, inside, stop⟩, ?_⟩,
      InjectOptions.inserts_behind_anchor written pos offset, before, behind⟩
    rintro n ⟨i, hi, inside, rfl⟩
    exact before i hi inside
  · intro beyond
    have top := InjectOptions.anchor_eq_zero atEnd beyond
    refine ⟨fun other => ?_, fun names => ⟨fun single => ?_, fun line rest split first => ?_⟩⟩
    · exact InjectOptions.text?_at_top written top (shebangEnd?_eq_none other)
    · have offset : Text.IsOffset source.toList (Text.byteLength source.toList) :=
        Text.isOffset_iff.mpr ⟨_, [], (List.append_nil _).symm, rfl⟩
      have inserts :=
        InjectOptions.inserts_below_line written top (shebangEnd?_of_notMem names single) offset
      rwa [if_neg single] at inserts
    · have offset : Text.IsOffset source.toList (Text.byteLength (line ++ ['\n'])) :=
        Text.isOffset_iff.mpr ⟨_, rest, by simpa using split, rfl⟩
      have broken : '\n' ∈ source.toList := split ▸ List.mem_append_right _ List.mem_cons_self
      have inserts :=
        InjectOptions.inserts_below_line written top (shebangEnd?_of_line names split first) offset
      rwa [if_pos broken] at inserts

/-- A bound between two statements, and a bound before the only statement of a script. -/
theorem statements_between_live_imports :
    let options : InjectOptions := { injectAtEnd := true, firstOccurrence := some 25 }
    let ds : List Declaration := [{ name := "c", specifier := "c" }]
    let modules := "import a from 'a'\nimport b from 'b'"
    let script := "#!/usr/bin/env node\nimport a from 'a'"
    let statements := "import \x7b c \x7d from 'c';"
    options.locator = StaticImport.locate ∧ options.injectAtEnd = true ∧
    options.newStatements modules ds ≠ "" ∧ options.newStatements script ds ≠ "" ∧
    (∃ i ∈ liveImports options.locator modules, i.EndsWithin options.firstOccurrence) ∧
    (∃ i ∈ liveImports options.locator modules, ¬ i.EndsWithin options.firstOccurrence) ∧
    (∀ i ∈ liveImports options.locator script, ¬ i.EndsWithin options.firstOccurrence) ∧
    (options.merged modules ds).Inserts (inject options ds (.ofString modules)) 17
      ("\n" ++ statements ++ "\n") ∧
    (options.merged script ds).Inserts (inject options ds (.ofString script)) 20
      (statements ++ "\n") := by
  intro options ds modules script statements
  have inModules : options.newStatements modules ds = statements := by decide +kernel
  have inScript : options.newStatements script ds = statements := by decide +kernel
  have written : statements ≠ "" := by decide
  have within : ∃ i ∈ liveImports options.locator modules, i.EndsWithin options.firstOccurrence := by
    decide +kernel
  have beyond : ∃ i ∈ liveImports options.locator modules, ¬ i.EndsWithin options.firstOccurrence := by
    decide +kernel
  have none : ∀ i ∈ liveImports options.locator script, ¬ i.EndsWithin options.firstOccurrence := by
    decide +kernel
  have first : ∀ i ∈ liveImports options.locator modules,
      i.EndsWithin options.firstOccurrence → i.stop = 17 := by decide +kernel
  rw [inModules, inScript]
  refine ⟨rfl, rfl, written, written, within, beyond, none, ?_, ?_⟩
  · obtain ⟨offset, ⟨⟨i, hi, inside, stop⟩, -⟩, inserts, -⟩ :=
      (statements_behind_live_imports options modules ds rfl rfl (inModules ▸ written)).1 within
    rwa [← stop, first i hi inside, inModules] at inserts
  · obtain ⟨-, below⟩ :=
      (statements_behind_live_imports options script ds rfl rfl (inScript ▸ written)).2 none
    have names : ['#', '!'] <+: script.toList := by decide +kernel
    have inserts := (below names).2 "#!/usr/bin/env node".toList "import a from 'a'".toList
      (by decide +kernel) (by decide +kernel)
    rwa [inScript] at inserts

end ImportWeave
