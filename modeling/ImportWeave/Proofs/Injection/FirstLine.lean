import ImportWeave.Proofs.Blanking.Layout
import ImportWeave.Proofs.Injection.InsertionOffsets
import ImportWeave.Proofs.Injection.Edits

/-! # Injection below the first line

The first line of a script names its interpreter and has to stay as it is. All that an injection adds comes
behind this line, if no live statement begins on it. -/

namespace ImportWeave

namespace Text

/-- The first line of a text, with its line feed if there is one. -/
def firstLine : List Char → List Char
  | [] => []
  | c :: cs => if c = '\n' then [c] else c :: firstLine cs

theorem firstLine_of_notMem {cs : List Char} (h : '\n' ∉ cs) : firstLine cs = cs := by
  induction cs with
  | nil => rfl
  | cons c cs ih =>
      rw [List.mem_cons, not_or] at h
      rw [firstLine, if_neg (Ne.symm h.1), ih h.2]

theorem firstLine_append {line : List Char} (h : '\n' ∉ line) (rest : List Char) :
    firstLine (line ++ '\n' :: rest) = line ++ ['\n'] := by
  induction line with
  | nil => rfl
  | cons c line ih =>
      rw [List.mem_cons, not_or] at h
      rw [List.cons_append, firstLine, if_neg (Ne.symm h.1), ih h.2, List.cons_append]

theorem firstLine_ne_nil {cs : List Char} (h : cs ≠ []) : firstLine cs ≠ [] := by
  cases cs with
  | nil => exact h
  | cons c cs =>
      rw [firstLine]
      split <;> exact List.cons_ne_nil _ _

theorem exists_firstLine_append (cs : List Char) : ∃ rest, cs = firstLine cs ++ rest := by
  by_cases h : '\n' ∈ cs
  · obtain ⟨line, rest, rfl, first⟩ := List.eq_append_cons_of_mem h
    exact ⟨rest, by simp [firstLine_append first]⟩
  · exact ⟨[], by rw [firstLine_of_notMem h, List.append_nil]⟩

/-- Without text in the gaps of a beginning, the beginning stays in one piece. -/
theorem interleave_append {gap : Nat → List Char} (front rest : List Char) {offset : Nat}
    (empty : ∀ n, n < offset + byteLength front → gap n = []) :
    interleave gap offset (front ++ rest) =
      front ++ interleave gap (offset + byteLength front) rest := by
  induction front generalizing offset with
  | nil => rfl
  | cons c front ih =>
      have shift : offset + byteLength (c :: front) = offset + c.utf8Size + byteLength front := by
        rw [byteLength_cons, Nat.add_assoc]
      rw [shift] at empty ⊢
      have first : gap offset = [] := by
        have pos := c.utf8Size_pos
        exact empty offset (by omega)
      rw [List.cons_append, interleave, first, ih empty]
      rfl

end Text

/-! ## Edits behind a beginning of the text -/

/-- Nothing settles before a bound that all edits keep to. -/
theorem Edit.textsAt_eq_nil {base : String} {edits : List Edit} {bound : Nat} {spot : Spot}
    (behind : ∀ e ∈ edits, bound ≤ e.spot.offsetIn base) (before : spot.offsetIn base < bound) :
    textsAt base spot edits = [] := by
  have none : edits.filter (settlesAt base spot) = [] := by
    refine List.filter_eq_nil_iff.mpr fun e he settled => ?_
    have le := behind e he
    rw [← Spot.offsetIn_settle, of_decide_eq_true settled] at le
    omega
  rw [textsAt, textsOf, none, List.map_nil]

theorem Overlay.text?_ofEdits_behind {base : String} {edits : List Edit} {front rest : List Char}
    (split : base.toList = front ++ rest) (nonempty : front ≠ [])
    (behind : ∀ e ∈ edits, Text.byteLength front ≤ e.spot.offsetIn base) :
    (ofEdits base edits).text? =
      some (String.ofList (front ++ Text.interleave (Edit.gap base edits) (Text.byteLength front) rest) ++
        String.join (Edit.textsAt base .back edits)) := by
  have pos : 0 < Text.byteLength front :=
    Nat.pos_of_ne_zero fun zero => nonempty (Text.byteLength_eq_zero.mp zero)
  have gaps : ∀ n, n < 0 + Text.byteLength front → Edit.gap base edits n = [] := by
    intro n lt
    have before : Text.floorOffset base.toList n < Text.byteLength front := by
      have := Text.floorOffset_le base.toList n
      omega
    have left : Edit.textsAt base (.left n) edits = [] := Edit.textsAt_eq_nil behind before
    have right : Edit.textsAt base (.right n) edits = [] := Edit.textsAt_eq_nil behind before
    rw [Edit.gap, left, right]
    rfl
  have atFront : Edit.textsAt base .front edits = [] := Edit.textsAt_eq_nil behind pos
  rw [text?_ofEdits, atFront, split, Text.interleave_append front rest gaps, Nat.zero_add]
  simp

theorem Overlay.text?_ofEdits_end {base : String} (nonempty : base.toList ≠ []) (text : String) :
    (ofEdits base [⟨.left (Text.byteLength base.toList), text⟩]).text? = some (base ++ text) := by
  have whole : Text.floorOffset base.toList (Text.byteLength base.toList) =
      Text.byteLength base.toList :=
    Text.isOffset_iff.mpr ⟨base.toList, [], (List.append_nil _).symm, rfl⟩
  rw [text?_ofEdits_behind (List.append_nil _).symm nonempty (by simp [Spot.offsetIn, whole])]
  simp [Text.interleave, Edit.gap, Spot.settle, whole]

/-! ## Live statements -/

/-- A live statement has characters of the source in it, whatever located it. -/
theorem bounds_of_mem_liveImports {locator : String → List StaticImport} {source : String}
    {i : StaticImport} (h : i ∈ liveImports locator source) :
    i.start < i.stop ∧ i.stop ≤ Text.byteLength source.toList := by
  have live := (List.mem_filter.mp h).2
  rw [StaticImport.isLive] at live
  split at live
  · cases live
  · next part slice =>
      obtain ⟨before, after, split, start, stop⟩ := Text.slice?_eq_some_iff.mp slice
      have nonempty : part ≠ [] := by
        rintro rfl
        cases live
      have pos : Text.byteLength part ≠ 0 := fun zero => nonempty (Text.byteLength_eq_zero.mp zero)
      have size := byteLength_blankSource source
      rw [split, Text.byteLength_append, stop] at size
      rw [Text.byteLength_append] at stop
      omega

theorem shebangEnd?_eq_firstLine {source : String} (names : ['#', '!'] <+: source.toList) :
    shebangEnd? source = some (Text.byteLength (Text.firstLine source.toList)) := by
  by_cases h : '\n' ∈ source.toList
  · obtain ⟨line, rest, split, first⟩ := List.eq_append_cons_of_mem h
    rw [shebangEnd?_of_line names split first, split, Text.firstLine_append first]
  · rw [shebangEnd?_of_notMem names h, Text.firstLine_of_notMem h]

namespace InjectOptions

section

variable {options : InjectOptions} {source : String} {ds : List Declaration}
  (names : ['#', '!'] <+: source.toList)
  (below : ∀ i ∈ liveImports options.locator source,
    Text.byteLength (Text.firstLine source.toList) ≤ i.start)

include names below

/-- All edits of an injection settle behind the first line: merges and anchors because live statements lie
there, and other statements because that is their place. -/
theorem firstLine_le_offsetIn {e : Edit} (h : e ∈ options.edits source ds) :
    Text.byteLength (Text.firstLine source.toList) ≤ e.spot.offsetIn source := by
  obtain ⟨rest, split⟩ := Text.exists_firstLine_append source.toList
  have clamped {n : Nat} (le : Text.byteLength (Text.firstLine source.toList) ≤ n) :
      Text.byteLength (Text.firstLine source.toList) ≤ Text.floorOffset source.toList n := by
    have := Text.byteLength_le_floorOffset _ rest le
    rwa [← split] at this
  rcases List.mem_append.mp h with h | h
  · obtain ⟨m, hm, rfl⟩ := List.mem_map.mp h
    obtain ⟨d, -, into⟩ := (options.mem_plan_targets source ds).mp (List.mem_map_of_mem hm)
    obtain ⟨-, brace, -, offset⟩ := located_of_mem_merges hm
    have start := below _ into.mem_liveImports
    exact clamped (n := m.offset) (by omega)
  · rw [statementEdits] at h
    split at h
    · cases h
    · obtain rfl := List.mem_singleton.mp h
      by_cases pos : 0 < options.anchor source
      · rw [statementEdit_behind_anchor pos]
        obtain ⟨i, live, stop⟩ := exists_live_of_anchor pos
        have proper := (bounds_of_mem_liveImports live).1
        have start := below i live
        exact clamped (by omega)
      · rw [statementEdit_below_line (Nat.eq_zero_of_not_pos pos) (shebangEnd?_eq_firstLine names)]
        exact clamped (Nat.le_refl _)

/-- Behind the first line, the result is the rest of the source with blocks between its characters. -/
theorem exists_pieces_behind_firstLine :
    ∃ ps, (inject options ds (.ofString source)).text? =
        some (String.ofList (Text.firstLine source.toList ++ Piece.render ps)) ∧
      source.toList = Text.firstLine source.toList ++ Piece.source ps := by
  obtain ⟨rest, split⟩ := Text.exists_firstLine_append source.toList
  have nonempty : Text.firstLine source.toList ≠ [] :=
    Text.firstLine_ne_nil (names.ne_nil (List.cons_ne_nil _ _))
  have text := Overlay.text?_ofEdits_behind split nonempty
    fun e (he : e ∈ options.edits source ds) => firstLine_le_offsetIn names below he
  obtain ⟨ps, rendered, kept⟩ := Piece.exists_render_interleave
    (Edit.gap source (options.edits source ds)) (Text.byteLength (Text.firstLine source.toList)) rest
  refine ⟨ps ++ [.block (String.join (Edit.textsAt source .back (options.edits source ds)))], ?_, ?_⟩
  · rw [inject_ofString, text, ← rendered, Option.some.injEq, ← String.toList_inj]
    simp
  · simpa [kept] using split

/-- A source of one line has no live statement behind it, so all that can be added are new statements, and
these come with a line feed in front of them. -/
theorem edits_of_single_line (single : '\n' ∉ source.toList) :
    options.edits source ds =
      if options.newStatements source ds = "" then [] else
        [⟨.left (Text.byteLength source.toList), "\n" ++ options.newStatements source ds ++ "\n"⟩] := by
  have line : Text.firstLine source.toList = source.toList := Text.firstLine_of_notMem single
  have noLive (i : StaticImport) : i ∉ liveImports options.locator source := by
    intro live
    have bounds := bounds_of_mem_liveImports live
    have start := below i live
    rw [line] at start
    omega
  have noMerges : (options.plan source ds).merges = [] := by
    apply List.eq_nil_iff_forall_not_mem.mpr
    intro m hm
    obtain ⟨d, -, into⟩ := (options.mem_plan_targets source ds).mp (List.mem_map_of_mem hm)
    exact noLive _ into.mem_liveImports
  have top : options.anchor source = 0 := by
    apply Nat.eq_zero_of_not_pos
    intro pos
    obtain ⟨i, live, -⟩ := exists_live_of_anchor pos
    exact noLive i live
  have lineEnd : shebangEnd? source = some (Text.byteLength source.toList) :=
    shebangEnd?_of_notMem names single
  rw [edits, noMerges, List.map_nil, List.nil_append, statementEdits,
    statementEdit_below_line top lineEnd, if_neg single]

theorem text?_of_single_line (single : '\n' ∉ source.toList)
    (changed : (inject options ds (.ofString source)).hasChanged = true) :
    (inject options ds (.ofString source)).text? =
      some (source ++ ("\n" ++ options.newStatements source ds ++ "\n")) := by
  have edits : options.edits source ds = _ := edits_of_single_line names below single
  rw [inject_ofString, edits] at changed ⊢
  split at changed
  · cases changed
  · next written =>
      rw [if_neg written]
      exact Overlay.text?_ofEdits_end (names.ne_nil (List.cons_ne_nil _ _)) _

end

end InjectOptions

/-- A source that names an interpreter on its first line, with no live statement that begins on this line:
an injection has a text, which begins with the line and goes on with the rest of the source and what is
put into that. The line stays a line of its own, also where the source has no other. -/
theorem inject_below_first_line (options : InjectOptions) (ds : List Declaration) (source : String)
    (names : ['#', '!'] <+: source.toList)
    (below : ∀ i ∈ liveImports options.locator source,
      Text.byteLength (Text.firstLine source.toList) ≤ i.start) :
    ∃ text, (inject options ds (.ofString source)).text? = some text ∧
      (∃ ps, text.toList = Text.firstLine source.toList ++ Piece.render ps ∧
        source.toList = Text.firstLine source.toList ++ Piece.source ps) ∧
      ('\n' ∈ source.toList → Text.firstLine text.toList = Text.firstLine source.toList) ∧
      ('\n' ∉ source.toList → (inject options ds (.ofString source)).hasChanged = true →
        Text.firstLine text.toList = source.toList ++ ['\n']) := by
  obtain ⟨ps, rendered, kept⟩ := InjectOptions.exists_pieces_behind_firstLine names below
  refine ⟨_, rendered, ⟨ps, String.toList_ofList, kept⟩, ?_, ?_⟩
  · intro broken
    obtain ⟨line, rest, split, first⟩ := List.eq_append_cons_of_mem broken
    rw [String.toList_ofList, split, Text.firstLine_append first, List.append_assoc,
      List.singleton_append, Text.firstLine_append first]
  · intro single changed
    have text := InjectOptions.text?_of_single_line names below single changed
    have lines : (source ++ ("\n" ++ options.newStatements source ds ++ "\n")).toList =
        source.toList ++ '\n' :: (options.newStatements source ds ++ "\n").toList := by simp
    rw [Option.some.inj (rendered.symm.trans text), lines, Text.firstLine_append single]

/-- A script with a statement that takes a name and is an anchor, and a script of one line. -/
theorem inject_below_interpreter :
    let options : InjectOptions := { mergeExisting := true, injectAtEnd := true }
    let ds : List Declaration := [{ name := "b", specifier := "m" }, { name := "c", specifier := "n" }]
    let script := "#!node\nimport \x7b a \x7d from 'm'"
    let line := "#!node"
    liveImports options.locator script ≠ [] ∧
    (∀ i ∈ liveImports options.locator script,
      Text.byteLength (Text.firstLine script.toList) ≤ i.start) ∧
    (∀ i ∈ liveImports options.locator line,
      Text.byteLength (Text.firstLine line.toList) ≤ i.start) ∧
    (∃ text, (inject options ds (.ofString script)).text? = some text ∧
      Text.firstLine text.toList = "#!node\n".toList) ∧
    (inject options ds (.ofString line)).hasChanged = true ∧
    ∃ text, (inject options ds (.ofString line)).text? = some text ∧
      Text.firstLine text.toList = "#!node\n".toList := by
  intro options ds script line
  have live : liveImports options.locator script ≠ [] := by decide +kernel
  have belowScript : ∀ i ∈ liveImports options.locator script,
      Text.byteLength (Text.firstLine script.toList) ≤ i.start := by decide +kernel
  have belowLine : ∀ i ∈ liveImports options.locator line,
      Text.byteLength (Text.firstLine line.toList) ≤ i.start := by decide +kernel
  have changed : (inject options ds (.ofString line)).hasChanged = true := by decide +kernel
  obtain ⟨text, result, -, broken, -⟩ :=
    inject_below_first_line options ds script (by decide +kernel) belowScript
  obtain ⟨text', result', -, -, single⟩ :=
    inject_below_first_line options ds line (by decide +kernel) belowLine
  have first : Text.firstLine script.toList = "#!node\n".toList := by decide +kernel
  have second : line.toList ++ ['\n'] = "#!node\n".toList := by decide +kernel
  refine ⟨live, belowScript, belowLine, ⟨text, result, ?_⟩, changed, text', result', ?_⟩
  · rw [broken (by decide +kernel), first]
  · rw [single (by decide +kernel) changed, second]

end ImportWeave
