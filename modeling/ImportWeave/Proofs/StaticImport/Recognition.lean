import ImportWeave.Proofs.StaticImport.Parts

/-! # Statements that are recognised

A statement that ends with a semicolon is found as a whole, whatever follows it. So a text of such
statements, each on its own line, is located statement by statement. -/

namespace ImportWeave

namespace StaticImport

/-! ## The parts of a statement -/

/-- A text that is a clause: it is not empty, has no other characters, and no white space at its ends. -/
structure IsClause (cs : List Char) : Prop where
  ne_nil : cs ≠ []
  chars : cs.all isClauseChar = true
  first : ∀ c ∈ cs.head?, Text.isSpace c = false
  last : ∀ c ∈ cs.getLast?, Text.isSpace c = false

theorem introduces_space : Introduces [' '] [] := .inl ⟨rfl, rfl⟩

/-- A clause is found in front of `from`, also if it ends with this word itself. -/
theorem introduces_from {clause : List Char} (h : IsClause clause) :
    Introduces (' ' :: (clause ++ " from ".toList)) clause := by
  have trimmed : Text.IsTrimmed clause := ⟨h.first, h.last⟩
  exact .inr ⟨[' '], clause, [' '], [' '], by simp, rfl, rfl, rfl, h.ne_nil, h.chars,
    trimmed.trim_eq.symm⟩

/-! ## The end of a statement -/

theorem afterStatement_semicolon (rest : List Char) : afterStatement (';' :: rest) = rest := rfl

/-- Attributes go up to the first brace that closes. -/
theorem afterStatement_attributes {body : List Char} (h : '\x7d' ∉ body) (rest : List Char) :
    afterStatement (" with \x7b".toList ++ (body ++ '\x7d' :: ';' :: rest)) = rest := by
  have form : IsAttributes (" with \x7b".toList ++ (body ++ ['\x7d'])) :=
    ⟨[' '], "with".toList, [' '], body, by simp, rfl, .inl rfl, rfl, h⟩
  have found : afterAttributes? (" with \x7b".toList ++ (body ++ '\x7d' :: ';' :: rest)) =
      some (';' :: rest) := afterAttributes?_eq_some_iff.mpr ⟨_, form, by simp⟩
  rw [afterStatement, found]
  rfl

/-! ## Whole statements -/

/-- A specifier that stands between single quotation marks as it is. -/
structure IsSpecifier (cs : List Char) : Prop where
  noQuote : '\x27' ∉ cs
  oneLine : '\n' ∉ cs
  trimmed : Text.trim cs = cs

instance (cs : List Char) : Decidable (IsSpecifier cs) :=
  decidable_of_iff ('\x27' ∉ cs ∧ '\n' ∉ cs ∧ Text.trim cs = cs)
    ⟨fun ⟨noQuote, oneLine, trimmed⟩ => ⟨noQuote, oneLine, trimmed⟩,
      fun h => ⟨h.noQuote, h.oneLine, h.trimmed⟩⟩

/-- The statement is found as a whole, whatever follows it. -/
def Found.IsComplete (f : Found) : Prop := ∀ rest, find? (f.code ++ rest) = some f

/-- A statement is complete if its parts are, and its end does not depend on what follows. -/
theorem isComplete_of_parts {head clause specifier tail : List Char} (introduces : Introduces head clause)
    (hspecifier : IsSpecifier specifier) (ends : ∀ rest, afterStatement (tail ++ rest) = rest) :
    Found.IsComplete
      ⟨"import".toList ++ head ++ '\x27' :: (specifier ++ '\x27' :: tail), clause, specifier⟩ := by
  intro rest
  have made : Found.IsMadeOf
      ⟨"import".toList ++ head ++ '\x27' :: (specifier ++ '\x27' :: tail), clause, specifier⟩
      head '\x27' specifier tail :=
    { code := rfl
      introduces := introduces
      isQuote := rfl
      notMem := hspecifier.noQuote
      specifier := hspecifier.trimmed.symm
      oneLine := hspecifier.oneLine
      isEnd := (afterStatement_append_eq_iff.mp (ends [])).1 }
  exact made.find?_append (ends rest)

theorem Found.code_ne_nil {cs : List Char} {f : Found} (h : find? cs = some f) : f.code ≠ [] := by
  obtain ⟨head, quote, inner, tail, -, -, made, -⟩ := find?_eq_some_iff.mp h
  simp [made.code]

/-! ## Statements on lines -/

/-- The characters of the last statement are passed over. -/
theorem scan_length (skipped : List Char) (before : Option Char) (offset : Nat) (rest : List Char) :
    scan skipped.length before offset (skipped ++ rest) =
      scan 0 (skipped.getLast?.or before) (offset + Text.byteLength skipped) rest := by
  induction skipped generalizing before offset with
  | nil => rfl
  | cons c cs ih =>
      have last : (c :: cs).getLast?.or before = cs.getLast?.or (some c) := by
        rw [getLast?_cons_eq_or, Option.or_assoc, Option.some_or]
      rw [last, Text.byteLength_cons, ← Nat.add_assoc, ← ih]
      rfl

/-- A complete statement at a boundary is located, and the scan goes on behind it. -/
theorem scan_complete {f : Found} (h : f.IsComplete) {before : Option Char}
    (boundary : isBoundary before = true) (offset : Nat) (rest : List Char) :
    scan 0 before offset (f.code ++ rest) =
      f.located offset :: scan 0 f.code.getLast? (offset + Text.byteLength f.code) rest := by
  have found := h rest
  obtain ⟨c, cs, code⟩ := List.exists_cons_of_ne_nil (Found.code_ne_nil found)
  have last : f.code.getLast? = cs.getLast?.or (some c) := by rw [code, getLast?_cons_eq_or]
  have size : offset + Text.byteLength f.code = offset + c.utf8Size + Text.byteLength cs := by
    rw [code, Text.byteLength_cons, Nat.add_assoc]
  have skip : f.code.length - 1 = cs.length := by simp [code]
  rw [last, size, ← scan_length, ← skip]
  rw [code, List.cons_append] at found ⊢
  rw [scan, found]
  simp only [boundary, if_true, List.singleton_append, code]

theorem scan_newline (before : Option Char) (offset : Nat) (rest : List Char) :
    scan 0 before offset ('\n' :: rest) = scan 0 (some '\n') (offset + '\n'.utf8Size) rest := rfl

/-- Complete statements on their own lines are located one by one. The induction is on the statements, at
any boundary. -/
theorem scan_intercalate {fs : List Found} (h : ∀ f ∈ fs, f.IsComplete) {before : Option Char}
    (boundary : isBoundary before = true) (offset : Nat) :
    (scan 0 before offset (['\n'].intercalate (fs.map (·.code)))).map (fun i => (i.code, i.specifier)) =
      fs.map fun f => (String.ofList f.code, String.ofList f.specifier) := by
  induction fs generalizing before offset with
  | nil => rfl
  | cons f fs ih =>
      have complete := h f List.mem_cons_self
      cases fs with
      | nil =>
          have := scan_complete complete boundary offset []
          rw [List.append_nil] at this
          simp only [List.map_cons, List.map_nil, List.intercalate_singleton, this]
          rfl
      | cons g fs =>
          have later := @ih (fun g hg => h g (List.mem_cons_of_mem f hg)) (some '\n') rfl
          simp only [List.map_cons, List.intercalate_cons_cons, List.append_assoc,
            List.singleton_append] at later ⊢
          rw [scan_complete complete boundary, scan_newline, List.map_cons, later]
          rfl

end StaticImport

end ImportWeave
