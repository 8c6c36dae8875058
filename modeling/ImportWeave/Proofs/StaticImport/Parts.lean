import ImportWeave.Proofs.Text.Trimming
import ImportWeave.Source.StaticImport
import Mathlib.Algebra.BigOperators.Group.List.Defs
import Mathlib.Data.List.TakeWhile

/-! # The parts of a located statement

A statement that a text starts with is made of the keyword, what stands in front of the specifier, the
specifier in quotation marks, and an end: attributes, blanks and a semicolon, each of which may be
missing. A located statement is one that starts at its offset. -/

namespace ImportWeave

namespace Text

variable {cs : List Char}

/-- A text is split in front of its first character that is not one of a kind. -/
theorem eq_append_of_dropWhile {p : Char → Bool} {rest : List Char} {c : Char}
    (h : cs.dropWhile p = c :: rest) : cs = cs.takeWhile p ++ c :: rest ∧ p c = false := by
  constructor
  · rw [← h, List.takeWhile_append_dropWhile]
  · have := List.head?_dropWhile_not p cs
    rw [h] at this
    simpa using this

/-- A text is split in front of the first character of another kind. -/
theorem span_append_cons {p : Char → Bool} (all : ∀ c ∈ cs, p c = true) {stop : Char}
    (h : p stop = false) (rest : List Char) :
    (cs ++ stop :: rest).takeWhile p = cs ∧ (cs ++ stop :: rest).dropWhile p = stop :: rest := by
  constructor
  · rw [List.takeWhile_append_of_pos all, List.takeWhile_cons_of_neg (by simp [h]), List.append_nil]
  · rw [List.dropWhile_append_of_pos all, List.dropWhile_cons_of_neg (by simp [h])]

theorem span_append_of_notMem {stop : Char} (h : stop ∉ cs) (rest : List Char) :
    (cs ++ stop :: rest).takeWhile (· ≠ stop) = cs ∧
      (cs ++ stop :: rest).dropWhile (· ≠ stop) = stop :: rest := by
  refine span_append_cons (fun c hc => decide_eq_true ?_) (by simp) rest
  rintro rfl
  exact h hc

/-- White space has few codes, and no word character is among them. -/
theorem isWord_of_isSpace {c : Char} (h : isSpace c = true) : isWord c = false := by
  let codes := List.range' 0x09 5 ++ [0x20, 0x85, 0xA0, 0x1680] ++ List.range' 0x2000 11 ++
    [0x2028, 0x2029, 0x202F, 0x205F, 0x3000]
  have none : codes.all (fun n => !isWord (Char.ofNat n)) = true := by decide +kernel
  have member : c.toNat ∈ codes := by
    simp only [isSpace, Bool.or_eq_true, Bool.and_eq_true, decide_eq_true_eq, beq_iff_eq] at h
    simp only [codes, List.mem_append, List.mem_cons, List.mem_range'_1, List.not_mem_nil]
    omega
  simpa only [Char.ofNat_toNat, Bool.not_eq_true'] using List.all_eq_true.mp none c.toNat member

end Text

namespace StaticImport

/-! ## The specifier -/

/-- Quotation marks of one kind, and between them what is the specifier once it is trimmed. -/
theorem quoted?_eq_some_iff {cs specifier rest : List Char} :
    quoted? cs = some (specifier, rest) ↔
      ∃ quote inner, cs = quote :: (inner ++ quote :: rest) ∧ isQuote quote = true ∧ quote ∉ inner ∧
        specifier = Text.trim inner ∧ '\n' ∉ specifier := by
  constructor
  · intro h
    cases cs with
    | nil => cases h
    | cons quote cs =>
        rw [quoted?] at h
        split at h
        · cases h
        · next last rest' drop =>
            obtain ⟨split, hlast⟩ := Text.eq_append_of_dropWhile drop
            obtain rfl : last = quote := by simpa using hlast
            simp only at h
            split at h
            · next hq =>
                obtain ⟨rfl, rfl⟩ := Prod.mk.inj (Option.some.inj h)
                simp only [Bool.and_eq_true, Bool.not_eq_true', List.contains_eq_mem,
                  decide_eq_false_iff_not] at hq
                refine ⟨last, cs.takeWhile (· ≠ last), by rw [← split], hq.1, ?_, rfl, hq.2⟩
                intro hm
                simpa using List.mem_takeWhile_imp hm
            · cases h
  · rintro ⟨quote, inner, rfl, hquote, notMem, rfl, oneLine⟩
    obtain ⟨before, after⟩ := Text.span_append_of_notMem notMem rest
    rw [quoted?, after]
    simp only [before]
    exact if_pos (by simpa [hquote] using oneLine)

/-! ## The clause -/

/-- What stands between the keyword and the specifier: white space and no clause, or characters of a clause
and the word `from`, with white space in front of them and behind them. The white space at the ends of what
is taken for the clause is not part of it. -/
def Introduces (head clause : List Char) : Prop :=
  head.all Text.isSpace = true ∧ clause = [] ∨
    ∃ before middle after behind, head = before ++ middle ++ after ++ "from".toList ++ behind ∧
      before.all Text.isSpace = true ∧ after.all Text.isSpace = true ∧ behind.all Text.isSpace = true ∧
      middle ≠ [] ∧ middle.all isClauseChar = true ∧ clause = Text.trim middle

/-- Where neither quotation mark belongs, there is none. -/
theorem forall_isQuote_eq_false {p : Char → Bool} (double : p '\x22' = false) (single : p '\x27' = false)
    {cs : List Char} (all : cs.all p = true) : ∀ c ∈ cs, isQuote c = false := by
  intro c hc
  have here := List.all_eq_true.mp all c hc
  rw [isQuote, Bool.or_eq_false_iff, beq_eq_false_iff_ne, beq_eq_false_iff_ne]
  constructor
  · rintro rfl
    rw [double] at here
    cases here
  · rintro rfl
    rw [single] at here
    cases here

/-- The white space that a clause may hold is the white space among the characters of a clause. -/
theorem isClauseSpace_iff {c : Char} (h : Text.isSpace c = true) :
    isClauseSpace c = true ↔ isClauseChar c = true := by
  have others : "$*,/\x7b\x7d@.".toList.all (!Text.isSpace ·) = true := by decide
  have other : c ∉ "$*,/\x7b\x7d@.".toList := by
    intro hc
    simpa [h] using List.all_eq_true.mp others c hc
  simp only [isClauseChar, Text.isWord_of_isSpace h, Bool.false_or, Bool.or_eq_true,
    List.contains_iff_mem, other, or_false]

namespace Introduces

variable {head clause : List Char}

theorem isTrimmed (h : Introduces head clause) : Text.IsTrimmed clause := by
  rcases h with ⟨-, rfl⟩ | ⟨_, middle, _, _, -, -, -, -, -, -, rfl⟩
  · exact ⟨by simp, by simp⟩
  · exact Text.isTrimmed_trim middle

/-- The clause itself stands between the keyword and `from`. -/
theorem exists_split (h : Introduces head clause) :
    head.all Text.isSpace = true ∧ clause = [] ∨
      ∃ before after behind, head = before ++ clause ++ after ++ "from".toList ++ behind ∧
        before.all Text.isSpace = true ∧ after.all Text.isSpace = true := by
  refine h.imp_right ?_
  rintro ⟨before, middle, after, behind, rfl, hbefore, hafter, -, -, -, rfl⟩
  obtain ⟨left, right, split, hleft, hright⟩ := Text.exists_trim middle
  refine ⟨before ++ left, right ++ after, behind, ?_, ?_, ?_⟩
  · have text : before ++ middle = before ++ left ++ Text.trim middle ++ right := by
      rw [List.append_assoc, List.append_assoc, ← List.append_assoc left, ← split]
    rw [text]
    simp only [List.append_assoc]
  · rw [List.all_append, hbefore, hleft, Bool.and_self]
  · rw [List.all_append, hright, hafter, Bool.and_self]

theorem noQuote (h : Introduces head clause) : ∀ c ∈ head, isQuote c = false := by
  have blank {cs : List Char} (all : cs.all Text.isSpace = true) : ∀ c ∈ cs, isQuote c = false :=
    forall_isQuote_eq_false rfl rfl all
  rcases h with ⟨all, -⟩ | ⟨before, middle, after, behind, rfl, hbefore, hafter, hbehind, -, chars, -⟩
  · exact blank all
  · have word : ∀ c ∈ "from".toList, isQuote c = false := by simp [isQuote]
    have inside : ∀ c ∈ middle, isQuote c = false :=
      forall_isQuote_eq_false (by decide) (by decide) chars
    simp only [List.forall_mem_append]
    exact ⟨⟨⟨⟨blank hbefore, inside⟩, blank hafter⟩, word⟩, blank hbehind⟩

end Introduces

theorem trim_from {behind : List Char} (h : behind.all Text.isSpace = true) (lead : List Char) :
    Text.trim (lead ++ "from".toList ++ behind) = Text.trimStart lead ++ "from".toList := by
  have word : "from".toList = 'f' :: "rom".toList := rfl
  rw [Text.trim, List.append_assoc, word, List.cons_append, Text.trimStart_append_cons rfl,
    ← List.cons_append, ← List.append_assoc, Text.trimEnd_append_of_all h]
  apply Text.trimEnd_of_getLast?
  rw [List.getLast?_append]
  rintro _ ⟨⟩
  rfl

/-- White space in front of `from` could be a clause exactly if it holds a character of a clause. -/
theorem any_isClauseSpace_iff {lead : List Char} (h : lead.all Text.isSpace = true) (behind : List Char) :
    ((lead ++ "from".toList ++ behind).takeWhile Text.isSpace).any isClauseSpace = true ↔
      ∃ c ∈ lead, isClauseChar c = true := by
  have blank := List.all_eq_true.mp h
  have visible : Text.isSpace 'f' = false := rfl
  have text : lead ++ "from".toList ++ behind = lead ++ 'f' :: ("rom".toList ++ behind) := by simp
  rw [text, (Text.span_append_cons blank visible _).1, List.any_eq_true]
  exact exists_congr fun c => and_congr_right fun hc => isClauseSpace_iff (blank c hc)

/-- What stands in front of `from` is a clause exactly if it holds characters of a clause, and no others once
it is trimmed. -/
theorem clause?_from_iff {lead behind clause : List Char} (h : behind.all Text.isSpace = true) :
    clause? (lead ++ "from".toList ++ behind) = some clause ↔
      clause = Text.trim lead ∧ clause.all isClauseChar = true ∧ ∃ c ∈ lead, isClauseChar c = true := by
  have word : "from".toList.isSuffixOf? (Text.trimStart lead ++ "from".toList) =
      some (Text.trimStart lead) := List.isSuffixOf?_eq_some_iff_append_eq.mpr rfl
  rw [clause?, trim_from h]
  split
  · next empty => exact absurd (List.append_eq_nil_iff.mp empty).2 (by decide)
  · simp only [word]
    split
    · next nothing =>
        have nothing : Text.trim lead = [] := nothing
        rw [Option.ite_none_right_eq_some, Option.some.injEq, nothing,
          any_isClauseSpace_iff (Text.trim_eq_nil_iff.mp nothing)]
        constructor
        · rintro ⟨found, rfl⟩
          exact ⟨rfl, rfl, found⟩
        · rintro ⟨rfl, -, found⟩
          exact ⟨found, rfl⟩
    · next nonempty =>
        rw [← Text.trim, Option.ite_none_right_eq_some, Option.some.injEq]
        constructor
        · rintro ⟨chars, rfl⟩
          obtain ⟨c, hc⟩ := List.exists_mem_of_ne_nil (Text.trim lead) nonempty
          exact ⟨rfl, chars, c, Text.mem_of_mem_trim hc, List.all_eq_true.mp chars c hc⟩
        · rintro ⟨rfl, chars, -⟩
          exact ⟨chars, rfl⟩

theorem exists_from_of_clause? {head clause : List Char} (h : clause? head = some clause) :
    head.all Text.isSpace = true ∧ clause = [] ∨
      ∃ lead behind, head = lead ++ "from".toList ++ behind ∧ behind.all Text.isSpace = true := by
  unfold clause? at h
  split at h
  · next blank => exact .inl ⟨Text.trim_eq_nil_iff.mp blank, (Option.some.inj h).symm⟩
  · split at h
    · cases h
    · next text word =>
        obtain ⟨before, behind, split, -, hbehind⟩ := Text.exists_trim head
        rw [← List.append_eq_of_isSuffixOf?_eq_some word, ← List.append_assoc] at split
        exact .inr ⟨before ++ text, behind, split, hbehind⟩

theorem clause?_eq_some_iff {head clause : List Char} :
    clause? head = some clause ↔ Introduces head clause := by
  constructor
  · intro h
    refine (exists_from_of_clause? h).imp_right ?_
    rintro ⟨lead, behind, rfl, hbehind⟩
    obtain ⟨rfl, chars, c, hc, hchar⟩ := (clause?_from_iff hbehind).mp h
    by_cases nothing : Text.trim lead = []
    · -- the white space in front of `from` is all that there is, and one character is taken for the clause
      have blank := List.all_eq_true.mp (Text.trim_eq_nil_iff.mp nothing)
      obtain ⟨before, after, rfl⟩ := List.append_of_mem hc
      refine ⟨before, [c], after, behind, by simp, ?_, ?_, hbehind, List.cons_ne_nil c [],
        by simp [hchar], ?_⟩
      · exact List.all_eq_true.mpr fun d hd => blank d (by simp [hd])
      · exact List.all_eq_true.mpr fun d hd => blank d (by simp [hd])
      · rw [nothing, eq_comm, Text.trim_eq_nil_iff]
        simp [blank c hc]
    · obtain ⟨before, after, split, hbefore, hafter⟩ := Text.exists_trim lead
      exact ⟨before, Text.trim lead, after, behind, by rw [← split], hbefore, hafter, hbehind, nothing,
        chars, (Text.isTrimmed_trim lead).trim_eq.symm⟩
  · rintro (⟨blank, rfl⟩ | ⟨before, middle, after, behind, rfl, hbefore, hafter, hbehind, ne, chars, rfl⟩)
    · rw [clause?, Text.trim_eq_nil_iff.mpr blank]
    · have chars := List.all_eq_true.mp chars
      refine (clause?_from_iff hbehind).mpr ⟨(Text.trim_append_of_all hbefore hafter middle).symm, ?_, ?_⟩
      · exact List.all_eq_true.mpr fun c hc => chars c (Text.mem_of_mem_trim hc)
      · obtain ⟨c, hc⟩ := List.exists_mem_of_ne_nil middle ne
        exact ⟨c, by simp [hc], chars c hc⟩

/-! ## The end -/

/-- The attributes of a statement: one of two words, and a text in braces. -/
def IsAttributes (cs : List Char) : Prop :=
  ∃ blanks word gap body, cs = blanks ++ word ++ gap ++ '\x7b' :: (body ++ ['\x7d']) ∧
    blanks.all isTabOrSpace = true ∧ (word = "with".toList ∨ word = "assert".toList) ∧
    gap.all Text.isSpace = true ∧ '\x7d' ∉ body

/-- An end of a statement: attributes, blanks and a semicolon, each of which may be missing. -/
def IsEnd (cs : List Char) : Prop :=
  ∃ attributes blanks semicolon, cs = attributes ++ blanks ++ semicolon ∧
    (attributes = [] ∨ IsAttributes attributes) ∧ blanks.all isTabOrSpace = true ∧
    (semicolon = [] ∨ semicolon = [';'])

theorem dropWhile_blanks {blanks word : List Char} (hblanks : blanks.all isTabOrSpace = true)
    (hword : word = "with".toList ∨ word = "assert".toList) (rest : List Char) :
    (blanks ++ (word ++ rest)).dropWhile isTabOrSpace = word ++ rest := by
  rw [List.dropWhile_append_of_pos (List.all_eq_true.mp hblanks)]
  rcases hword with rfl | rfl <;> rfl

theorem afterAttributes?_eq_some_iff {cs rest : List Char} :
    afterAttributes? cs = some rest ↔ ∃ attributes, IsAttributes attributes ∧ cs = attributes ++ rest := by
  simp only [afterAttributes?, Option.bind_eq_bind, Option.bind_eq_some_iff]
  constructor
  · rintro ⟨afterWord, found, h⟩
    obtain ⟨word, hword, text⟩ : ∃ word, (word = "with".toList ∨ word = "assert".toList) ∧
        word ++ afterWord = cs.dropWhile isTabOrSpace := by
      rcases Option.or_eq_some_iff.mp found with found | ⟨-, found⟩
      · exact ⟨_, .inl rfl, List.append_eq_of_isPrefixOf?_eq_some found⟩
      · exact ⟨_, .inr rfl, List.append_eq_of_isPrefixOf?_eq_some found⟩
    obtain ⟨gap, hgap, blank⟩ := Text.exists_trimStart afterWord
    split at h
    · next inside opening =>
        split at h
        · next closing rest' drop =>
            cases h
            obtain ⟨split, hclosing⟩ := Text.eq_append_of_dropWhile drop
            obtain rfl : closing = '\x7d' := by simpa using hclosing
            refine ⟨_, ⟨cs.takeWhile isTabOrSpace, word, gap, inside.takeWhile (· ≠ '\x7d'), rfl,
              List.all_takeWhile, hword, blank, ?_⟩, ?_⟩
            · intro hm
              simpa using List.mem_takeWhile_imp hm
            · calc
                cs = cs.takeWhile isTabOrSpace ++ cs.dropWhile isTabOrSpace :=
                  List.takeWhile_append_dropWhile.symm
                _ = cs.takeWhile isTabOrSpace ++ (word ++ (gap ++ '\x7b' :: inside)) := by
                  rw [← text, ← opening, ← hgap]
                _ = cs.takeWhile isTabOrSpace ++ (word ++ (gap ++ '\x7b' ::
                    (inside.takeWhile (· ≠ '\x7d') ++ '\x7d' :: rest))) := by rw [← split]
                _ = _ := by simp
        · cases h
    · cases h
  · rintro ⟨_, ⟨blanks, word, gap, body, rfl, hblanks, hword, hgap, hbody⟩, rfl⟩
    obtain ⟨-, closing⟩ := Text.span_append_of_notMem hbody rest
    have text : blanks ++ word ++ gap ++ '\x7b' :: (body ++ ['\x7d']) ++ rest =
        blanks ++ (word ++ (gap ++ '\x7b' :: (body ++ '\x7d' :: rest))) := by simp
    refine ⟨gap ++ '\x7b' :: (body ++ '\x7d' :: rest), ?_, ?_⟩
    · rw [text, dropWhile_blanks hblanks hword]
      rcases hword with rfl | rfl <;> rfl
    · rw [Text.trimStart_append_of_all hgap, Text.trimStart_of_head? (by rintro _ ⟨⟩; rfl)]
      simp only [closing]

theorem exists_afterSemicolon (cs : List Char) :
    ∃ blanks semicolon, cs = blanks ++ semicolon ++ afterSemicolon cs ∧
      blanks.all isTabOrSpace = true ∧ (semicolon = [] ∨ semicolon = [';']) := by
  have blanks := List.takeWhile_append_dropWhile (p := isTabOrSpace) (l := cs)
  have all : (cs.takeWhile isTabOrSpace).all isTabOrSpace = true := List.all_takeWhile
  rw [afterSemicolon]
  split
  · next rest drop =>
      refine ⟨cs.takeWhile isTabOrSpace, [';'], ?_, all, .inr rfl⟩
      rw [List.append_assoc, List.singleton_append, ← drop, blanks]
  · exact ⟨cs.takeWhile isTabOrSpace, [], by rw [List.append_nil, blanks], all, .inl rfl⟩

theorem length_afterSemicolon_le (cs : List Char) : (afterSemicolon cs).length ≤ cs.length := by
  obtain ⟨blanks, semicolon, split, -⟩ := exists_afterSemicolon cs
  have suffix : afterSemicolon cs <:+ cs := ⟨blanks ++ semicolon, split.symm⟩
  exact suffix.length_le

/-- No blanks and semicolon in front of a text are longer than those that are passed over. -/
theorem length_afterSemicolon_append_le {blanks semicolon : List Char}
    (hblanks : blanks.all isTabOrSpace = true) (hsemicolon : semicolon = [] ∨ semicolon = [';'])
    (rest : List Char) : (afterSemicolon (blanks ++ semicolon ++ rest)).length ≤ rest.length := by
  have drop : (blanks ++ semicolon ++ rest).dropWhile isTabOrSpace =
      (semicolon ++ rest).dropWhile isTabOrSpace := by
    rw [List.append_assoc, List.dropWhile_append_of_pos (List.all_eq_true.mp hblanks)]
  have same : afterSemicolon (blanks ++ semicolon ++ rest) = afterSemicolon (semicolon ++ rest) := by
    rw [afterSemicolon, drop]
    rfl
  rw [same]
  rcases hsemicolon with rfl | rfl
  · exact length_afterSemicolon_le rest
  · exact Nat.le_refl rest.length

/-- Attributes do not begin with blanks and a semicolon. -/
theorem IsAttributes.length_le {attributes : List Char} (h : IsAttributes attributes) (rest : List Char) :
    rest.length ≤ (afterSemicolon (attributes ++ rest)).length := by
  obtain ⟨blanks, word, gap, body, rfl, hblanks, hword, -, -⟩ := h
  let more := gap ++ '\x7b' :: (body ++ ['\x7d'])
  have text : blanks ++ word ++ gap ++ '\x7b' :: (body ++ ['\x7d']) ++ rest =
      blanks ++ (word ++ (more ++ rest)) := by simp [more]
  have after : afterSemicolon (blanks ++ (word ++ (more ++ rest))) = word ++ (more ++ rest) := by
    rw [afterSemicolon, dropWhile_blanks hblanks hword]
    rcases hword with rfl | rfl <;> rfl
  rw [text, after]
  exact (List.suffix_append_of_suffix (List.suffix_append more rest)).length_le

theorem exists_isEnd (cs : List Char) : ∃ tail, IsEnd tail ∧ cs = tail ++ afterStatement cs := by
  have attributes : ∃ attributes, cs = attributes ++ (afterAttributes? cs).getD cs ∧
      (attributes = [] ∨ IsAttributes attributes) := by
    cases h : afterAttributes? cs with
    | none => exact ⟨[], rfl, .inl rfl⟩
    | some rest =>
        obtain ⟨attributes, form, split⟩ := afterAttributes?_eq_some_iff.mp h
        exact ⟨attributes, split, .inr form⟩
  obtain ⟨attributes, split, form⟩ := attributes
  rw [afterStatement]
  generalize (afterAttributes? cs).getD cs = ending at split ⊢
  obtain ⟨blanks, semicolon, text, hblanks, hsemicolon⟩ := exists_afterSemicolon ending
  refine ⟨_, ⟨attributes, blanks, semicolon, rfl, form, hblanks, hsemicolon⟩, ?_⟩
  calc
    cs = attributes ++ ending := split
    _ = attributes ++ (blanks ++ semicolon ++ afterSemicolon ending) := by rw [← text]
    _ = _ := by simp

/-- No end in front of a text is longer than the one that is passed over. -/
theorem length_afterStatement_le {tail : List Char} (h : IsEnd tail) (rest : List Char) :
    (afterStatement (tail ++ rest)).length ≤ rest.length := by
  obtain ⟨attributes, blanks, semicolon, rfl, form, hblanks, hsemicolon⟩ := h
  have le := length_afterSemicolon_append_le hblanks hsemicolon rest
  rcases form with rfl | form
  · rw [List.nil_append]
    cases found : afterAttributes? (blanks ++ semicolon ++ rest) with
    | none =>
        rw [afterStatement, found]
        exact le
    | some after =>
        -- the attributes that were found go beyond the blanks, and no semicolon follows these
        obtain ⟨attributes, form, split⟩ := afterAttributes?_eq_some_iff.mp found
        rw [split] at le
        rw [afterStatement, found]
        calc
          (afterSemicolon after).length ≤ after.length := length_afterSemicolon_le after
          _ ≤ (afterSemicolon (attributes ++ after)).length := form.length_le after
          _ ≤ rest.length := le
  · have found : afterAttributes? (attributes ++ blanks ++ semicolon ++ rest) =
        some (blanks ++ semicolon ++ rest) :=
      afterAttributes?_eq_some_iff.mpr ⟨attributes, form, by simp⟩
    rw [afterStatement, found]
    exact le

/-- What follows a statement is what is left behind the longest end. -/
theorem afterStatement_append_eq_iff {tail rest : List Char} :
    afterStatement (tail ++ rest) = rest ↔
      IsEnd tail ∧ ∀ other, IsEnd other → other <+: tail ++ rest → other.length ≤ tail.length := by
  constructor
  · intro after
    obtain ⟨ending, isEnd, split⟩ := exists_isEnd (tail ++ rest)
    rw [after] at split
    obtain rfl := List.append_cancel_right split
    refine ⟨isEnd, ?_⟩
    rintro other isEnd ⟨more, text⟩
    have le := length_afterStatement_le isEnd more
    rw [text, after] at le
    have lengths := congrArg List.length text
    rw [List.length_append, List.length_append] at lengths
    omega
  · rintro ⟨h, longest⟩
    obtain ⟨other, isEnd, split⟩ := exists_isEnd (tail ++ rest)
    have le := longest other isEnd ⟨_, split.symm⟩
    have ge := length_afterStatement_le h rest
    have lengths := congrArg List.length split
    rw [List.length_append, List.length_append] at lengths
    exact (List.append_inj_right' split (by omega)).symm

/-! ## Whole statements -/

/-- The statement is made of the keyword, the text `head`, the text `inner` in quotation marks and the text
`tail`. -/
structure Found.IsMadeOf (f : Found) (head : List Char) (quote : Char) (inner tail : List Char) :
    Prop where
  code : f.code = "import".toList ++ head ++ quote :: (inner ++ quote :: tail)
  introduces : Introduces head f.clause
  isQuote : isQuote quote = true
  notMem : quote ∉ inner
  specifier : f.specifier = Text.trim inner
  oneLine : '\n' ∉ f.specifier
  isEnd : IsEnd tail

/-- A statement is found if its end is the one that is passed over. -/
theorem Found.IsMadeOf.find?_append {f : Found} {head : List Char} {quote : Char} {inner tail : List Char}
    (made : f.IsMadeOf head quote inner tail) {rest : List Char}
    (ends : afterStatement (tail ++ rest) = rest) : find? (f.code ++ rest) = some f := by
  let afterImport := head ++ quote :: (inner ++ quote :: (tail ++ rest))
  have text : f.code ++ rest = "import".toList ++ afterImport := by simp [made.code, afterImport]
  have word : "import".toList.isPrefixOf? (f.code ++ rest) = some afterImport := by
    rw [text, List.isPrefixOf?_eq_some_iff_append_eq]
  have noQuote : ∀ c ∈ head, (!StaticImport.isQuote c) = true := by simpa using made.introduces.noQuote
  have stop : (!StaticImport.isQuote quote) = false := by simp [made.isQuote]
  obtain ⟨before, after⟩ := Text.span_append_cons noQuote stop (inner ++ quote :: (tail ++ rest))
  have clause := clause?_eq_some_iff.mpr made.introduces
  have quoted : quoted? (quote :: (inner ++ quote :: (tail ++ rest))) = some (f.specifier, tail ++ rest) :=
    quoted?_eq_some_iff.mpr
      ⟨quote, inner, rfl, made.isQuote, made.notMem, made.specifier, made.oneLine⟩
  have code : (f.code ++ rest).take ((f.code ++ rest).length - rest.length) = f.code := by
    rw [List.length_append, Nat.add_sub_cancel, List.take_left]
  rw [find?, word]
  simp only [Option.bind_eq_bind, Option.bind_some]
  rw [before, clause, after, quoted]
  simp only [Option.bind_some, ends, code]
  rfl

/-- A text starts with a statement exactly if it starts with the parts of one, of which the end is as long as
can be. -/
theorem find?_eq_some_iff {cs : List Char} {f : Found} :
    find? cs = some f ↔
      ∃ head quote inner tail rest, cs = f.code ++ rest ∧ f.IsMadeOf head quote inner tail ∧
        ∀ other, IsEnd other → other <+: tail ++ rest → other.length ≤ tail.length := by
  constructor
  · intro h
    simp only [find?, Option.bind_eq_bind, Option.bind_eq_some_iff] at h
    obtain ⟨afterImport, word, clause, hclause, ⟨specifier, afterQuote⟩, quoted, found⟩ := h
    obtain ⟨quote, inner, hq, hquote, notMem, hs, oneLine⟩ := quoted?_eq_some_iff.mp quoted
    obtain ⟨tail, isEnd, ht⟩ := exists_isEnd afterQuote
    have text : cs = ("import".toList ++ afterImport.takeWhile (!isQuote ·) ++
        quote :: (inner ++ quote :: tail)) ++ afterStatement afterQuote := by
      calc
        cs = "import".toList ++ afterImport := (List.append_eq_of_isPrefixOf?_eq_some word).symm
        _ = "import".toList ++ (afterImport.takeWhile (!isQuote ·) ++
            afterImport.dropWhile (!isQuote ·)) := by rw [List.takeWhile_append_dropWhile]
        _ = "import".toList ++ (afterImport.takeWhile (!isQuote ·) ++
            quote :: (inner ++ quote :: (tail ++ afterStatement afterQuote))) := by rw [hq, ← ht]
        _ = _ := by simp
    have code : cs.take (cs.length - (afterStatement afterQuote).length) =
        "import".toList ++ afterImport.takeWhile (!isQuote ·) ++ quote :: (inner ++ quote :: tail) := by
      rw [text, List.length_append, Nat.add_sub_cancel, List.take_left]
    obtain rfl := Option.some.inj found
    refine ⟨_, quote, inner, tail, afterStatement afterQuote, ?_,
      ⟨code, clause?_eq_some_iff.mp hclause, hquote, notMem, hs, oneLine, isEnd⟩, ?_⟩
    · dsimp only
      rw [code]
      exact text
    · exact (afterStatement_append_eq_iff.mp (by rw [← ht])).2
  · rintro ⟨head, quote, inner, tail, rest, rfl, made, longest⟩
    exact made.find?_append (afterStatement_append_eq_iff.mpr ⟨made.isEnd, longest⟩)

/-- The last character of a statement that is not a blank. -/
def isEndMark (c : Char) : Bool := isQuote c || c == '\x7d' || c == ';'

/-- A statement ends with a quotation mark, a brace or a semicolon, and blanks. -/
theorem Found.exists_endMark {cs : List Char} {f : Found} (h : find? cs = some f) :
    ∃ body mark blanks, f.code = body ++ mark :: blanks ∧ isEndMark mark = true ∧
      blanks.all isTabOrSpace = true := by
  obtain ⟨head, quote, inner, tail, -, -, made, -⟩ := find?_eq_some_iff.mp h
  obtain ⟨attributes, blanks, semicolon, rfl, hattributes, hblanks, hsemicolon⟩ := made.isEnd
  have code := made.code
  rcases hsemicolon with rfl | rfl
  · rcases hattributes with rfl | ⟨before, word, gap, body, rfl, -⟩
    · refine ⟨"import".toList ++ head ++ quote :: inner, quote, blanks, ?_, ?_, hblanks⟩
      · simpa using code
      · simp [isEndMark, made.isQuote]
    · refine ⟨"import".toList ++ head ++ quote :: (inner ++ quote :: (before ++ word ++ gap ++
        '\x7b' :: body)), '\x7d', blanks, ?_, rfl, hblanks⟩
      simpa using code
  · refine ⟨"import".toList ++ head ++ quote :: (inner ++ quote :: (attributes ++ blanks)), ';', [],
      ?_, rfl, rfl⟩
    simpa using code

/-! ## Located statements -/

theorem getLast?_cons_eq_or (c : Char) (cs : List Char) :
    (c :: cs).getLast? = cs.getLast?.or (some c) := by
  cases h : cs.getLast? <;> simp [List.getLast?_cons, h]

/-- A statement found by a scan stands in the text at its offset, and at a boundary. The induction is on the
text, at any number of characters to skip. -/
theorem exists_find?_of_mem_scan {skip : Nat} {before : Option Char} {offset : Nat} {cs : List Char}
    {i : StaticImport} (h : i ∈ scan skip before offset cs) :
    ∃ front rest f, cs = front ++ rest ∧ find? rest = some f ∧
      isBoundary (front.getLast?.or before) = true ∧
      i = f.located (offset + Text.byteLength front) := by
  induction cs generalizing skip before offset with
  | nil => cases h
  | cons c cs ih =>
      have later {skip} (h : i ∈ scan skip (some c) (offset + c.utf8Size) cs) :
          ∃ front rest f, c :: cs = front ++ rest ∧ find? rest = some f ∧
            isBoundary (front.getLast?.or before) = true ∧
            i = f.located (offset + Text.byteLength front) := by
        obtain ⟨front, rest, f, rfl, found, boundary, rfl⟩ := ih h
        refine ⟨c :: front, rest, f, rfl, found, ?_, ?_⟩
        · rwa [getLast?_cons_eq_or, Option.or_assoc, Option.some_or]
        · rw [Text.byteLength_cons, Nat.add_assoc]
      cases skip with
      | succ skip => exact later h
      | zero =>
          rw [scan] at h
          split at h
          · exact later h
          · next f found =>
              rcases List.mem_append.mp h with h | h
              · split at h
                · next boundary =>
                    obtain rfl := List.mem_singleton.mp h
                    exact ⟨[], c :: cs, f, rfl, found, boundary, by simp⟩
                · cases h
              · exact later h

/-- A located statement is a part of the source. It starts and stops at its offsets, and ends with a
quotation mark, a brace or a semicolon, and blanks. -/
theorem exists_parts_of_mem_locate {source : String} {i : StaticImport} (h : i ∈ locate source) :
    ∃ front body mark blanks rest,
      source.toList = front ++ i.code.toList ++ rest ∧ i.code.toList = body ++ mark :: blanks ∧
      i.start = Text.byteLength front ∧ i.stop = Text.byteLength (front ++ i.code.toList) ∧
      isEndMark mark = true ∧ blanks.all isTabOrSpace = true := by
  obtain ⟨front, rest, f, split, found, -, rfl⟩ := exists_find?_of_mem_scan h
  obtain ⟨-, -, -, -, rest, hrest, -⟩ := find?_eq_some_iff.mp found
  obtain ⟨body, mark, blanks, code, hmark, hblanks⟩ := Found.exists_endMark found
  refine ⟨front, body, mark, blanks, rest, ?_, ?_, ?_, ?_, hmark, hblanks⟩
  · rw [split, hrest]
    simp [Found.located]
  · simpa [Found.located] using code
  · simp [Found.located]
  · simp [Found.located]

end StaticImport

end ImportWeave
