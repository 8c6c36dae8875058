import ImportWeave.Attributes
import ImportWeave.Proofs.Json.Quoted

/-! # Attributes are read back

An object literal with texts as its values is read entry by entry. A key that is written without quotation
marks ends at its colon, and all other text ends at its closing quotation mark, so no key and no value can
pass for a separator or for a key of the other form. -/

namespace ImportWeave

open Json.Token (isGap)

/-! ## Object literals -/

namespace ObjectLiteral

def skipGap (cs : List Char) : List Char := cs.dropWhile isGap

/-- What follows a mark, in front of which there may be a gap. -/
def mark? (mark : Char) (cs : List Char) : Option (List Char) :=
  match skipGap cs with
  | [] => none
  | c :: rest => if c = mark then some rest else none

/-- The text of a string literal, and what follows it. -/
def string? (cs : List Char) : Option (String × List Char) :=
  match Json.Token.first? cs with
  | some (.str (some text), rest) => some (text, rest)
  | _ => none

/-- A key is an identifier or a string literal. -/
def key? (cs : List Char) : Option (String × List Char) :=
  match cs with
  | [] => none
  | c :: rest =>
    if Attributes.isKeyStart c then
      some (String.ofList (c :: rest.takeWhile Attributes.isKeyPart), rest.dropWhile Attributes.isKeyPart)
    else string? (c :: rest)

def pair? (cs : List Char) : Option ((String × String) × List Char) := do
  let (key, afterKey) ← key? (skipGap cs)
  let afterColon ← mark? ':' afterKey
  let (value, rest) ← string? (skipGap afterColon)
  return ((key, value), rest)

theorem length_skipGap (cs : List Char) : (skipGap cs).length ≤ cs.length :=
  (List.dropWhile_sublist isGap).length_le

theorem length_mark? {mark : Char} {cs rest : List Char} (h : mark? mark cs = some rest) :
    rest.length < cs.length := by
  have gap := length_skipGap cs
  unfold mark? at h
  split at h
  · cases h
  · next c found visible =>
      split at h
      · cases h
        rw [visible, List.length_cons] at gap
        omega
      · cases h

theorem length_string? {cs rest : List Char} {text : String} (h : string? cs = some (text, rest)) :
    rest.length < cs.length := by
  unfold string? at h
  split at h
  · next found =>
      cases h
      exact Json.Token.length_first? found
  · cases h

theorem length_key? {cs rest : List Char} {key : String} (h : key? cs = some (key, rest)) :
    rest.length < cs.length := by
  unfold key? at h
  split at h
  · cases h
  · next c tail =>
      split at h
      · cases h
        exact Nat.lt_succ_of_le (List.dropWhile_sublist _).length_le
      · exact length_string? h

theorem length_pair? {cs rest : List Char} {entry : String × String}
    (h : pair? cs = some (entry, rest)) : rest.length < cs.length := by
  simp only [pair?, Option.bind_eq_bind, Option.bind_eq_some_iff, Option.pure_def, Option.some.injEq,
    Prod.mk.injEq, Prod.exists] at h
  obtain ⟨_, afterKey, key, afterColon, colon, _, _, value, _, rfl⟩ := h
  have := length_key? key
  have := length_skipGap cs
  have := length_mark? colon
  have := length_string? value
  have := length_skipGap afterColon
  omega

/-- The entries up to the closing brace, at least one, with commas between them. -/
def pairs? (cs : List Char) : Option (List (String × String) × List Char) :=
  match _ : pair? cs with
  | none => none
  | some (entry, afterEntry) =>
    match _ : mark? ',' afterEntry with
    | none => (mark? '\x7d' afterEntry).map fun rest => ([entry], rest)
    | some afterComma => (pairs? afterComma).map fun read => (entry :: read.1, read.2)
termination_by cs.length
decreasing_by
  have := length_pair? ‹pair? cs = _›
  have := length_mark? ‹mark? ',' _ = _›
  omega

/-- The entries of an object literal in their order, and what follows its closing brace. -/
def read? (cs : List Char) : Option (List (String × String) × List Char) := do
  let afterBrace ← mark? '\x7b' cs
  match mark? '\x7d' afterBrace with
  | some rest => some ([], rest)
  | none => pairs? afterBrace

theorem skipGap_cons {c : Char} (h : isGap c = false) (cs : List Char) : skipGap (c :: cs) = c :: cs :=
  List.dropWhile_cons_of_neg (by simp [h])

theorem skipGap_space (cs : List Char) : skipGap (' ' :: cs) = skipGap cs := rfl

theorem mark?_space (mark : Char) (cs : List Char) : mark? mark (' ' :: cs) = mark? mark cs := rfl

theorem mark?_self {mark : Char} (h : isGap mark = false) (cs : List Char) :
    mark? mark (mark :: cs) = some cs := by
  rw [mark?, skipGap_cons h]
  exact if_pos rfl

/-- A comma behind an entry is followed by more of them, and the last entry by the closing brace. -/
theorem pairs?_eq {cs afterEntry : List Char} {entry : String × String}
    (first : pair? cs = some (entry, afterEntry)) :
    pairs? cs = (mark? ',' afterEntry).elim
      ((mark? '\x7d' afterEntry).map fun rest => ([entry], rest))
      (fun afterComma => (pairs? afterComma).map fun read => (entry :: read.1, read.2)) := by
  rw [pairs?]
  split
  · next missing =>
      rw [first] at missing
      cases missing
  · next found =>
      rw [first] at found
      cases found
      split
      · next last => rw [last, Option.elim_none]
      · next comma => rw [comma, Option.elim_some]

end ObjectLiteral

/-! ## Written attributes -/

namespace Attributes

open ObjectLiteral

/-! ### Keys and values -/

theorem string?_encode (text : String) (rest : List Char) :
    string? ((Json.Quoted.encode text).toList ++ rest) = some (text, rest) := by
  rw [string?, Json.Token.first?_encode]

theorem exists_encode (text : String) :
    ∃ cs, (Json.Quoted.encode text).toList = Json.Quoted.quote :: cs :=
  ⟨_, String.toList_ofList⟩

theorem isGap_of_isKeyStart {c : Char} (h : isKeyStart c = true) : isGap c = false := by
  rw [Bool.eq_false_iff]
  intro gap
  simp only [isGap, Bool.or_eq_true, beq_iff_eq] at gap
  rcases gap with ((rfl | rfl) | rfl) | rfl <;> cases h

/-- A key does not begin with a gap or with the closing brace. -/
theorem exists_renderKey (key : String) :
    ∃ c cs, (renderKey key).toList = c :: cs ∧ isGap c = false ∧ c ≠ '\x7d' := by
  unfold renderKey
  split
  · next bare =>
      obtain ⟨c, cs, text, start, -⟩ := isBareKey_iff.mp bare
      refine ⟨c, cs, text, isGap_of_isKeyStart start, ?_⟩
      rintro rfl
      cases start
  · obtain ⟨cs, text⟩ := exists_encode key
    exact ⟨Json.Quoted.quote, cs, text, rfl, by decide⟩

/-- A key ends at its colon. An identifier has no quotation mark in front, so it is known which of the two
forms a key has. -/
theorem key?_renderKey (key : String) (rest : List Char) :
    key? ((renderKey key).toList ++ ':' :: rest) = some (key, ':' :: rest) := by
  unfold renderKey
  split
  · next bare =>
      obtain ⟨c, cs, text, start, parts⟩ := isBareKey_iff.mp bare
      have colon : isKeyPart ':' = false := by decide
      rw [text, List.cons_append, key?, if_pos start, List.takeWhile_append_of_pos parts,
        List.dropWhile_append_of_pos parts]
      simp [colon, ← text]
  · have quote : isKeyStart Json.Quoted.quote = false := by decide
    have read := string?_encode key (':' :: rest)
    obtain ⟨cs, text⟩ := exists_encode key
    rw [text, List.cons_append] at read ⊢
    rw [key?, quote, read]
    rfl

theorem toList_renderEntry_append (entry : String × String) (rest : List Char) :
    (renderEntry entry).toList ++ rest =
      (renderKey entry.1).toList ++ ':' :: ' ' :: ((Json.Quoted.encode entry.2).toList ++ rest) := by
  simp [renderEntry]

theorem pair?_renderEntry (entry : String × String) (rest : List Char) :
    pair? (' ' :: ((renderEntry entry).toList ++ rest)) = some (entry, rest) := by
  have key (cs : List Char) : skipGap ((renderKey entry.1).toList ++ cs) =
      (renderKey entry.1).toList ++ cs := by
    obtain ⟨c, more, first, visible, -⟩ := exists_renderKey entry.1
    rw [first, List.cons_append, skipGap_cons visible]
  have value : skipGap ((Json.Quoted.encode entry.2).toList ++ rest) =
      (Json.Quoted.encode entry.2).toList ++ rest := by
    obtain ⟨cs, first⟩ := exists_encode entry.2
    rw [first, List.cons_append, skipGap_cons rfl]
  have colon (cs : List Char) : mark? ':' (':' :: cs) = some cs := mark?_self rfl cs
  rw [toList_renderEntry_append, pair?, skipGap_space, key, key?_renderKey]
  simp only [Option.bind_eq_bind, Option.bind_some, colon, skipGap_space, value, string?_encode]
  rfl

/-! ### The whole literal -/

/-- The entries behind the opening brace, up to the closing brace and what follows it. -/
def afterOpening (entries : List (String × String)) (rest : List Char) : List Char :=
  ' ' :: ((", ".intercalate (entries.map renderEntry)).toList ++ ' ' :: '\x7d' :: rest)

theorem toList_render_append (attributes : Attributes) (rest : List Char) :
    attributes.render.toList ++ rest = '\x7b' :: afterOpening attributes.entries rest := by
  simp [render, Text.braced, afterOpening]

theorem afterOpening_singleton (entry : String × String) (rest : List Char) :
    afterOpening [entry] rest = ' ' :: ((renderEntry entry).toList ++ ' ' :: '\x7d' :: rest) := by
  rw [afterOpening, List.map_singleton, String.intercalate_singleton]

/-- A comma is followed by another entry in the same way as the opening brace. -/
theorem afterOpening_cons_cons (entry next : String × String) (entries : List (String × String))
    (rest : List Char) : afterOpening (entry :: next :: entries) rest =
      ' ' :: ((renderEntry entry).toList ++ ',' :: afterOpening (next :: entries) rest) := by
  simp [afterOpening, String.intercalate_cons_cons]

theorem exists_afterOpening_cons (entry : String × String) (entries : List (String × String))
    (rest : List Char) :
    ∃ more, afterOpening (entry :: entries) rest = ' ' :: ((renderKey entry.1).toList ++ more) := by
  cases entries with
  | nil =>
      rw [afterOpening_singleton, toList_renderEntry_append]
      exact ⟨_, rfl⟩
  | cons next entries =>
      rw [afterOpening_cons_cons, toList_renderEntry_append]
      exact ⟨_, rfl⟩

/-- The entries are read one by one. The induction is on those behind the first. -/
theorem pairs?_afterOpening (entry : String × String) (entries : List (String × String))
    (rest : List Char) : pairs? (afterOpening (entry :: entries) rest) = some (entry :: entries, rest) := by
  induction entries generalizing entry with
  | nil =>
      rw [afterOpening_singleton, pairs?_eq (pair?_renderEntry entry _)]
      rfl
  | cons next entries ih =>
      rw [afterOpening_cons_cons, pairs?_eq (pair?_renderEntry entry _), mark?_self rfl, Option.elim_some,
        ih next]
      rfl

/-- No key passes for the closing brace, so entries are not taken for the end of an empty literal. -/
theorem mark?_afterOpening_cons (entry : String × String) (entries : List (String × String))
    (rest : List Char) : mark? '\x7d' (afterOpening (entry :: entries) rest) = none := by
  obtain ⟨more, text⟩ := exists_afterOpening_cons entry entries rest
  obtain ⟨c, cs, first, visible, notBrace⟩ := exists_renderKey entry.1
  rw [text, mark?_space, first, List.cons_append, mark?, skipGap_cons visible]
  exact if_neg notBrace

/-- The literal ends by itself: it is read in the same way whatever follows it. -/
theorem read?_render (attributes : Attributes) (rest : List Char) :
    read? (attributes.render.toList ++ rest) = some (attributes.entries, rest) := by
  rw [toList_render_append, read?, mark?_self rfl]
  simp only [Option.bind_eq_bind, Option.bind_some]
  cases attributes.entries with
  | nil => rfl
  | cons entry entries =>
      rw [mark?_afterOpening_cons]
      exact pairs?_afterOpening entry entries rest

/-- Different attributes are written differently, be it only the order of their keys that differs. The reader
of object literals finds every key and every value in its place, also if other text follows. -/
theorem render_unambiguous (a b : Attributes) (rest : List Char) :
    (a.render = b.render ↔ a = b) ∧ read? (a.render.toList ++ rest) = some (a.entries, rest) := by
  refine ⟨⟨fun same => eq_of_entries_eq ?_, congrArg render⟩, a.read?_render rest⟩
  have read := b.read?_render []
  rw [← same, a.read?_render] at read
  exact (Prod.mk.inj (Option.some.inj read)).1

/-- A value with the text of another entry in it is one value. -/
example : read? (ofList [("a", "\x22, b: \x22c")]).render.toList = some ([("a", "\x22, b: \x22c")], []) := by
  cbv

end Attributes

end ImportWeave
