import ImportWeave.Proofs.StaticImport.Recognition

/-! # Scans of a text in two parts

A scan of two texts in a row finds the statements that begin in the first one. In the second one it goes
on behind what the last of them takes of it. -/

namespace ImportWeave.StaticImport

/-! ## Texts further behind -/

/-- The same statement behind `n` more bytes. -/
def shift (n : Nat) (i : StaticImport) : StaticImport :=
  { i with start := n + i.start, stop := n + i.stop }

theorem shift_injective (n : Nat) : Function.Injective (shift n) := by
  rintro ⟨specifier, start, stop, code, clause, names⟩ ⟨specifier', start', stop', code', clause', names'⟩ h
  obtain ⟨rfl, hstart, hstop, rfl, rfl, rfl⟩ := mk.inj h
  obtain rfl := Nat.add_left_cancel hstart
  obtain rfl := Nat.add_left_cancel hstop
  rfl

theorem Found.located_add (f : Found) (n offset : Nat) :
    f.located (n + offset) = (f.located offset).shift n := by
  simp only [Found.located, shift, Nat.add_assoc]

theorem scan_add (skip : Nat) (before : Option Char) (n offset : Nat) (cs : List Char) :
    scan skip before (n + offset) cs = (scan skip before offset cs).map (shift n) := by
  induction cs generalizing skip before offset with
  | nil => rfl
  | cons c cs ih =>
      cases skip with
      | succ skip => rw [scan, scan, Nat.add_assoc, ih]
      | zero =>
          rw [scan, scan, Nat.add_assoc]
          split
          · rw [ih]
          · rw [ih, List.map_append, Found.located_add, apply_ite (List.map (shift n))]
            rfl

theorem scan_of_isBoundary {before before' : Option Char} (h : isBoundary before = isBoundary before')
    (skip offset : Nat) (cs : List Char) :
    scan skip before offset cs = scan skip before' offset cs := by
  cases cs with
  | nil => rfl
  | cons c cs =>
      cases skip with
      | succ skip => rfl
      | zero => rw [scan, scan, h]

/-! ## The second part -/

/-- The number of characters of `rest` that belong to a statement which begins in front of it. -/
def overrun (skip : Nat) (front rest : List Char) : Nat :=
  match front with
  | [] => skip
  | c :: cs =>
    match skip with
    | skip + 1 => overrun skip cs rest
    | 0 => match find? (c :: (cs ++ rest)) with
      | none => overrun 0 cs rest
      | some found => overrun (found.code.length - 1) cs rest

theorem le_overrun (skip : Nat) (front rest : List Char) :
    skip ≤ front.length + overrun skip front rest := by
  induction front generalizing skip with
  | nil => exact Nat.le_add_left _ _
  | cons c cs ih =>
      cases skip with
      | zero => exact Nat.zero_le _
      | succ skip =>
          have := ih skip
          rw [overrun, List.length_cons]
          omega

/-- Nothing is taken of a text if no statement begins in front of it. -/
theorem overrun_eq_zero {front rest : List Char}
    (h : ∀ back, back ≠ [] → back <:+ front → find? (back ++ rest) = none) :
    overrun 0 front rest = 0 := by
  induction front with
  | nil => rfl
  | cons c cs ih =>
      have none : find? (c :: (cs ++ rest)) = none := h (c :: cs) (List.cons_ne_nil _ _) List.suffix_rfl
      rw [overrun, none]
      exact ih fun back nonempty suffix => h back nonempty (suffix.trans (List.suffix_cons _ _))

/-- A statement that takes nothing of the second text ends in the first one. -/
theorem Found.byteLength_code_le {c : Char} {cs rest : List Char} {f : Found}
    (found : find? (c :: (cs ++ rest)) = some f) (none : overrun (f.code.length - 1) cs rest = 0) :
    Text.byteLength f.code ≤ Text.byteLength (c :: cs) := by
  obtain ⟨-, -, -, -, behind, text, -⟩ := find?_eq_some_iff.mp found
  have short : f.code.length ≤ (c :: cs).length := by
    have := le_overrun (f.code.length - 1) cs rest
    rw [List.length_cons]
    omega
  obtain ⟨more, split⟩ : f.code <+: c :: cs :=
    List.prefix_of_prefix_length_le ⟨behind, text.symm⟩ (List.prefix_append (c :: cs) rest) short
  rw [← split, Text.byteLength_append]
  exact Nat.le_add_right _ _

/-- The statements of two texts in a row. Those that begin in the first one end there as well, unless
some of the second one is taken. The induction is on the first text, at any number of characters to
skip. -/
theorem exists_scan_append (skip : Nat) (before : Option Char) (offset : Nat) (front rest : List Char) :
    ∃ begun, scan skip before offset (front ++ rest) =
        begun ++ scan (overrun skip front rest) (front.getLast?.or before)
          (offset + Text.byteLength front) rest ∧
      ∀ i ∈ begun, i.start < offset + Text.byteLength front ∧
        (overrun skip front rest = 0 → i.stop ≤ offset + Text.byteLength front) := by
  induction front generalizing skip before offset with
  | nil => exact ⟨[], rfl, fun _ h => nomatch h⟩
  | cons c cs ih =>
      have last : (c :: cs).getLast?.or before = cs.getLast?.or (some c) := by
        rw [getLast?_cons_eq_or, Option.or_assoc, Option.some_or]
      rw [last, Text.byteLength_cons, ← Nat.add_assoc]
      cases skip with
      | succ skip => exact ih skip (some c) (offset + c.utf8Size)
      | zero =>
          rw [List.cons_append, scan, overrun]
          cases found : find? (c :: (cs ++ rest)) with
          | none => exact ih 0 (some c) (offset + c.utf8Size)
          | some f =>
              obtain ⟨begun, split, bounds⟩ := ih (f.code.length - 1) (some c) (offset + c.utf8Size)
              refine ⟨(if isBoundary before then [f.located offset] else []) ++ begun, ?_, ?_⟩
              · rw [List.append_assoc, ← split]
              · intro i hi
                rcases List.mem_append.mp hi with hi | hi
                · split at hi
                  · obtain rfl := List.mem_singleton.mp hi
                    have pos := c.utf8Size_pos
                    have size := Text.byteLength_cons c cs
                    refine ⟨?_, fun none => ?_⟩
                    · simp only [Found.located]
                      omega
                    · have := Found.byteLength_code_le found none
                      simp only [Found.located]
                      omega
                  · cases hi
                · exact bounds i hi

end ImportWeave.StaticImport
