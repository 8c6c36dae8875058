import ImportWeave.Proofs.Overlay.Pieces
import ImportWeave.Proofs.StaticImport.Recognition
import Mathlib.Data.List.Pairwise

/-! # The spans of located statements

A scan goes on behind what it has found. So the located statements follow one another in the text, and no
two of them have a part of it in common. -/

namespace ImportWeave.StaticImport

/-- Nothing is found in the characters that are skipped. -/
theorem le_start_of_mem_scan {skip : Nat} {before : Option Char} {offset : Nat} {cs : List Char}
    {i : StaticImport} (h : i ∈ scan skip before offset cs) :
    offset + Text.byteLength (cs.take skip) ≤ i.start := by
  induction cs generalizing skip before offset with
  | nil => cases h
  | cons c cs ih =>
      cases skip with
      | succ skip =>
          have := @ih skip (some c) (offset + c.utf8Size) h
          rwa [List.take_succ_cons, Text.byteLength_cons, ← Nat.add_assoc]
      | zero =>
          have later {skip : Nat} (h : i ∈ scan skip (some c) (offset + c.utf8Size) cs) :
              offset ≤ i.start := by
            have := ih h
            omega
          rw [scan] at h
          rw [List.take_zero, Text.byteLength_nil, Nat.add_zero]
          split at h
          · exact later h
          · rcases List.mem_append.mp h with h | h
            · split at h
              · obtain rfl := List.mem_singleton.mp h
                exact Nat.le_refl _
              · cases h
            · exact later h

/-- The statement that a text starts with takes as many bytes as the characters that are skipped for it. -/
theorem Found.byteLength_code_eq {c : Char} {cs : List Char} {f : Found} (h : find? (c :: cs) = some f) :
    Text.byteLength f.code = c.utf8Size + Text.byteLength (cs.take (f.code.length - 1)) := by
  obtain ⟨-, -, -, -, rest, split, -⟩ := find?_eq_some_iff.mp h
  obtain ⟨d, code, hcode⟩ := List.exists_cons_of_ne_nil (Found.code_ne_nil h)
  rw [hcode, List.cons_append] at split
  obtain ⟨rfl, rfl⟩ := List.cons.inj split
  rw [hcode, Text.byteLength_cons, List.length_cons, Nat.add_sub_cancel, List.take_left]

/-- What is found later starts behind the end of what is found earlier. The induction is on the text, at
any number of characters to skip. -/
theorem pairwise_scan (skip : Nat) (before : Option Char) (offset : Nat) (cs : List Char) :
    (scan skip before offset cs).Pairwise fun i j => i.stop ≤ j.start := by
  induction cs generalizing skip before offset with
  | nil => exact .nil
  | cons c cs ih =>
      cases skip with
      | succ skip => exact ih skip (some c) (offset + c.utf8Size)
      | zero =>
          rw [scan]
          split
          · exact ih 0 (some c) (offset + c.utf8Size)
          · next f found =>
              refine List.pairwise_append.mpr ⟨?_, ih _ _ _, ?_⟩
              · split
                · exact List.pairwise_singleton _ _
                · exact .nil
              · intro i hi j hj
                split at hi
                · obtain rfl := List.mem_singleton.mp hi
                  have behind := le_start_of_mem_scan hj
                  have size := Found.byteLength_code_eq found
                  simp only [Found.located]
                  omega
                · cases hi

variable {source : String} {i j : StaticImport}

theorem pairwise_locate (source : String) :
    (locate source).Pairwise fun i j => i.stop ≤ j.start := pairwise_scan 0 none 0 source.toList

theorem stop_eq_of_mem_locate (h : i ∈ locate source) :
    i.stop = i.start + Text.byteLength i.code.toList := by
  obtain ⟨front, -, -, -, -, -, -, start, stop, -⟩ := exists_parts_of_mem_locate h
  rw [start, stop, Text.byteLength_append]

theorem start_lt_stop (h : i ∈ locate source) : i.start < i.stop := by
  obtain ⟨-, body, mark, blanks, -, -, code, -⟩ := exists_parts_of_mem_locate h
  have pos := mark.utf8Size_pos
  rw [stop_eq_of_mem_locate h, code, Text.byteLength_append, Text.byteLength_cons]
  omega

theorem isOffset_start (h : i ∈ locate source) : Text.IsOffset source.toList i.start := by
  obtain ⟨front, -, -, -, rest, split, -, start, -⟩ := exists_parts_of_mem_locate h
  exact Text.isOffset_iff.mpr ⟨front, i.code.toList ++ rest, by rw [split, List.append_assoc], start⟩

theorem isOffset_stop (h : i ∈ locate source) : Text.IsOffset source.toList i.stop := by
  obtain ⟨front, -, -, -, rest, split, -, -, stop, -⟩ := exists_parts_of_mem_locate h
  exact Text.isOffset_iff.mpr ⟨front ++ i.code.toList, rest, split, stop⟩

/-- An offset that is behind the start of a statement, and not behind its end, belongs to this statement
alone. -/
theorem eq_of_offset (hi : i ∈ locate source) (hj : j ∈ locate source) {n : Nat}
    (inside : i.start < n ∧ n ≤ i.stop) (inside' : j.start < n ∧ n ≤ j.stop) : i = j := by
  have apart : (locate source).Pairwise fun i j => i.stop ≤ j.start ∨ j.stop ≤ i.start :=
    (pairwise_locate source).imp Or.inl
  have : Std.Symm fun i j : StaticImport => i.stop ≤ j.start ∨ j.stop ≤ i.start := ⟨fun _ _ => Or.symm⟩
  by_contra hne
  rcases apart.forall hi hj hne with before | after
  · omega
  · omega

end ImportWeave.StaticImport
