import ImportWeave.Declaration.Resolution
import Mathlib.Data.List.Induction
import Mathlib.Data.List.Pairwise

/-! # The declarations that survive

Resolution keeps some positions of its input, in their order: all declarations that do not compete, and
of those that compete for one name exactly one. -/

namespace ImportWeave

namespace Declaration

theorem isExempt_iff {d : Declaration} :
    d.isExempt = true ↔ d.disabled = true ∨ d.declaredAs = some .enumeration ∨
      d.declaredAs = some .constEnumeration := by
  rcases h : d.declaredAs with _ | a
  · simp [isExempt, h]
  · cases a <;> simp [isExempt, h, DeclaredAs.isEnumeration]

theorem rivals_iff {d e : Declaration} :
    d.rivals e = true ↔
      d.isExempt = false ∧ e.isExempt = false ∧ d.displayName = e.displayName := by
  simp [rivals, and_assoc]

theorem rivals_comm (d e : Declaration) : d.rivals e = e.rivals d := by
  rw [Bool.eq_iff_iff, rivals_iff, rivals_iff]
  exact ⟨fun h => ⟨h.2.1, h.1, h.2.2.symm⟩, fun h => ⟨h.2.1, h.1, h.2.2.symm⟩⟩

theorem rivals_trans {d e f : Declaration} (h : d.rivals e = true) (h' : e.rivals f = true) :
    d.rivals f = true := by
  rw [rivals_iff] at *
  exact ⟨h.1, h'.2.1, h.2.2.trans h'.2.2⟩

theorem rivals_self {d : Declaration} (h : d.isExempt = false) : d.rivals d = true :=
  rivals_iff.mpr ⟨h, h, rfl⟩

theorem rivals_of_isExempt {d e : Declaration} (h : e.isExempt = true) : d.rivals e = false := by
  simp [rivals, h]

end Declaration

theorem resolve_concat (ds : List Declaration) (d : Declaration) :
    resolve (ds ++ [d]) = (resolve ds).add d := by
  simp [resolve]

/-- One step either changes nothing, because a rival is there, or puts the declaration in the place of
all its rivals. -/
theorem Resolution.kept_add (r : Resolution) (d : Declaration) :
    (r.add d).kept = r.kept.filter (fun e => !d.rivals e) ++ [d] ∨
      (∃ holder ∈ r.kept, d.rivals holder = true) ∧ (r.add d).kept = r.kept := by
  unfold add
  split
  · next h =>
      have none : r.kept.filter (fun e => !d.rivals e) = r.kept := by
        rw [List.filter_eq_self]
        simpa using h
      exact .inl (by rw [none])
  · next holder h =>
      have rival : ∃ holder ∈ r.kept, d.rivals holder = true :=
        ⟨holder, List.mem_of_find?_eq_some h, List.find?_some h⟩
      split
      · exact .inr ⟨rival, rfl⟩
      · split
        · exact .inr ⟨rival, rfl⟩
        · split <;> exact .inl rfl

/-- The survivors of a list, each with its position. -/
structure Survivors (ds : List Declaration) (ps : List (Declaration × Nat)) : Prop where
  sublist : ps.Sublist ds.zipIdx
  exempt : ∀ p ∈ ds.zipIdx, p.1.isExempt = true → p ∈ ps
  distinct : ps.Pairwise fun p q => p.1.rivals q.1 = false
  covered : ∀ d ∈ ds, d.isExempt = false → ∃ p ∈ ps, d.rivals p.1 = true

namespace Survivors

variable {ds : List Declaration} {ps : List (Declaration × Nat)} {d : Declaration}

theorem zipIdx_concat (ds : List Declaration) (d : Declaration) :
    (ds ++ [d]).zipIdx = ds.zipIdx ++ [(d, ds.length)] := by
  simp [List.zipIdx_append]

/-- The declaration at the end survives, and its rivals do not. -/
theorem supersede (h : Survivors ds ps) :
    Survivors (ds ++ [d]) (ps.filter (fun p => !d.rivals p.1) ++ [(d, ds.length)]) where
  sublist := by
    rw [zipIdx_concat]
    exact (List.filter_sublist.trans h.sublist).append (.refl _)
  exempt := by
    intro p hp he
    rw [zipIdx_concat, List.mem_append] at hp
    refine List.mem_append.mpr (hp.imp ?_ id)
    intro hp
    refine List.mem_filter.mpr ⟨h.exempt p hp he, ?_⟩
    rw [Declaration.rivals_of_isExempt he]
    rfl
  distinct := by
    refine List.pairwise_append.mpr ⟨h.distinct.filter _, List.pairwise_singleton _ _, ?_⟩
    intro p hp q hq
    rw [List.mem_singleton.mp hq, Declaration.rivals_comm]
    simpa using (List.mem_filter.mp hp).2
  covered := by
    have last : (d, ds.length) ∈ ps.filter (fun p => !d.rivals p.1) ++ [(d, ds.length)] :=
      List.mem_append_right _ (List.mem_singleton_self _)
    intro e he competes
    rcases List.mem_append.mp he with he | he
    · obtain ⟨p, hp, rival⟩ := h.covered e he competes
      -- the rival that stood for `e` may be one that the new declaration takes the place of
      cases hd : d.rivals p.1 with
      | true =>
          rw [Declaration.rivals_comm] at hd
          exact ⟨_, last, Declaration.rivals_trans rival hd⟩
      | false =>
          refine ⟨p, List.mem_append_left _ (List.mem_filter.mpr ⟨hp, ?_⟩), rival⟩
          rw [hd]
          rfl
    · rw [List.mem_singleton.mp he] at competes ⊢
      exact ⟨_, last, Declaration.rivals_self competes⟩

/-- The declaration at the end does not survive, because a rival does. -/
theorem ignore (h : Survivors ds ps) (rival : ∃ p ∈ ps, d.rivals p.1 = true) :
    Survivors (ds ++ [d]) ps where
  sublist := by
    rw [zipIdx_concat]
    exact h.sublist.trans (List.sublist_append_left _ _)
  exempt := by
    intro p hp he
    rw [zipIdx_concat, List.mem_append, List.mem_singleton] at hp
    rcases hp with hp | rfl
    · exact h.exempt p hp he
    · obtain ⟨q, -, hq⟩ := rival
      exact absurd he (by simp [(Declaration.rivals_iff.mp hq).1])
  distinct := h.distinct
  covered := by
    intro e he competes
    rcases List.mem_append.mp he with he | he
    · exact h.covered e he competes
    · rw [List.mem_singleton.mp he]
      exact rival

/-- Two survivors at different positions are not rivals. -/
theorem eq_of_rivals (h : Survivors ds ps) {p q : Declaration × Nat} (hp : p ∈ ps) (hq : q ∈ ps)
    (rival : p.1.rivals q.1 = true) : p = q := by
  have : Std.Symm fun p q : Declaration × Nat => p.1.rivals q.1 = false :=
    ⟨fun p q h => Declaration.rivals_comm p.1 q.1 ▸ h⟩
  by_contra hne
  exact absurd rival (by simp [h.distinct.forall hp hq hne])

end Survivors

theorem exists_survivors (ds : List Declaration) :
    ∃ ps, Survivors ds ps ∧ (resolve ds).kept = ps.map Prod.fst := by
  induction ds using List.reverseRecOn with
  | nil => exact ⟨[], ⟨.slnil, by simp, .nil, by simp⟩, rfl⟩
  | append_singleton ds d ih =>
      obtain ⟨ps, survivors, kept⟩ := ih
      rw [resolve_concat]
      rcases (resolve ds).kept_add d with step | ⟨⟨holder, hm, rival⟩, step⟩
      · refine ⟨_, survivors.supersede, ?_⟩
        rw [step, kept, List.filter_map, List.map_append]
        rfl
      · rw [kept] at hm
        obtain ⟨p, hp, rfl⟩ := List.mem_map.mp hm
        exact ⟨ps, survivors.ignore ⟨p, hp, rival⟩, step.trans kept⟩

/-- Resolution filters its input by position. What is disabled or declared as an enumeration survives, no
two others that survive have the same display name, and for each display name of the others exactly one
of them survives. -/
theorem resolve_keeps_one_per_name (ds : List Declaration) :
    let exempt (d : Declaration) : Prop := d.disabled = true ∨
      d.declaredAs = some .enumeration ∨ d.declaredAs = some .constEnumeration
    ∃ ps : List (Declaration × Nat), (resolve ds).kept = ps.map Prod.fst ∧ ps.Sublist ds.zipIdx ∧
      (∀ p ∈ ds.zipIdx, exempt p.1 → p ∈ ps) ∧
      (ps.Pairwise fun p q => ¬ exempt p.1 → ¬ exempt q.1 → p.1.displayName ≠ q.1.displayName) ∧
      ∀ d ∈ ds, ¬ exempt d →
        ∃! p, p ∈ ps ∧ ¬ exempt p.1 ∧ p.1.displayName = d.displayName := by
  intro exempt
  have competes (d : Declaration) : ¬ exempt d ↔ d.isExempt = false :=
    (not_congr Declaration.isExempt_iff.symm).trans (by rw [Bool.not_eq_true])
  obtain ⟨ps, survivors, kept⟩ := exists_survivors ds
  refine ⟨ps, kept, survivors.sublist, fun p hp he => survivors.exempt p hp
    (Declaration.isExempt_iff.mpr he), ?_, ?_⟩
  · refine survivors.distinct.imp fun {p q} hn hp hq name => ?_
    have rivals := Declaration.rivals_iff.mpr ⟨(competes _).mp hp, (competes _).mp hq, name⟩
    exact absurd rivals (by simp [hn])
  · simp only [competes]
    intro d hd asks
    obtain ⟨p, hp, rival⟩ := survivors.covered d hd asks
    obtain ⟨-, hpe, name⟩ := Declaration.rivals_iff.mp rival
    exact ⟨p, ⟨hp, hpe, name.symm⟩, fun q ⟨hq, hqe, hname⟩ =>
      survivors.eq_of_rivals hq hp (Declaration.rivals_iff.mpr ⟨hqe, hpe, hname.trans name⟩)⟩

end ImportWeave
