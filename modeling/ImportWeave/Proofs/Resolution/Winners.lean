import ImportWeave.Proofs.Resolution.Holder

/-! # What it takes to hold a name

The survivor for a name need not be the declaration with the highest priority: what comes from the module
that holds the name is passed over before priorities are compared. But the survivor was the last to take
the name. So whatever asked for it later was of the same module or had a lower priority, and whatever has
a higher priority was passed over for an earlier declaration of its own module. -/

namespace ImportWeave

namespace Declaration

/-- The declaration leaves the name to its holder, which is of the same module or has the higher
priority. -/
def YieldsTo (d holder : Declaration) : Prop :=
  holder.specifier = d.specifier ∨ d.effectivePriority < holder.effectivePriority

theorem le_of_not_yieldsTo {d holder : Declaration} (h : ¬ d.YieldsTo holder) :
    holder.effectivePriority ≤ d.effectivePriority :=
  Int32.not_lt.mp fun lower => h (.inr lower)

end Declaration

namespace Resolution

variable {r : Resolution} {d : Declaration}

theorem kept_add_of_yieldsTo {holder : Declaration} (found : r.kept.find? d.rivals = some holder)
    (yields : d.YieldsTo holder) : (r.add d).kept = r.kept := by
  unfold add
  rw [found]
  by_cases same : holder.specifier = d.specifier
  · simp only [if_pos same]
  · have lower := yields.resolve_left same
    simp only [if_neg same, if_pos lower]

theorem kept_add_of_not_yieldsTo (takes : ∀ holder ∈ r.kept.find? d.rivals, ¬ d.YieldsTo holder) :
    (r.add d).kept = r.kept.filter (fun e => !d.rivals e) ++ [d] := by
  rcases r.kept_add d with step | ⟨⟨rival, hm, hr⟩, -⟩
  · exact step
  · obtain ⟨holder, found⟩ := Option.isSome_iff_exists.mp (List.find?_isSome.mpr ⟨rival, hm, hr⟩)
    obtain ⟨other, higher⟩ := not_or.mp (takes holder found)
    unfold add
    rw [found]
    simp only [if_neg other, if_neg higher]
    split <;> rfl

end Resolution

/-- The survivors of a list, with what each of them has against its rivals. -/
structure Winners (ds : List Declaration) (ps : List (Declaration × Nat)) : Prop
    extends Survivors ds ps where
  later : ∀ s ∈ ps, ∀ q ∈ ds.zipIdx, s.1.rivals q.1 = true → s.2 < q.2 → q.1.YieldsTo s.1
  higher : ∀ s ∈ ps, ∀ q ∈ ds.zipIdx, s.1.rivals q.1 = true →
    s.1.effectivePriority < q.1.effectivePriority →
    ∃ e ∈ ds.zipIdx, q.1.rivals e.1 = true ∧ e.2 < q.2 ∧ e.1.specifier = q.1.specifier ∧
      e.1.effectivePriority < q.1.effectivePriority

namespace Winners

variable {ds : List Declaration} {ps : List (Declaration × Nat)} {d : Declaration}

/-- An entry of the longer list is an old one, or the declaration at the end. -/
theorem mem_zipIdx_concat {q : Declaration × Nat} :
    q ∈ (ds ++ [d]).zipIdx ↔ q ∈ ds.zipIdx ∨ q = (d, ds.length) := by
  rw [Survivors.zipIdx_concat, List.mem_append, List.mem_singleton]

/-- A declaration that yields to none of its rivals takes their place. -/
theorem supersede (h : Winners ds ps)
    (takes : ∀ p ∈ ps, d.rivals p.1 = true → ¬ d.YieldsTo p.1) :
    Winners (ds ++ [d]) (ps.filter (fun p => !d.rivals p.1) ++ [(d, ds.length)]) where
  toSurvivors := h.toSurvivors.supersede
  later := by
    intro s hs q hq rival before
    rcases List.mem_append.mp hs with hs | hs
    · obtain ⟨hs, other⟩ := List.mem_filter.mp hs
      rcases mem_zipIdx_concat.mp hq with hq | rfl
      · exact h.later s hs q hq rival before
      · rw [Declaration.rivals_comm] at rival
        simp [rival] at other
    · rw [List.mem_singleton.mp hs] at before
      rcases mem_zipIdx_concat.mp hq with hq | rfl
      · exact absurd (List.snd_lt_of_mem_zipIdx hq) (Nat.lt_asymm before)
      · exact absurd before (Nat.lt_irrefl _)
  higher := by
    intro s hs q hq rival above
    rcases mem_zipIdx_concat.mp hq with hq | rfl
    · suffices ∃ p ∈ ps, p.1.rivals q.1 = true ∧ p.1.effectivePriority < q.1.effectivePriority by
        obtain ⟨p, hp, rival, above⟩ := this
        obtain ⟨e, he, duplicate⟩ := h.higher p hp q hq rival above
        exact ⟨e, mem_zipIdx_concat.mpr (.inl he), duplicate⟩
      rcases List.mem_append.mp hs with hs | hs
      · exact ⟨s, (List.mem_filter.mp hs).1, rival, above⟩
      -- whoever held the name before had at most the priority of the one that takes it
      · rw [List.mem_singleton.mp hs] at rival above
        obtain ⟨p, hp, held⟩ := h.covered q.1 (List.fst_mem_of_mem_zipIdx hq)
          (Declaration.rivals_iff.mp rival).2.1
        have le := Declaration.le_of_not_yieldsTo (takes p hp (Declaration.rivals_trans rival held))
        exact ⟨p, hp, Declaration.rivals_comm q.1 p.1 ▸ held, Int32.lt_of_le_of_lt le above⟩
    · rcases List.mem_append.mp hs with hs | hs
      · have other := (List.mem_filter.mp hs).2
        rw [Declaration.rivals_comm] at rival
        simp [rival] at other
      · rw [List.mem_singleton.mp hs] at above
        exact absurd above Int32.lt_irrefl

/-- A declaration that yields to a rival changes nothing. -/
theorem ignore (h : Winners ds ps) {p : Declaration × Nat} (hp : p ∈ ps)
    (rival : d.rivals p.1 = true) (yields : d.YieldsTo p.1) : Winners (ds ++ [d]) ps where
  toSurvivors := h.toSurvivors.ignore ⟨p, hp, rival⟩
  later := by
    intro s hs q hq hr before
    rcases mem_zipIdx_concat.mp hq with hq | rfl
    · exact h.later s hs q hq hr before
    · rw [h.eq_of_rivals hs hp (Declaration.rivals_trans hr rival)]
      exact yields
  higher := by
    intro s hs q hq hr above
    rcases mem_zipIdx_concat.mp hq with hq | rfl
    · obtain ⟨e, he, duplicate⟩ := h.higher s hs q hq hr above
      exact ⟨e, mem_zipIdx_concat.mpr (.inl he), duplicate⟩
    · rw [h.eq_of_rivals hs hp (Declaration.rivals_trans hr rival)] at above
      have hm := h.sublist.subset hp
      have same := yields.resolve_right fun lower => Int32.lt_asymm lower above
      exact ⟨p, mem_zipIdx_concat.mpr (.inl hm), rival, List.snd_lt_of_mem_zipIdx hm, same, above⟩

end Winners

theorem exists_winners (ds : List Declaration) :
    ∃ ps, Winners ds ps ∧ (resolve ds).kept = ps.map Prod.fst := by
  induction ds using List.reverseRecOn with
  | nil => exact ⟨[], ⟨⟨.slnil, by simp, .nil, by simp⟩, by simp, by simp⟩, rfl⟩
  | append_singleton ds d ih =>
      obtain ⟨ps, winners, kept⟩ := ih
      have found (holder : Declaration) (h : (resolve ds).kept.find? d.rivals = some holder) :
          ∃ p ∈ ps, d.rivals p.1 = true ∧ p.1 = holder := by
        have hm := List.mem_of_find?_eq_some h
        rw [kept] at hm
        obtain ⟨p, hp, rfl⟩ := List.mem_map.mp hm
        exact ⟨p, hp, List.find?_some h, rfl⟩
      rw [resolve_concat]
      by_cases h : ∃ holder ∈ (resolve ds).kept.find? d.rivals, d.YieldsTo holder
      · obtain ⟨holder, hf, yields⟩ := h
        obtain ⟨p, hp, rival, rfl⟩ := found holder hf
        exact ⟨ps, winners.ignore hp rival yields,
          (Resolution.kept_add_of_yieldsTo hf yields).trans kept⟩
      · have takes : ∀ holder ∈ (resolve ds).kept.find? d.rivals, ¬ d.YieldsTo holder :=
          fun holder hf yields => h ⟨holder, hf, yields⟩
        refine ⟨_, winners.supersede ?_, ?_⟩
        · intro p hp rival
          -- the rival found is the only one there is
          obtain ⟨holder, hf⟩ := Option.isSome_iff_exists.mp
            (List.find?_isSome.mpr ⟨p.1, kept ▸ List.mem_map_of_mem hp, rival⟩)
          obtain ⟨q, hq, rival', rfl⟩ := found holder hf
          rw [Declaration.rivals_comm] at rival
          rw [winners.eq_of_rivals hp hq (Declaration.rivals_trans rival rival')]
          exact takes q.1 hf
        · rw [Resolution.kept_add_of_not_yieldsTo takes, kept, List.filter_map, List.map_append]
          rfl

/-- For each name that is asked for, one declaration survives. All that ask for the name later are of its
module or have a lower priority, and all that have a higher priority come after a declaration of the same
name and module with a lower priority than theirs. -/
theorem survivor_outranks_rivals (ds : List Declaration) :
    ∃ ps : List (Declaration × Nat), (resolve ds).kept = ps.map Prod.fst ∧ ps.Sublist ds.zipIdx ∧
      ∀ name, (∃ d ∈ ds, d.competesFor name = true) →
        ∃ s ∈ ps, s.1.competesFor name = true ∧
          (∀ q ∈ ps, q.1.competesFor name = true → q = s) ∧
          (∀ q ∈ ds.zipIdx, q.1.competesFor name = true → s.2 < q.2 →
            q.1.specifier = s.1.specifier ∨ q.1.priority.getD 1 < s.1.priority.getD 1) ∧
          ∀ q ∈ ds.zipIdx, q.1.competesFor name = true →
            s.1.priority.getD 1 < q.1.priority.getD 1 →
            ∃ e ∈ ds.zipIdx, e.1.competesFor name = true ∧ e.2 < q.2 ∧
              e.1.specifier = q.1.specifier ∧ e.1.priority.getD 1 < q.1.priority.getD 1 := by
  obtain ⟨ps, winners, kept⟩ := exists_winners ds
  refine ⟨ps, kept, winners.sublist, ?_⟩
  rintro name ⟨d, hd, competes⟩
  obtain ⟨exempt, rfl⟩ := Declaration.competesFor_iff.mp competes
  obtain ⟨s, hs, rival⟩ := winners.covered d hd exempt
  obtain ⟨-, hse, name⟩ := Declaration.rivals_iff.mp rival
  have rivals {q : Declaration} (hq : q.competesFor d.displayName = true) : s.1.rivals q = true := by
    obtain ⟨hqe, hqn⟩ := Declaration.competesFor_iff.mp hq
    exact Declaration.rivals_iff.mpr ⟨hse, hqe, name.symm.trans hqn.symm⟩
  refine ⟨s, hs, Declaration.competesFor_iff.mpr ⟨hse, name.symm⟩, ?_, ?_, ?_⟩
  · intro q hq hc
    exact (winners.eq_of_rivals hs hq (rivals hc)).symm
  · intro q hq hc after
    exact (winners.later s hs q hq (rivals hc) after).imp_left Eq.symm
  · intro q hq hc above
    obtain ⟨e, he, rival, before, same, lower⟩ := winners.higher s hs q hq (rivals hc) above
    obtain ⟨-, hee, hen⟩ := Declaration.rivals_iff.mp rival
    have asks := (Declaration.competesFor_iff.mp hc).2
    exact ⟨e, he, Declaration.competesFor_iff.mpr ⟨hee, hen.symm.trans asks⟩, before, same, lower⟩

-- a later declaration loses to a higher priority, and wins against an equal or a lower one
example :
    let low : Declaration := { name := "x", specifier := "a", priority := some 0 }
    let usual : Declaration := { name := "x", specifier := "b" }
    let high : Declaration := { name := "x", specifier := "c", priority := some 2 }
    (resolve [usual, low]).kept = [usual] ∧ (resolve [low, usual]).kept = [usual] ∧
      (resolve [low, high, usual]).kept = [high] ∧
      (resolve [usual, { usual with specifier := "d", priority := some 1 }]).kept =
        [{ usual with specifier := "d", priority := some 1 }] := by
  decide

end ImportWeave
