import ImportWeave.Proofs.Resolution.Survivors

/-! # Who holds a name

Resolution settles each name on its own: the declaration that survives for a name is the one that holds
it after a contest among those that ask for it. Imports for the effects of a module alone take part in
this contest too, all of them for the empty name unless they have an alias. -/

namespace ImportWeave

namespace Declaration

/-- Takes part in the contest for the name. -/
def competesFor (name : String) (d : Declaration) : Bool := !d.isExempt && d.displayName == name

theorem competesFor_iff {name : String} {d : Declaration} :
    d.competesFor name = true ↔ d.isExempt = false ∧ d.displayName = name := by
  simp [competesFor]

/-- Who holds a name after one more declaration has asked for it: the holder, if that is of the same
module or has the higher priority. -/
def contest (holder : Option Declaration) (d : Declaration) : Option Declaration :=
  match holder with
  | none => some d
  | some holder =>
    if holder.specifier = d.specifier ∨ d.effectivePriority < holder.effectivePriority then some holder
    else some d

end Declaration

/-- The declaration that holds the name after all that ask for it have done so in turn. -/
def holder? (name : String) (ds : List Declaration) : Option Declaration :=
  (ds.filter (·.competesFor name)).foldl Declaration.contest none

namespace Resolution

/-- A step leaves the other names as they are. -/
theorem filter_competesFor_add_of_ne {name : String} {d : Declaration}
    (h : d.competesFor name = false) (r : Resolution) :
    (r.add d).kept.filter (·.competesFor name) = r.kept.filter (·.competesFor name) := by
  rcases r.kept_add d with step | ⟨-, step⟩
  · rw [step, List.filter_append, List.filter_filter, List.filter_cons_of_neg (by simp [h]),
      List.filter_nil, List.append_nil]
    refine List.filter_congr fun e _ => ?_
    cases he : e.competesFor name with
    | false => rfl
    | true =>
        cases rival : d.rivals e with
        | false => rfl
        | true =>
            obtain ⟨hd, -, same⟩ := Declaration.rivals_iff.mp rival
            have := Declaration.competesFor_iff.mpr ⟨hd, same.trans (Declaration.competesFor_iff.mp he).2⟩
            exact absurd this (by simp [h])
  · rw [step]

/-- For the name that a declaration asks for, a step is a round of the contest. -/
theorem filter_competesFor_add {name : String} {d : Declaration} (h : d.competesFor name = true)
    {r : Resolution} {holder : Option Declaration}
    (hr : r.kept.filter (·.competesFor name) = holder.toList) :
    (r.add d).kept.filter (·.competesFor name) = (Declaration.contest holder d).toList := by
  obtain ⟨exempt, rfl⟩ := Declaration.competesFor_iff.mp h
  have rivals : d.rivals = Declaration.competesFor d.displayName := by
    funext e
    rw [Bool.eq_iff_iff, Declaration.rivals_iff, Declaration.competesFor_iff]
    exact ⟨fun h => ⟨h.2.1, h.2.2.symm⟩, fun h => ⟨exempt, h.1, h.2.symm⟩⟩
  have found : r.kept.find? d.rivals = holder := by
    rw [rivals, ← List.head?_filter, hr]
    cases holder <;> rfl
  have superseded : (r.kept.filter (fun e => !d.rivals e) ++ [d]).filter
      (·.competesFor d.displayName) = [d] := by
    rw [rivals, List.filter_append, List.filter_filter]
    simp [h]
  unfold add Declaration.contest
  rw [found]
  cases holder with
  | none =>
      simp only [List.filter_append, hr]
      simp [h]
  | some holder =>
      by_cases same : holder.specifier = d.specifier
      · simp [same, hr]
      · by_cases lower : d.effectivePriority < holder.effectivePriority
        · simp [same, lower, hr]
        · simp only [same, lower, or_self, if_false]
          split <;> exact superseded

end Resolution

/-- What survives for a name is the declaration that holds it. -/
theorem filter_competesFor_resolve (name : String) (ds : List Declaration) :
    (resolve ds).kept.filter (·.competesFor name) = (holder? name ds).toList := by
  induction ds using List.reverseRecOn with
  | nil => rfl
  | append_singleton ds d ih =>
      rw [resolve_concat, holder?, List.filter_append, List.foldl_append, ← holder?]
      cases h : d.competesFor name with
      | false =>
          rw [Resolution.filter_competesFor_add_of_ne h, ih]
          simp [h]
      | true =>
          rw [Resolution.filter_competesFor_add h ih]
          simp [h]

theorem mem_resolve_iff_holder? {ds : List Declaration} {d : Declaration} (h : d.isExempt = false) :
    d ∈ (resolve ds).kept ↔ holder? d.displayName ds = some d := by
  rw [← Option.mem_toList, ← filter_competesFor_resolve, List.mem_filter,
    Declaration.competesFor_iff]
  simp [h]

theorem mem_resolve_of_isExempt {ds : List Declaration} {d : Declaration} (h : d.isExempt = true)
    (hd : d ∈ ds) : d ∈ (resolve ds).kept := by
  obtain ⟨ps, survivors, kept⟩ := exists_survivors ds
  rw [← List.zipIdx_map_fst 0 ds] at hd
  obtain ⟨p, hp, rfl⟩ := List.mem_map.mp hd
  rw [kept]
  exact List.mem_map_of_mem (survivors.exempt p hp h)

theorem mem_of_mem_resolve {ds : List Declaration} {d : Declaration} (h : d ∈ (resolve ds).kept) :
    d ∈ ds := by
  obtain ⟨ps, survivors, kept⟩ := exists_survivors ds
  rw [kept] at h
  have := (survivors.sublist.map Prod.fst).subset h
  rwa [List.zipIdx_map_fst] at this

/-- A declaration survives if it does not compete, or else if it holds its name. -/
theorem mem_resolve_iff {ds : List Declaration} {d : Declaration} :
    d ∈ (resolve ds).kept ↔ d ∈ ds ∧ (d.isExempt = true ∨ holder? d.displayName ds = some d) := by
  cases h : d.isExempt with
  | true => exact ⟨fun hd => ⟨mem_of_mem_resolve hd, .inl rfl⟩, fun hd => mem_resolve_of_isExempt h hd.1⟩
  | false =>
      rw [mem_resolve_iff_holder? h]
      constructor
      · intro hd
        exact ⟨mem_of_mem_resolve ((mem_resolve_iff_holder? h).mpr hd), .inr hd⟩
      · rintro ⟨-, exempt | hd⟩
        · cases exempt
        · exact hd

/-! ## Side effects -/

/-- The list, once resolved, still asks for the effects of the module. -/
def KeepsEffectsOf (specifier : String) (ds : List Declaration) : Prop :=
  ∃ e ∈ (resolve ds).kept, e.kind = .sideEffect ∧ e.specifier = specifier

theorem keepsEffectsOf_iff {specifier : String} {ds : List Declaration} :
    KeepsEffectsOf specifier ds ↔ ∃ e ∈ ds, e.kind = .sideEffect ∧ e.specifier = specifier ∧
      (e.isExempt = true ∨ holder? e.displayName ds = some e) := by
  constructor
  · rintro ⟨e, he, kind, rfl⟩
    obtain ⟨hm, holds⟩ := mem_resolve_iff.mp he
    exact ⟨e, hm, kind, rfl, holds⟩
  · rintro ⟨e, hm, kind, rfl, holds⟩
    exact ⟨e, mem_resolve_iff.mpr ⟨hm, holds⟩, kind, rfl⟩

/-- Of declarations that all compete for the empty name, one is kept, so that the effects of no module
are lost only if there is one module. -/
theorem one_module_of_keepsEffectsOf {ds : List Declaration}
    (plain : ∀ d ∈ ds, d.kind = .sideEffect → d.isExempt = false ∧ d.displayName = "")
    (kept : ∀ d ∈ ds, d.kind = .sideEffect → KeepsEffectsOf d.specifier ds) {d e : Declaration}
    (hd : d ∈ ds) (he : e ∈ ds) (kd : d.kind = .sideEffect) (ke : e.kind = .sideEffect) :
    d.specifier = e.specifier := by
  have holds (d : Declaration) (hd : d ∈ ds) (kd : d.kind = .sideEffect) :
      ∃ holder, holder? "" ds = some holder ∧ holder.specifier = d.specifier := by
    obtain ⟨holder, hm, kind, same, exempt | holds⟩ := keepsEffectsOf_iff.mp (kept d hd kd)
    · exact absurd exempt (by simp [(plain holder hm kind).1])
    · rw [(plain holder hm kind).2] at holds
      exact ⟨holder, holds, same⟩
  obtain ⟨holder, h, sd⟩ := holds d hd kd
  obtain ⟨holder', h', se⟩ := holds e he ke
  rw [h, Option.some.injEq] at h'
  rw [← sd, ← se, h']

/-- For a name that is asked for, there is a holder among those that ask for it. -/
theorem exists_holder? {ds : List Declaration} {d : Declaration} (hd : d ∈ ds)
    (competes : d.isExempt = false) :
    ∃ holder ∈ ds, holder? d.displayName ds = some holder ∧
      holder.competesFor d.displayName = true := by
  obtain ⟨ps, survivors, kept⟩ := exists_survivors ds
  obtain ⟨p, hp, rival⟩ := survivors.covered d hd competes
  obtain ⟨-, exempt, name⟩ := Declaration.rivals_iff.mp rival
  have hm : p.1 ∈ (resolve ds).kept := kept ▸ List.mem_map_of_mem hp
  refine ⟨p.1, mem_of_mem_resolve hm, ?_, Declaration.competesFor_iff.mpr ⟨exempt, name.symm⟩⟩
  rw [name]
  exact (mem_resolve_iff_holder? exempt).mp hm

theorem kind_of_displayName_eq_empty {d : Declaration} (h : d.displayName = "") :
    d.kind = .sideEffect := by
  rcases ha : d.localAlias with _ | a
  · have : d.name = "" := by simpa [Declaration.displayName, ha] using h
    simp [Declaration.kind, this]
  · have : a = "" := by simpa [Declaration.displayName, ha] using h
    simp [Declaration.kind, ha, this]

/-- The effects of a module that a list asks for are kept exactly if one of the declarations that ask for
them does not compete, or holds its name. The empty name has one holder, so that without exempt
declarations and aliases nothing is lost exactly if all effects are those of one module. -/
theorem keepsEffectsOf_iff_holds (ds : List Declaration) :
    (∀ d ∈ ds, d.disabled = false → d.kind = .sideEffect →
      (KeepsEffectsOf d.specifier ds ↔
        ∃ e ∈ ds, e.kind = .sideEffect ∧ e.specifier = d.specifier ∧
          (e.isExempt = true ∨ holder? e.displayName ds = some e))) ∧
    ((∀ d ∈ ds, d.kind = .sideEffect → d.isExempt = false ∧ d.displayName = "") →
      ((∀ d ∈ ds, d.kind = .sideEffect → KeepsEffectsOf d.specifier ds) ↔
        ∀ d ∈ ds, ∀ e ∈ ds, d.kind = .sideEffect → e.kind = .sideEffect →
          d.specifier = e.specifier)) := by
  refine ⟨fun d _ _ _ => keepsEffectsOf_iff, fun plain => ⟨?_, ?_⟩⟩
  · intro kept d hd e he kd ke
    exact one_module_of_keepsEffectsOf plain kept hd he kd ke
  · intro one d hd kd
    obtain ⟨exempt, empty⟩ := plain d hd kd
    obtain ⟨holder, hm, holds, competes⟩ := exists_holder? hd exempt
    have name := (Declaration.competesFor_iff.mp competes).2
    have kind := kind_of_displayName_eq_empty (name.trans empty)
    refine keepsEffectsOf_iff.mpr ⟨holder, hm, kind, one holder hm d hd kind kd, .inr ?_⟩
    rw [name]
    exact holds

/-- Two imports for effects alone: the second takes the empty name from the first, which is lost. -/
theorem resolve_loses_sideEffect :
    let ds := [Declaration.sideEffect "polyfill", .sideEffect "style.css"]
    (Declaration.sideEffect "polyfill").disabled = false ∧
      (Declaration.sideEffect "polyfill").kind = .sideEffect ∧
      ¬ KeepsEffectsOf "polyfill" ds := by
  intro ds
  refine ⟨rfl, rfl, ?_⟩
  rintro ⟨e, he, -, specifier⟩
  have kept : (resolve ds).kept = [.sideEffect "style.css"] := by decide +kernel
  rw [kept, List.mem_singleton] at he
  rw [he] at specifier
  exact absurd specifier (by decide)

end ImportWeave
