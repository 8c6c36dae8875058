import ImportWeave.Proofs.Declaration.Normalization
import ImportWeave.Proofs.Resolution.Survivors

/-! # What resolution does not see

A list that has been resolved is settled: it is left as it is, without a report. To fill in aliases before
or after makes no difference, and neither does it to leave out declarations that do not compete. Of what
came earlier only the declarations that were kept are seen, so that a list can be resolved in batches. -/

namespace ImportWeave

namespace Resolution

variable {r : Resolution} {d : Declaration}

/-- A declaration without rivals is kept, and nothing is reported. -/
theorem add_of_not_rivals (h : ∀ e ∈ r.kept, d.rivals e = false) :
    r.add d = { r with kept := r.kept ++ [d] } := by
  have none : r.kept.find? d.rivals = none := by
    rw [List.find?_eq_none]
    intro e he
    simp [h e he]
  unfold add
  rw [none]

theorem add_of_isExempt (h : d.isExempt = true) : r.add d = { r with kept := r.kept ++ [d] } :=
  add_of_not_rivals fun _ _ => by rw [Declaration.rivals_comm, Declaration.rivals_of_isExempt h]

/-! ## Aliases -/

/-- The declarations in their normal forms. -/
def normalize (r : Resolution) : Resolution := { r with kept := r.kept.map Declaration.normalize }

theorem supersede_normalize (r : Resolution) (d : Declaration) :
    r.normalize.supersede d.normalize = (r.supersede d).normalize := by
  simp only [supersede, normalize, List.filter_map, List.map_append, List.map_singleton]
  rfl

theorem report_normalize (r : Resolution) (holder d : Declaration) :
    r.normalize.report holder.normalize d.normalize = (r.report holder d).normalize := rfl

theorem add_normalize (r : Resolution) (d : Declaration) :
    r.normalize.add d.normalize = (r.add d).normalize := by
  have found : r.normalize.kept.find? d.normalize.rivals =
      (r.kept.find? d.rivals).map Declaration.normalize := by
    rw [normalize, List.find?_map]
    rfl
  unfold add
  rw [found]
  cases r.kept.find? d.rivals with
  | none => simp only [Option.map_none, normalize, List.map_append, List.map_singleton]
  | some holder =>
      have priority (e : Declaration) : e.normalize.effectivePriority = e.effectivePriority := rfl
      simp only [Option.map_some, Declaration.specifier_normalize, priority, report_normalize,
        supersede_normalize, apply_ite normalize]

/-! ## Declarations that do not compete -/

/-- Only the declarations that `p` selects. -/
def restrict (p : Declaration → Bool) (r : Resolution) : Resolution :=
  { r with kept := r.kept.filter p }

variable {p : Declaration → Bool}

theorem restrict_add_of_neg (h : d.isExempt = true) (hd : p d = false) :
    (r.add d).restrict p = r.restrict p := by
  rw [add_of_isExempt h]
  simp [restrict, hd]

theorem supersede_restrict (r : Resolution) (hd : p d = true) :
    (r.restrict p).supersede d = (r.supersede d).restrict p := by
  simp [supersede, restrict, hd, List.filter_filter, Bool.and_comm]

/-- A rival competes, so that it is among the declarations that are selected. -/
theorem restrict_add_of_pos (exempt : ∀ e, p e = false → e.isExempt = true) (hd : p d = true) :
    (r.add d).restrict p = (r.restrict p).add d := by
  have found : (r.restrict p).kept.find? d.rivals = r.kept.find? d.rivals := by
    rw [restrict, List.find?_filter]
    congr 1
    funext e
    cases he : p e with
    | true => simp
    | false => simp [Declaration.rivals_of_isExempt (exempt e he)]
  unfold add
  rw [found]
  cases r.kept.find? d.rivals with
  | none => simp [restrict, hd]
  | some holder =>
      have reported : (r.restrict p).report holder d = (r.report holder d).restrict p := rfl
      simp only [reported, supersede_restrict _ hd, apply_ite (restrict p)]

/-! ## Earlier reports -/

/-- The same declarations, with reports that were made earlier. -/
def afterReports (reports : List Conflict) (r : Resolution) : Resolution :=
  { r with conflicts := reports ++ r.conflicts }

variable {reports : List Conflict}

theorem report_afterReports (r : Resolution) (holder d : Declaration) :
    (r.afterReports reports).report holder d = (r.report holder d).afterReports reports := by
  simp only [report, afterReports, List.append_assoc]

theorem supersede_afterReports (r : Resolution) (d : Declaration) :
    (r.afterReports reports).supersede d = (r.supersede d).afterReports reports := rfl

theorem add_afterReports (r : Resolution) (d : Declaration) :
    (r.afterReports reports).add d = (r.add d).afterReports reports := by
  have found : (r.afterReports reports).kept.find? d.rivals = r.kept.find? d.rivals := rfl
  unfold add
  rw [found]
  cases r.kept.find? d.rivals with
  | none => rfl
  | some holder =>
      simp only [report_afterReports, supersede_afterReports, apply_ite (afterReports reports)]

theorem foldl_add_afterReports (r : Resolution) (ds : List Declaration) :
    ds.foldl add (r.afterReports reports) = (ds.foldl add r).afterReports reports := by
  induction ds generalizing r with
  | nil => rfl
  | cons d ds ih => rw [List.foldl_cons, List.foldl_cons, add_afterReports, ih]

end Resolution

/-- A list without rivals is settled. -/
theorem resolve_of_pairwise {ds : List Declaration}
    (h : ds.Pairwise fun d e => d.rivals e = false) : resolve ds = ⟨ds, []⟩ := by
  induction ds using List.reverseRecOn with
  | nil => rfl
  | append_singleton ds d ih =>
      obtain ⟨settled, -, last⟩ := List.pairwise_append.mp h
      rw [resolve_concat, ih settled, Resolution.add_of_not_rivals]
      intro e he
      rw [Declaration.rivals_comm]
      exact last e he d (List.mem_singleton_self d)

theorem pairwise_resolve (ds : List Declaration) :
    (resolve ds).kept.Pairwise fun d e => d.rivals e = false := by
  obtain ⟨ps, survivors, kept⟩ := exists_survivors ds
  rw [kept, List.pairwise_map]
  exact survivors.distinct

/-- What resolution has kept, it keeps, and it has nothing more to report. -/
theorem resolve_resolve (ds : List Declaration) :
    resolve (resolve ds).kept = ⟨(resolve ds).kept, []⟩ :=
  resolve_of_pairwise (pairwise_resolve ds)

/-- Normal forms survive for the declarations that survive, and the reports are the same. -/
theorem resolve_map_normalize (ds : List Declaration) :
    resolve (ds.map Declaration.normalize) = (resolve ds).normalize := by
  induction ds using List.reverseRecOn with
  | nil => rfl
  | append_singleton ds d ih =>
      rw [List.map_append, List.map_singleton, resolve_concat, ih, Resolution.add_normalize,
        resolve_concat]

/-- Declarations that do not compete can be left out before or after. -/
theorem resolve_filter {p : Declaration → Bool} (exempt : ∀ e, p e = false → e.isExempt = true)
    (ds : List Declaration) : resolve (ds.filter p) = (resolve ds).restrict p := by
  induction ds using List.reverseRecOn with
  | nil => rfl
  | append_singleton ds d ih =>
      rw [List.filter_append, resolve_concat]
      cases hd : p d with
      | true =>
          rw [List.filter_cons_of_pos hd, List.filter_nil, resolve_concat, ih,
            Resolution.restrict_add_of_pos exempt hd]
      | false =>
          rw [List.filter_cons_of_neg (by simp [hd]), List.filter_nil, List.append_nil, ih,
            Resolution.restrict_add_of_neg (exempt d hd) hd]

/-- A run goes on from what it has kept as if it began with it. -/
theorem resolve_append (xs ys : List Declaration) :
    resolve (xs ++ ys) =
      (resolve ((resolve xs).kept ++ ys)).afterReports (resolve xs).conflicts := by
  have state : (resolve (resolve xs).kept).afterReports (resolve xs).conflicts = resolve xs := by
    rw [resolve_resolve, Resolution.afterReports, List.append_nil]
  have run (zs : List Declaration) :
      resolve (zs ++ ys) = ys.foldl Resolution.add (resolve zs) := List.foldl_append
  rw [run, run, ← Resolution.foldl_add_afterReports, state]

/-- A list can be resolved in two batches: what is kept of the first one, followed by the second one, gives
the declarations that the whole list gives. The reports of the whole list are those of the first batch and
then those of the second run. If there is nothing in the second batch, its run changes nothing and has
nothing to report. -/
theorem resolve_in_two_batches (xs ys : List Declaration) :
    (resolve ((resolve xs).kept ++ ys)).kept = (resolve (xs ++ ys)).kept ∧
    (resolve (xs ++ ys)).conflicts =
      (resolve xs).conflicts ++ (resolve ((resolve xs).kept ++ ys)).conflicts ∧
    resolve ((resolve xs).kept ++ []) = ⟨(resolve xs).kept, []⟩ := by
  rw [resolve_append xs ys]
  refine ⟨rfl, rfl, ?_⟩
  rw [List.append_nil, resolve_resolve]

end ImportWeave
