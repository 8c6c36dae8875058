import ImportWeave.Importer
import ImportWeave.Proofs.Resolution.Holder
import ImportWeave.Proofs.Resolution.Invariance

/-! # Settled importers

What an importer has made of its configuration is a configuration of the same declarations: all are valid,
have an alias, and stand for different names. -/

namespace ImportWeave

/-- A check passes a list exactly if it passes each element. -/
theorem forM_eq_ok_iff {ε α : Type} {check : α → Except ε Unit} {xs : List α} :
    xs.forM check = .ok () ↔ ∀ x ∈ xs, check x = .ok () := by
  induction xs with
  | nil => simp [List.forM, pure, Except.pure]
  | cons x xs ih =>
      change (check x >>= fun _ => xs.forM check) = .ok () ↔ _
      rw [List.forall_mem_cons, ← ih]
      cases check x <;> simp [bind, Except.bind]

namespace Importer

variable {config : Config} {i : Importer} {conflicts : List Conflict} {ds : List Declaration}

/-- An importer has the normal forms of the declarations that resolution keeps. -/
theorem build_of_valid (flat : config.declarations = .ok ds) (valid : ∀ d ∈ ds, d.validate = .ok ()) :
    build config =
      .ok (⟨config, (resolve ds).kept.map Declaration.normalize⟩, (resolve ds).conflicts) := by
  unfold build
  rw [flat]
  change (ds.forM Declaration.validate >>= fun _ => _) = _
  rw [forM_eq_ok_iff.mpr valid, resolve_map_normalize]
  rfl

/-- A configuration is accepted exactly if it can be flattened and all its declarations are valid. -/
theorem build_eq_ok_iff :
    build config = .ok (i, conflicts) ↔ ∃ ds, config.declarations = .ok ds ∧
      (∀ d ∈ ds, d.validate = .ok ()) ∧
      i = ⟨config, (resolve ds).kept.map Declaration.normalize⟩ ∧ conflicts = (resolve ds).conflicts := by
  constructor
  · intro built
    cases flat : config.declarations with
    | error e =>
        rw [build, flat] at built
        cases built
    | ok ds =>
        have valid : ∀ d ∈ ds, d.validate = .ok () := by
          rw [build, flat] at built
          change (ds.forM Declaration.validate >>= fun _ => _) = _ at built
          cases checked : ds.forM Declaration.validate with
          | error e =>
              rw [checked] at built
              cases built
          | ok u => exact forM_eq_ok_iff.mp checked
        rw [build_of_valid flat valid] at built
        cases built
        exact ⟨ds, rfl, valid, rfl, rfl⟩
  · rintro ⟨ds, flat, valid, rfl, rfl⟩
    exact build_of_valid flat valid

theorem eq_of_build (built : build config = .ok (i, conflicts))
    (flat : config.declarations = .ok ds) :
    (∀ d ∈ ds, d.validate = .ok ()) ∧
      i = ⟨config, (resolve ds).kept.map Declaration.normalize⟩ ∧ conflicts = (resolve ds).conflicts := by
  obtain ⟨ds', flat', accepted⟩ := build_eq_ok_iff.mp built
  obtain rfl : ds = ds' := Except.ok.inj (flat.symm.trans flat')
  exact accepted

/-- The declarations of an importer have an alias and are valid. An importer of the same configuration
with these declarations in the place of its own has the same, and there is nothing to report. -/
theorem build_settled (built : build config = .ok (i, conflicts)) :
    (∀ d ∈ i.declarations, d.localAlias.isSome = true ∧ d.validate = .ok ()) ∧
      build { config with imports := i.declarations, presets := [] } =
        .ok (⟨{ config with imports := i.declarations, presets := [] }, i.declarations⟩, []) := by
  obtain ⟨ds, -, valid, rfl, -⟩ := build_eq_ok_iff.mp built
  have normal : ∀ d ∈ (resolve ds).kept.map Declaration.normalize,
      d.localAlias.isSome = true ∧ d.validate = .ok () := by
    intro d hd
    obtain ⟨e, he, rfl⟩ := List.mem_map.mp hd
    refine ⟨rfl, ?_⟩
    rw [Declaration.validate_normalize]
    exact valid e (mem_of_mem_resolve he)
  refine ⟨normal, ?_⟩
  rw [build_of_valid rfl fun d hd => (normal d hd).2, resolve_map_normalize, resolve_resolve]
  simp [Resolution.normalize]

/-- A name that two modules ask for, an enumeration and a disabled declaration of the same name, and
types without an alias. -/
theorem build_settled_after_tie :
    let config : Config :=
      { imports := [{ name := "ref", specifier := "vue" },
          { name := "ref", specifier := "vue", disabled := true },
          { name := "ref", specifier := "enums", declaredAs := some .enumeration },
          { name := "*", specifier := "types", typeOnly := true }]
        presets := [⟨{ specifier := "my-vue" },
          [.parts ["useRef", "ref"], .nested { specifier := "effects" } [.name ""]]⟩] }
    ∃ i, build config = .ok (i, [⟨"ref", "vue", "my-vue"⟩]) ∧ i.declarations.length = 5 ∧
      build { config with imports := i.declarations, presets := [] } =
        .ok (⟨{ config with imports := i.declarations, presets := [] }, i.declarations⟩, []) := by
  intro config
  have built : build config = .ok (⟨config, _⟩, [⟨"ref", "vue", "my-vue"⟩]) := rfl
  exact ⟨_, built, rfl, (build_settled built).2⟩

end Importer

end ImportWeave
