import ImportWeave.Preset.Basic

/-! # Inherited settings

The declarations of a preset come from its leaves, which are at any depth. What a leaf does not set is set
by the nearest preset around it that does. Flattening never looks outwards for it: it hands the settings of
a preset down to those inside. -/

namespace ImportWeave

/-- A leaf of a preset, and the presets around it. -/
structure PresetLeaf where
  /-- The preset that lists the leaf. -/
  enclosing : Shared
  /-- The presets around that one, from the inside out. -/
  outer : List Shared
  /-- What the leaf sets itself. An empty list of parts has not even a name. -/
  own : Option PresetEntry

def PresetEntry.ofParts? : List String → Option PresetEntry
  | [] => none
  | name :: rest => some { name, localAlias := rest[0]?, specifier := rest[1]? }

namespace PresetItem

mutual

/-- The leaves of an item, depth first. -/
def leaves (enclosing : Shared) (outer : List Shared) : PresetItem → List PresetLeaf
  | .name x => [⟨enclosing, outer, some { name := x }⟩]
  | .parts xs => [⟨enclosing, outer, PresetEntry.ofParts? xs⟩]
  | .nested inner items => allLeaves inner (enclosing :: outer) items
  | .entry e => [⟨enclosing, outer, some e⟩]

def allLeaves (enclosing : Shared) (outer : List Shared) : List PresetItem → List PresetLeaf
  | [] => []
  | item :: items => leaves enclosing outer item ++ allLeaves enclosing outer items

end

/-- The item is one of the items, or stands somewhere inside one of them. -/
inductive Occurs (item : PresetItem) : List PresetItem → Prop where
  | listed {items : List PresetItem} : item ∈ items → Occurs item items
  | inside {shared : Shared} {inner items : List PresetItem} :
      .nested shared inner ∈ items → Occurs item inner → Occurs item items

end PresetItem

def Preset.leaves (p : Preset) : List PresetLeaf := PresetItem.allLeaves p.shared [] p.items

namespace PresetLeaf

/-- The presets around the leaf, from the inside out. -/
def presets (l : PresetLeaf) : List Shared := l.enclosing :: l.outer

/-- What the nearest preset sets that sets it at all. -/
def nearest {α : Type} (l : PresetLeaf) (setting : Shared → Option α) : Option α :=
  l.presets.findSome? setting

/-- The declaration that the leaf stands for. -/
def declaration? (l : PresetLeaf) : Option Declaration := l.own.map fun e =>
  { name := e.name
    localAlias := e.localAlias
    specifier := e.specifier.getD l.enclosing.specifier
    typeSpecifier := e.typeSpecifier.or (l.nearest (·.typeSpecifier))
    typeOnly := e.typeOnly || l.presets.any (·.typeOnly)
    declaredAs := e.declaredAs
    disabled := e.disabled
    priority := e.priority.or (l.nearest (·.priority))
    attributes := e.attributes.or (l.nearest (·.attributes)) }

/-- Appends the declaration of the leaf. -/
def flatten (l : PresetLeaf) : Flattening Unit :=
  l.declaration?.elim (throw (.emptyPresetEntry l.enclosing.specifier)) .append

end PresetLeaf

/-! ## Settings that are handed down -/

namespace Shared

/-- The settings of a preset inside others, by lookup from the inside out. -/
def within (s : Shared) (outer : List Shared) : Shared where
  specifier := s.specifier
  typeOnly := (s :: outer).any (·.typeOnly)
  typeSpecifier := (s :: outer).findSome? (·.typeSpecifier)
  priority := (s :: outer).findSome? (·.priority)
  attributes := (s :: outer).findSome? (·.attributes)

theorem findSome?_cons_eq_or {α : Type} (setting : Shared → Option α) (s : Shared)
    (outer : List Shared) :
    (s :: outer).findSome? setting = (setting s).or (outer.findSome? setting) := by
  rw [List.findSome?_cons]
  cases setting s <;> rfl

theorem within_nil (s : Shared) : s.within [] = s := by
  simp only [within, findSome?_cons_eq_or, List.findSome?_nil, Option.or_none, List.any_cons,
    List.any_nil, Bool.or_false]

/-- Handing down once more is looking one preset further. -/
theorem inherit_within (s inner : Shared) (outer : List Shared) :
    (s.within outer).inherit inner = inner.within (s :: outer) := by
  simp only [within, inherit, findSome?_cons_eq_or, List.any_cons]

end Shared

theorem PresetLeaf.declaration?_eq (l : PresetLeaf) :
    l.declaration? = l.own.map (l.enclosing.within l.outer).ofEntry := by
  refine congrArg (l.own.map ·) (funext fun e => ?_)
  rw [Bool.or_comm]
  rfl

namespace PresetItem

-- The settings that were handed down to an item are those found by lookup: this holds at the top, where
-- there is nothing to look up, and `inherit_within` carries it into each preset inside.
mutual

/-- Flattening an item is visiting its leaves. -/
theorem flatten_eq_forM (enclosing : Shared) (outer : List Shared) : ∀ item : PresetItem,
    flatten (enclosing.within outer) item =
      (leaves enclosing outer item).forM PresetLeaf.flatten
  | .name x => rfl
  | .parts [] => rfl
  | .parts (x :: rest) => rfl
  | .nested inner items => by
      rw [flatten, Shared.inherit_within]
      exact flattenAll_eq_forM inner (enclosing :: outer) items
  | .entry e => by
      rw [leaves, List.forM_eq_forM, List.forM_cons, PresetLeaf.flatten, PresetLeaf.declaration?_eq]
      rfl

theorem flattenAll_eq_forM (enclosing : Shared) (outer : List Shared) : ∀ items : List PresetItem,
    flattenAll (enclosing.within outer) items =
      (allLeaves enclosing outer items).forM PresetLeaf.flatten
  | [] => rfl
  | item :: items => by
      rw [flattenAll, flatten_eq_forM enclosing outer item, flattenAll_eq_forM enclosing outer items]
      exact List.forM_append.symm

end

end PresetItem

theorem Preset.flatten_eq_forM (p : Preset) : p.flatten = p.leaves.forM PresetLeaf.flatten := by
  have handed := PresetItem.flattenAll_eq_forM p.shared [] p.items
  rwa [Shared.within_nil] at handed

/-! ## Leaves without a name -/

namespace PresetItem

theorem occurs_cons_iff {item first : PresetItem} {items : List PresetItem} :
    Occurs item (first :: items) ↔
      (item = first ∨ ∃ shared inner, first = .nested shared inner ∧ Occurs item inner) ∨
        Occurs item items := by
  constructor
  · rintro (member | ⟨member, deeper⟩)
    · exact (List.mem_cons.mp member).imp .inl .listed
    · rcases List.mem_cons.mp member with rfl | member
      · exact .inl (.inr ⟨_, _, rfl, deeper⟩)
      · exact .inr (.inside member deeper)
  · rintro ((rfl | ⟨shared, inner, rfl, deeper⟩) | member | ⟨member, deeper⟩)
    · exact .listed List.mem_cons_self
    · exact .inside List.mem_cons_self deeper
    · exact .listed (List.mem_cons_of_mem _ member)
    · exact .inside (List.mem_cons_of_mem _ member) deeper

mutual

theorem exists_mem_leaves_iff (enclosing : Shared) (outer : List Shared) : ∀ item : PresetItem,
    (∃ l ∈ leaves enclosing outer item, l.own = none) ↔
      .parts [] = item ∨ ∃ shared inner, item = .nested shared inner ∧ Occurs (.parts []) inner
  | .name x => by simp [leaves]
  | .parts [] => by simp [leaves, PresetEntry.ofParts?]
  | .parts (x :: rest) => by simp [leaves, PresetEntry.ofParts?]
  | .nested inner items => by
      rw [leaves, exists_mem_allLeaves_iff inner (enclosing :: outer) items]
      constructor
      · exact fun deeper => .inr ⟨inner, items, rfl, deeper⟩
      · rintro (⟨⟨⟩⟩ | ⟨_, _, ⟨⟩, deeper⟩)
        exact deeper
  | .entry e => by simp [leaves]

/-- A leaf without a name is an empty list of parts. -/
theorem exists_mem_allLeaves_iff (enclosing : Shared) (outer : List Shared) :
    ∀ items : List PresetItem,
      (∃ l ∈ allLeaves enclosing outer items, l.own = none) ↔ Occurs (.parts []) items
  | [] => by
      constructor
      · rintro ⟨l, ⟨⟩, -⟩
      · rintro (⟨⟨⟩⟩ | ⟨⟨⟩, -⟩)
  | item :: items => by
      rw [occurs_cons_iff, ← exists_mem_leaves_iff enclosing outer item,
        ← exists_mem_allLeaves_iff enclosing outer items, allLeaves]
      simp only [List.mem_append, or_and_right, exists_or]

end

end PresetItem

/-! ## Visiting the leaves -/

namespace PresetLeaf

variable {l : PresetLeaf} {ls : List PresetLeaf}

theorem forM_flatten_cons_of_some {d : Declaration} (h : l.declaration? = some d)
    (out : List Declaration) :
    ((l :: ls).forM flatten).run out = (ls.forM flatten).run (out ++ [d]) := by
  have visit : l.flatten = .append d := by rw [flatten, h, Option.elim_some]
  have step : (l :: ls).forM flatten = l.flatten >>= fun _ => ls.forM flatten := rfl
  rw [step, visit]
  rfl

theorem forM_flatten_cons_of_none (h : l.own = none) (out : List Declaration) :
    ((l :: ls).forM flatten).run out =
      .error (.emptyPresetEntry l.enclosing.specifier) out := by
  have visit : l.flatten = throw (.emptyPresetEntry l.enclosing.specifier) := by
    rw [flatten, declaration?, h, Option.map_none, Option.elim_none]
  have step : (l :: ls).forM flatten = l.flatten >>= fun _ => ls.forM flatten := rfl
  rw [step, visit]
  rfl

/-- Leaves with names append their declarations, whatever comes after them. -/
theorem forM_flatten_append {ds : List Declaration} (h : ls.map declaration? = ds.map some)
    (rest : List PresetLeaf) (out : List Declaration) :
    ((ls ++ rest).forM flatten).run out = (rest.forM flatten).run (out ++ ds) := by
  induction ls generalizing ds out with
  | nil =>
      obtain rfl : ds = [] := by simpa using h.symm
      rw [List.append_nil, List.nil_append]
  | cons l ls ih =>
      cases ds with
      | nil => cases h
      | cons d ds =>
          obtain ⟨first, others⟩ := List.cons.inj h
          rw [List.cons_append, forM_flatten_cons_of_some first, ih others, List.append_assoc,
            List.singleton_append]

/-- Leaves have declarations exactly if they have names. -/
theorem exists_declarations_iff :
    (∃ ds : List Declaration, ls.map declaration? = ds.map some) ↔ ∀ l ∈ ls, l.own ≠ none := by
  constructor
  · rintro ⟨ds, hds⟩ l hl nameless
    have missing : l.declaration? ∈ ds.map some := hds ▸ List.mem_map_of_mem hl
    rw [declaration?, nameless] at missing
    simp at missing
  · intro named
    induction ls with
    | nil => exact ⟨[], rfl⟩
    | cons l ls ih =>
        obtain ⟨first, others⟩ := List.forall_mem_cons.mp named
        obtain ⟨ds, hds⟩ := ih others
        obtain ⟨e, he⟩ := Option.ne_none_iff_exists'.mp first
        exact ⟨_ :: ds, by rw [List.map_cons, List.map_cons, hds, declaration?, he]; rfl⟩

end PresetLeaf

namespace Preset

/-- Either all leaves have names and their declarations are appended, or the first leaf without one is
refused, and those of the leaves in front of it are. -/
theorem flatten_cases (p : Preset) :
    (∃ ds, p.leaves.map PresetLeaf.declaration? = ds.map some ∧
      ∀ out, p.flatten.run out = .ok () (out ++ ds)) ∨
    ∃ l ds, p.leaves.find? (·.own.isNone) = some l ∧
      ∀ out, p.flatten.run out = .error (.emptyPresetEntry l.enclosing.specifier) (out ++ ds) := by
  rw [flatten_eq_forM]
  cases first : p.leaves.find? (·.own.isNone) with
  | none =>
      obtain ⟨ds, hds⟩ := PresetLeaf.exists_declarations_iff.mpr (by simpa using first)
      refine .inl ⟨ds, hds, fun out => ?_⟩
      have visit := PresetLeaf.forM_flatten_append hds [] out
      rwa [List.append_nil] at visit
  | some l =>
      obtain ⟨nameless, before, after, split, named⟩ := List.find?_eq_some_iff_append.mp first
      have named : ∀ l ∈ before, l.own ≠ none := fun l hl =>
        Option.isSome_iff_ne_none.mp (by simpa using named l hl)
      obtain ⟨ds, hds⟩ := PresetLeaf.exists_declarations_iff.mpr named
      refine .inr ⟨l, ds, rfl, fun out => ?_⟩
      rw [split, PresetLeaf.forM_flatten_append hds,
        PresetLeaf.forM_flatten_cons_of_none (Option.isNone_iff_eq_none.mp nameless)]

/-- A preset is refused exactly if an empty list of parts occurs in it, and the error names the module of
the preset that lists the first one. Otherwise each leaf gives a declaration. Declarations that were there
before stay in front, whatever comes of the preset. -/
theorem declarations_from_leaves (p : Preset) :
    ((∃ e, p.declarations = .error e) ↔ PresetItem.Occurs (.parts []) p.items) ∧
    (∀ e, p.declarations = .error e ↔ ∃ l, p.leaves.find? (·.own.isNone) = some l ∧
      e = .emptyPresetEntry l.enclosing.specifier) ∧
    (∀ ds, p.declarations = .ok ds ↔ p.leaves.map PresetLeaf.declaration? = ds.map some) ∧
    ∀ out, ∃ ds, (p.declarations = .ok ds ∧ p.flatten.run out = .ok () (out ++ ds)) ∨
      ∃ e, p.declarations = .error e ∧ p.flatten.run out = .error e (out ++ ds) := by
  have occurs := PresetItem.exists_mem_allLeaves_iff p.shared [] p.items
  rw [← occurs]
  rcases p.flatten_cases with ⟨ds, hds, run⟩ | ⟨l, ds, first, run⟩
  · have flat : p.declarations = .ok ds := by rw [declarations, Flattening.declarations, run]; rfl
    have named := PresetLeaf.exists_declarations_iff.mp ⟨ds, hds⟩
    have complete : p.leaves.find? (·.own.isNone) = none := by simpa using named
    refine ⟨?_, ?_, ?_, fun out => ⟨ds, .inl ⟨flat, run out⟩⟩⟩
    · refine iff_of_false (by simp [flat]) ?_
      rintro ⟨l, member, nameless⟩
      exact named l member nameless
    · simp [flat, complete]
    · intro ds'
      rw [flat, hds, List.map_inj_right fun _ _ => Option.some.inj, Except.ok.injEq]
  · have flat : p.declarations = .error (.emptyPresetEntry l.enclosing.specifier) := by
      rw [declarations, Flattening.declarations, run]
    have member : l ∈ p.leaves := List.mem_of_find?_eq_some first
    have nameless : l.own = none := by simpa using List.find?_some first
    refine ⟨iff_of_true ⟨_, flat⟩ ⟨l, member, nameless⟩, ?_, ?_,
      fun out => ⟨ds, .inr ⟨_, flat, run out⟩⟩⟩
    · intro e
      simp [flat, first, eq_comm]
    · intro ds'
      refine iff_of_false (by simp [flat]) fun same => ?_
      exact PresetLeaf.exists_declarations_iff.mp ⟨ds', same⟩ l member nameless

example :
    let shared : Shared := { specifier := "vue", priority := some 2 }
    let types : Shared := { specifier := "vue/types", typeOnly := true }
    declarations ⟨shared, [.nested types [.nested { specifier := "vue/core" } [.parts ["Ref", "R"]]]]⟩ =
      .ok [{ name := "Ref", localAlias := some "R", specifier := "vue/core", typeOnly := true,
             priority := some 2 }] := rfl

end Preset

end ImportWeave
