import ImportWeave.Json.Record
import ImportWeave.Proofs.Grouping
import Mathlib.Data.List.Nodup

/-! # Written records

A record is written as an object with a member for each field that has something to write. Since its fields
have different names, each of them is found again under its name. -/

namespace ImportWeave.Json

/-- The members of the fields that have a value. -/
def written (fields : List (String × Option Json)) : List (String × Json) :=
  fields.flatMap fun field => member id field.1 field.2

theorem member_some {α : Type} (write : α → Json) (name : String) (value : α) :
    member write name (some value) = [(name, write value)] := rfl

theorem member_map {α : Type} (write : α → Json) (name : String) (value : Option α) :
    member id name (value.map write) = member write name value := by
  cases value <;> rfl

/-- The value of a flag that is only written when it is set. -/
def flagValue (value : Bool) : Option Json := if value then some (.bool true) else none

theorem member_flagValue (name : String) (value : Bool) :
    member id name (flagValue value) = flag name value := by
  cases value <;> rfl

variable {fields : List (String × Option Json)}

theorem mem_written_iff {name : String} {value : Json} :
    (name, value) ∈ written fields ↔ (name, some value) ∈ fields := by
  rw [written, List.mem_flatMap]
  constructor
  · rintro ⟨⟨name', _ | value'⟩, hf, hm⟩
    · cases hm
    · obtain ⟨rfl, rfl⟩ := Prod.mk.inj (List.mem_singleton.mp hm)
      exact hf
  · intro hf
    exact ⟨_, hf, List.mem_singleton.mpr rfl⟩

theorem keys_written_sublist (fields : List (String × Option Json)) :
    (Keyed.keys (written fields)).Sublist (Keyed.keys fields) := by
  induction fields with
  | nil => exact .slnil
  | cons field fields ih =>
      obtain ⟨name, _ | value⟩ := field
      · exact ih.cons name
      · exact ih.cons_cons name

theorem lookup_written (nodup : (Keyed.keys fields).Nodup) {name : String} {value : Option Json}
    (h : (name, value) ∈ fields) : (written fields).lookup name = value := by
  have nodup' := nodup.sublist (keys_written_sublist fields)
  ext found
  rw [← Keyed.mem_iff_lookup nodup', mem_written_iff, Keyed.mem_iff_lookup nodup,
    (Keyed.mem_iff_lookup nodup).mp h, Option.some.injEq]

theorem lookup_written_of_notMem {name : String} (h : name ∉ Keyed.keys fields) :
    (written fields).lookup name = none := by
  rw [List.lookup_eq_none_iff]
  rintro ⟨name', value⟩ hm
  have : name' ∈ Keyed.keys fields := List.mem_map_of_mem (mem_written_iff.mp hm)
  rw [bne_iff_ne]
  rintro rfl
  exact h this

/-- Written fields are a record, whatever names are asked for. -/
theorem record?_written (names : List String) (nodup : (Keyed.keys fields).Nodup) :
    record? names (.obj (written fields)) = some (written fields) := by
  have nodup' := nodup.sublist (keys_written_sublist fields)
  have once (name : String) : (written fields).countP (·.1 == name) ≤ 1 := by
    have := List.nodup_iff_count_le_one.mp nodup' name
    rwa [Keyed.keys, List.count, List.countP_map] at this
  exact if_pos (List.all_eq_true.mpr fun name _ => decide_eq_true (once name))

/-! ## Fields that are read -/

section Read

variable {α : Type} {read : Json → Option α} {write : α → Json} (name : String)
  (nodup : (Keyed.keys fields).Nodup)

include nodup

theorem field?_written (json : Json) (h : (name, some json) ∈ fields) :
    field? read name (written fields) = read json := by
  rw [field?, lookup_written nodup h, Option.bind_some]

theorem fieldOr?_written (missing : α) (json : Json) (h : (name, some json) ∈ fields) :
    fieldOr? missing read name (written fields) = read json := by
  rw [fieldOr?, lookup_written nodup h]

theorem fieldOr?_flag_written (value : Bool) (h : (name, flagValue value) ∈ fields) :
    fieldOr? false bool? name (written fields) = some value := by
  rw [fieldOr?, lookup_written nodup h]
  cases value <;> rfl

theorem optionalField?_written (value : Option α)
    (read_write : ∀ value, nullable? read (write value) = some (some value))
    (h : (name, value.map write) ∈ fields) :
    optionalField? read name (written fields) = some value := by
  rw [optionalField?, fieldOr?, lookup_written nodup h]
  cases value with
  | none => rfl
  | some value => exact read_write value

end Read

/-! ## Lists that are read -/

theorem mapM_map {α β : Type} {read : β → Option α} {write : α → β} {values : List α}
    (h : ∀ value ∈ values, read (write value) = some value) : (values.map write).mapM read = some values := by
  induction values with
  | nil => rfl
  | cons value values ih =>
      rw [List.forall_mem_cons] at h
      rw [List.map_cons, List.mapM_cons, h.1, ih h.2]
      rfl

theorem listOf?_map {α : Type} {read : Json → Option α} {write : α → Json} {values : List α}
    (h : ∀ value ∈ values, read (write value) = some value) :
    listOf? read (.arr (values.map write)) = some values :=
  mapM_map h

/-! ## Numbers -/

theorem int32?_toInt (value : Int32) : int32? (.num (.integer value.toInt)) = some value := by
  have low := value.minValue_le_toInt
  have high := value.toInt_le
  rw [int32?, if_pos ⟨low, high⟩, Int32.ofInt_toInt]

/-! ## Representable values -/

theorem areRepresentable_iff {items : List Json} :
    areRepresentable items = true ↔ ∀ item ∈ items, item.isRepresentable = true := by
  induction items with
  | nil => simp [areRepresentable]
  | cons item items ih => simp [areRepresentable, ih]

theorem haveRepresentable_iff {members : List (String × Json)} :
    haveRepresentable members = true ↔ ∀ m ∈ members, m.2.isRepresentable = true := by
  induction members with
  | nil => simp [haveRepresentable]
  | cons m members ih => simp [haveRepresentable, ih]

theorem isRepresentable_written (h : ∀ field ∈ fields, ∀ value ∈ field.2, value.isRepresentable = true) :
    (Json.obj (written fields)).isRepresentable = true :=
  haveRepresentable_iff.mpr fun _ hm => h _ (mem_written_iff.mp hm) _ rfl

theorem isRepresentable_flagValue (flag : Bool) (value : Json) (h : flagValue flag = some value) :
    value.isRepresentable = true := by
  cases flag with
  | false => cases h
  | true =>
      cases h
      rfl

end ImportWeave.Json
