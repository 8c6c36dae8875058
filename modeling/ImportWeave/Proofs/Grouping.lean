import ImportWeave.Keyed
import Mathlib.Data.List.Induction

/-! # Grouping by keys

Values are collected by their keys one after the other. The result is the same as picking, for each key
that comes up, the values that have it. -/

namespace ImportWeave.Keyed

variable {κ ι α β γ : Type} [DecidableEq κ] [DecidableEq ι]

theorem lookup_cons (k k' : κ) (v : β) (entries : List (κ × β)) :
    ((k', v) :: entries).lookup k = if k = k' then some v else entries.lookup k := by
  rw [List.lookup_cons]
  by_cases h : k = k'
  · rw [beq_iff_eq.mpr h, if_pos h]
  · rw [beq_eq_false_iff_ne.mpr h, if_neg h]

/-- A new key goes to the end. -/
theorem update_of_notMem {key : κ} {value : Option β → β}
    {entries : List (κ × β)} (h : key ∉ keys entries) :
    update key value entries = entries ++ [(key, value none)] := by
  induction entries with
  | nil => rfl
  | cons entry entries ih =>
      obtain ⟨k, v⟩ := entry
      rw [keys_cons, List.mem_cons, not_or] at h
      rw [update, if_neg (Ne.symm h.1), ih h.2, List.cons_append]

theorem lookup_update (k key : κ) (value : Option β → β) (entries : List (κ × β)) :
    (update key value entries).lookup k =
      if k = key then some (value (entries.lookup key)) else entries.lookup k := by
  induction entries with
  | nil => simp only [update, lookup_cons, List.lookup_nil]
  | cons entry entries ih =>
      obtain ⟨k', v⟩ := entry
      by_cases hk : k' = key
      · subst hk
        by_cases h : k = k' <;> simp [update, lookup_cons, h]
      · have hk' : ¬ key = k' := fun e => hk e.symm
        by_cases h : k = k'
        · subst h
          simp [update, hk]
        · simp [update, lookup_cons, hk, hk', h, ih]

theorem mem_iff_lookup {entries : List (κ × β)} (h : (keys entries).Nodup) {k : κ} {v : β} :
    (k, v) ∈ entries ↔ entries.lookup k = some v := by
  induction entries with
  | nil => simp
  | cons entry entries ih =>
      obtain ⟨k', v'⟩ := entry
      rw [keys_cons, List.nodup_cons] at h
      by_cases hk : k = k'
      · subst hk
        have fresh : (k, v) ∉ entries := fun hm => h.1 (List.mem_map_of_mem hm)
        simp [fresh, eq_comm]
      · simp [lookup_cons, hk, ih h.2]

/-- Collects values by their keys, keys in the order in which they first came. Values without a key are
left out. -/
def collect (key? : α → Option κ) (xs : List α) : List (κ × List α) :=
  xs.foldl (fun groups x => match key? x with
    | none => groups
    | some key => update key (fun group => group.getD [] ++ [x]) groups) []

theorem collect_concat (key? : α → Option κ) (xs : List α) (x : α) :
    collect key? (xs ++ [x]) = match key? x with
      | none => collect key? xs
      | some key => update key (fun group => group.getD [] ++ [x]) (collect key? xs) := by
  simp [collect]

theorem nodup_keys_collect (key? : α → Option κ) (xs : List α) :
    (keys (collect key? xs)).Nodup := by
  induction xs using List.reverseRecOn with
  | nil => exact List.nodup_nil
  | append_singleton xs x ih =>
      rw [collect_concat]
      split
      · exact ih
      · exact nodup_keys_update _ _ _ ih

/-- The group of a key is made of the values with this key, and there is none if there are no such
values. -/
theorem lookup_collect (key? : α → Option κ) (xs : List α) (k : κ) :
    (collect key? xs).lookup k =
      if xs.filter (key? · = some k) = [] then none else some (xs.filter (key? · = some k)) := by
  induction xs using List.reverseRecOn with
  | nil => rfl
  | append_singleton xs x ih =>
      rw [collect_concat, List.filter_append]
      cases hx : key? x with
      | none => simpa [hx] using ih
      | some key =>
          rw [lookup_update]
          by_cases hk : k = key
          · subst hk
            rw [ih]
            by_cases he : xs.filter (key? · = some k) = [] <;> simp [he, hx]
          · have : ¬ key = k := fun e => hk e.symm
            simpa [hk, hx, this] using ih

theorem mem_collect_iff (key? : α → Option κ) (xs : List α) {k : κ} {group : List α} :
    (k, group) ∈ collect key? xs ↔ group = xs.filter (key? · = some k) ∧ group ≠ [] := by
  rw [mem_iff_lookup (nodup_keys_collect key? xs), lookup_collect]
  split
  · next he => simp [he]
  · next he =>
      constructor
      · rintro ⟨⟩
        exact ⟨rfl, he⟩
      · rintro ⟨rfl, -⟩
        rfl

/-- The groups together hold the values that have a key. -/
theorem exists_mem_collect_iff {key? : α → Option κ} {xs : List α} {x : α} :
    (∃ group ∈ collect key? xs, x ∈ group.2) ↔ x ∈ xs ∧ (key? x).isSome = true := by
  constructor
  · rintro ⟨⟨k, group⟩, hg, hx⟩
    obtain ⟨rfl, -⟩ := (mem_collect_iff key? xs).mp hg
    obtain ⟨hx, key⟩ := List.mem_filter.mp hx
    exact ⟨hx, by rw [of_decide_eq_true key]; rfl⟩
  · rintro ⟨hx, key⟩
    obtain ⟨k, hk⟩ := Option.isSome_iff_exists.mp key
    have member : x ∈ xs.filter (key? · = some k) := List.mem_filter.mpr ⟨hx, decide_eq_true hk⟩
    exact ⟨(k, _), (mem_collect_iff key? xs).mpr ⟨rfl, List.ne_nil_of_mem member⟩, member⟩

/-- If each value has a key, the groups together hold all values. -/
theorem exists_mem_collect_some_iff (key : α → κ) {xs : List α} {x : α} :
    (∃ group ∈ collect (fun x => some (key x)) xs, x ∈ group.2) ↔ x ∈ xs := by
  rw [exists_mem_collect_iff]
  simp

/-! ## Groups in their order -/

theorem eraseDups_concat (ks : List κ) (k : κ) :
    (ks ++ [k]).eraseDups = if k ∈ ks then ks.eraseDups else ks.eraseDups ++ [k] := by
  rw [List.eraseDups_append, List.cons_removeAll]
  by_cases member : k ∈ ks <;> simp [List.eraseDups_cons, member]

/-- Without repetitions, what comes up first comes first. -/
theorem pairwise_idxOf_eraseDups (ks : List κ) :
    ks.eraseDups.Pairwise fun k l => ks.idxOf k < ks.idxOf l := by
  induction ks using List.reverseRecOn with
  | nil => exact .nil
  | append_singleton ks last ih =>
      have earlier {k : κ} (hk : k ∈ ks.eraseDups) : (ks ++ [last]).idxOf k = ks.idxOf k := by
        rw [List.idxOf_append, if_pos (List.mem_eraseDups.mp hk)]
      have before : ks.eraseDups.Pairwise fun k l =>
          (ks ++ [last]).idxOf k < (ks ++ [last]).idxOf l :=
        ih.imp_of_mem fun hk hl lt => by rwa [earlier hk, earlier hl]
      rw [eraseDups_concat]
      split
      · exact before
      · next fresh =>
          refine List.pairwise_append.mpr ⟨before, List.pairwise_singleton _ _, ?_⟩
          intro k hk l hl
          have position : ks.idxOf k < ks.length :=
            List.idxOf_lt_length_iff.mpr (List.mem_eraseDups.mp hk)
          rw [List.mem_singleton.mp hl, earlier hk, List.idxOf_append, if_neg fresh]
          omega

theorem nodup_eraseDups (ks : List κ) : ks.eraseDups.Nodup := by
  refine (pairwise_idxOf_eraseDups ks).imp ?_
  rintro k _ lt rfl
  exact Nat.lt_irrefl _ lt

/-- The keys come in the order in which they first came up. -/
theorem keys_collect (key? : α → Option κ) (xs : List α) :
    keys (collect key? xs) = (xs.filterMap key?).eraseDups := by
  induction xs using List.reverseRecOn with
  | nil => rfl
  | append_singleton xs x ih =>
      rw [collect_concat, List.filterMap_append]
      cases hx : key? x with
      | none => simpa [hx] using ih
      | some key =>
          rw [List.filterMap_cons_some hx, List.filterMap_nil, eraseDups_concat, keys_update, ih]
          simp only [List.mem_eraseDups]

/-- The groups are given by their keys: each has the values with its key. -/
theorem collect_eq_map (key? : α → Option κ) (xs : List α) :
    collect key? xs = (xs.filterMap key?).eraseDups.map fun k => (k, xs.filter (key? · = some k)) := by
  rw [← keys_collect, keys, List.map_map]
  refine ((List.map_congr_left ?_).trans (List.map_id _)).symm
  rintro ⟨k, group⟩ member
  obtain ⟨rfl, -⟩ := (mem_collect_iff key? xs).mp member
  rfl

theorem collect_some_eq_map (key : α → κ) (xs : List α) :
    collect (fun x => some (key x)) xs =
      (xs.map key).eraseDups.map fun k => (k, xs.filter (key · = k)) := by
  have keys : List.filterMap (fun x => some (key x)) = List.map key := List.filterMap_eq_map'
  rw [collect_eq_map, keys]
  simp only [Option.some.injEq]

theorem perm_flatMap_update (key : κ) (x : α) (groups : List (κ × List α)) :
    ((update key (fun group => group.getD [] ++ [x]) groups).flatMap Prod.snd).Perm
      (groups.flatMap Prod.snd ++ [x]) := by
  induction groups with
  | nil => exact .refl _
  | cons entry groups ih =>
      obtain ⟨k, group⟩ := entry
      rw [update]
      split
      · simp only [List.flatMap_cons, Option.getD_some, List.append_assoc]
        exact List.perm_append_comm.append_left group
      · simp only [List.flatMap_cons, List.append_assoc]
        exact ih.append_left group

/-- No value with a key is lost, and none is taken twice. -/
theorem perm_flatMap_collect (key? : α → Option κ) (xs : List α) :
    ((collect key? xs).flatMap Prod.snd).Perm (xs.filter fun x => (key? x).isSome) := by
  induction xs using List.reverseRecOn with
  | nil => exact .refl _
  | append_singleton xs x ih =>
      rw [collect_concat, List.filter_append]
      cases hx : key? x with
      | none => simpa [hx] using ih
      | some key => simpa [hx] using (perm_flatMap_update key x _).trans (ih.append_right [x])

theorem perm_flatMap_filter (key : α → κ) (xs : List α) :
    ((xs.map key).eraseDups.flatMap fun k => xs.filter (key · = k)).Perm xs := by
  have all := perm_flatMap_collect (fun x => some (key x)) xs
  have whole : (xs.filter fun x => (some (key x)).isSome) = xs := List.filter_eq_self.mpr fun _ _ => rfl
  rwa [collect_some_eq_map, List.flatMap_map, whole] at all

/-! ## Changed and missing values -/

/-- Values can be changed before or after one of them is set. -/
theorem map_update (f : β → γ) {value : Option β → β} {value' : Option γ → γ}
    (h : ∀ v, f (value v) = value' (v.map f)) (key : κ) (entries : List (κ × β)) :
    (update key value entries).map (fun e => (e.1, f e.2)) =
      update key value' (entries.map fun e => (e.1, f e.2)) := by
  induction entries with
  | nil => simp [update, h]
  | cons entry entries ih =>
      obtain ⟨k, v⟩ := entry
      by_cases hk : k = key
      · simp [update, hk, h]
      · simp [update, hk, ih]

/-- Values can be changed before or after they are collected, if they keep their keys. -/
theorem collect_map (f : α → β) (key? : β → Option κ) (xs : List α) :
    collect key? (xs.map f) =
      (collect (fun x => key? (f x)) xs).map fun group => (group.1, group.2.map f) := by
  induction xs using List.reverseRecOn with
  | nil => rfl
  | append_singleton xs x ih =>
      rw [List.map_append, List.map_singleton, collect_concat, collect_concat, ih]
      cases key? (f x) with
      | none => rfl
      | some key =>
          refine (map_update (List.map f) ?_ key _).symm
          rintro (_ | group) <;> simp

/-- Keys can be changed before or after their values are set, if the one that is set stays different from
the others. -/
theorem map_key_update (f : κ → ι) (key : κ) (value : Option β → β) {entries : List (κ × β)}
    (h : ∀ k ∈ keys entries, f k = f key → k = key) :
    (update key value entries).map (fun e => (f e.1, e.2)) =
      update (f key) value (entries.map fun e => (f e.1, e.2)) := by
  induction entries with
  | nil => rfl
  | cons entry entries ih =>
      obtain ⟨k, v⟩ := entry
      rw [keys_cons, List.forall_mem_cons] at h
      by_cases hk : k = key
      · simp [update, hk]
      · have hf : ¬ f k = f key := fun e => hk (h.1 e)
        simp [update, hk, hf, ih h.2]

/-- Keys can be changed before or after values are collected, if different ones stay different. -/
theorem collect_map_key (f : κ → ι) (key? : α → Option κ) (xs : List α)
    (h : ∀ x ∈ xs, ∀ y ∈ xs, ∀ k ∈ key? x, ∀ l ∈ key? y, f k = f l → k = l) :
    collect (fun x => (key? x).map f) xs =
      (collect key? xs).map fun group => (f group.1, group.2) := by
  induction xs using List.reverseRecOn with
  | nil => rfl
  | append_singleton xs x ih =>
      have earlier : ∀ y ∈ xs, y ∈ xs ++ [x] := fun y hy => List.mem_append_left _ hy
      have last : x ∈ xs ++ [x] := List.mem_append_right _ (List.mem_singleton_self x)
      rw [collect_concat, collect_concat, ih fun y hy z hz => h y (earlier y hy) z (earlier z hz)]
      cases hx : key? x with
      | none => rfl
      | some key =>
          refine (map_key_update f key _ fun k hk same => ?_).symm
          rw [keys_collect, List.mem_eraseDups, List.mem_filterMap] at hk
          obtain ⟨y, hy, hky⟩ := hk
          exact h y (earlier y hy) x last k hky key hx same

/-- Values without a key make no difference. -/
theorem collect_filter {key? : α → Option κ} {p : α → Bool}
    (h : ∀ x, p x = false → key? x = none) (xs : List α) :
    collect key? (xs.filter p) = collect key? xs := by
  induction xs using List.reverseRecOn with
  | nil => rfl
  | append_singleton xs x ih =>
      rw [List.filter_append, collect_concat]
      cases hx : p x with
      | true => rw [List.filter_cons_of_pos hx, List.filter_nil, collect_concat, ih]
      | false =>
          rw [List.filter_cons_of_neg (by simp [hx]), List.filter_nil, List.append_nil, ih, h x hx]

end ImportWeave.Keyed
