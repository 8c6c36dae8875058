/-! # Lists of keyed values

A list of pairs read as a map that keeps its keys in the order in which they first came. -/

namespace ImportWeave.Keyed

variable {κ : Type} {β : Type}

def keys (entries : List (κ × β)) : List κ := entries.map Prod.fst

@[simp] theorem keys_nil : keys ([] : List (κ × β)) = [] := rfl

@[simp] theorem keys_cons (k : κ) (v : β) (entries : List (κ × β)) :
    keys ((k, v) :: entries) = k :: keys entries := rfl

variable [DecidableEq κ]

/-- Sets the value at `key` from the one already there, if any. A new key goes to the end. -/
def update (key : κ) (value : Option β → β) : List (κ × β) → List (κ × β)
  | [] => [(key, value none)]
  | (k, v) :: entries =>
    if k = key then (k, value (some v)) :: entries
    else (k, v) :: update key value entries

theorem keys_update (key : κ) (value : Option β → β) (entries : List (κ × β)) :
    keys (update key value entries) =
      if key ∈ keys entries then keys entries else keys entries ++ [key] := by
  induction entries with
  | nil => simp [update]
  | cons entry entries ih =>
      obtain ⟨k, v⟩ := entry
      by_cases h : k = key
      · simp [update, h]
      · have h' : ¬ key = k := fun e => h e.symm
        by_cases m : key ∈ keys entries <;> simp [update, h, h', ih, m]

theorem nodup_keys_update (key : κ) (value : Option β → β) (entries : List (κ × β))
    (h : (keys entries).Nodup) : (keys (update key value entries)).Nodup := by
  rw [keys_update]
  split
  · exact h
  · next hk =>
      refine List.nodup_append.mpr ⟨h, by simp, ?_⟩
      intro a ha b hb e
      exact hk ((List.mem_singleton.mp hb) ▸ e ▸ ha)

end ImportWeave.Keyed
