import TypedScript.Dict

namespace TypedScript.Dict

variable {κ ν μ : Type} [DecidableEq κ]

theorem mem_put {l : List (κ × ν)} {key : κ} {value : ν} {e : κ × ν} (h : e ∈ put l key value) :
    e = (key, value) ∨ e ∈ l := by
  induction l with
  | nil => exact .inl (List.mem_singleton.1 h)
  | cons d rest ih =>
    rw [put] at h
    split at h
    · rename_i hk
      obtain rfl | h := List.mem_cons.1 h
      · exact .inl (by rw [hk])
      · exact .inr (List.mem_cons_of_mem _ h)
    · obtain rfl | h := List.mem_cons.1 h
      · exact .inr List.mem_cons_self
      · exact (ih h).imp id (List.mem_cons_of_mem _)

theorem mem_values_insert {d : Dict κ ν} {key : κ} {value v : ν}
    (h : v ∈ (d.insert key value).values) : v = value ∨ v ∈ d.values := by
  obtain ⟨e, he, rfl⟩ := List.mem_map.1 h
  obtain rfl | he := mem_put he
  · exact .inl rfl
  · exact .inr (List.mem_map_of_mem he)

theorem mem_entries_of_get? {d : Dict κ ν} {key : κ} {v : ν} (h : d.get? key = some v) :
    (key, v) ∈ d.entries := by
  obtain ⟨l⟩ := d
  induction l with
  | nil => cases h
  | cons e rest ih =>
    simp only [get?, find] at h
    split at h
    · rename_i hk
      cases h
      cases hk
      exact List.mem_cons_self
    · exact List.mem_cons_of_mem _ (ih h)

theorem mem_values_of_get? {d : Dict κ ν} {key : κ} {v : ν} (h : d.get? key = some v) :
    v ∈ d.values := List.mem_map_of_mem (mem_entries_of_get? h)

theorem find_eq_none {l : List (κ × ν)} {key : κ} :
    find l key = none ↔ key ∉ l.map Prod.fst := by
  induction l with
  | nil => simp [find]
  | cons e rest ih =>
    by_cases h : e.1 = key
    · simp [find, h]
    · rw [find, if_neg h, ih, List.map_cons, List.mem_cons, not_or]
      exact ⟨fun hr => ⟨Ne.symm h, hr⟩, fun hr => hr.2⟩

theorem find_append (l m : List (κ × ν)) (key : κ) :
    find (l ++ m) key = (find l key).or (find m key) := by
  induction l with
  | nil => rfl
  | cons e l ih =>
    rw [List.cons_append, find, find, ih]
    split <;> rfl

theorem contains_iff_mem_keys {d : Dict κ ν} {key : κ} : d.contains key ↔ key ∈ d.keys := by
  rw [contains, Option.isSome_iff_ne_none, ne_eq, get?, find_eq_none, Decidable.not_not, keys]

theorem keys_put (l : List (κ × ν)) (key : κ) (value : ν) :
    (put l key value).map Prod.fst =
      if key ∈ l.map Prod.fst then l.map Prod.fst else l.map Prod.fst ++ [key] := by
  induction l with
  | nil => simp [put]
  | cons e rest ih =>
    by_cases h : e.1 = key
    · simp [put, h]
    · rw [put, if_neg h, List.map_cons, ih, List.map_cons]
      by_cases hr : key ∈ rest.map Prod.fst
      · rw [if_pos hr, if_pos (List.mem_cons_of_mem _ hr)]
      · rw [if_neg hr, if_neg (by simpa [Ne.symm h] using hr), List.cons_append]

theorem keys_insert_nodup {d : Dict κ ν} (h : d.keys.Nodup) (key : κ) (value : ν) :
    (d.insert key value).keys.Nodup := by
  rw [keys, insert, keys_put]
  split
  · exact h
  · rename_i hk
    rw [List.nodup_append]
    refine ⟨h, by simp, ?_⟩
    intro a ha b hb
    rw [List.mem_singleton.1 hb]
    exact fun he => hk (he ▸ ha)

theorem get?_eq_some_of_mem {d : Dict κ ν} (h : d.keys.Nodup) {key : κ} {v : ν}
    (hm : (key, v) ∈ d.entries) : d.get? key = some v := by
  obtain ⟨l⟩ := d
  induction l with
  | nil => cases hm
  | cons e rest ih =>
    rw [keys, List.map_cons, List.nodup_cons] at h
    rw [get?, find]
    obtain rfl | hm := List.mem_cons.1 hm
    · simp
    · have hne : e.1 ≠ key := fun he => h.1 (he ▸ List.mem_map_of_mem hm)
      rw [if_neg hne]
      exact ih h.2 hm

def mapValues (f : ν → μ) (d : Dict κ ν) : Dict κ μ := ⟨d.entries.map fun e => (e.1, f e.2)⟩

@[simp] theorem get?_mapValues (f : ν → μ) (d : Dict κ ν) (key : κ) :
    (d.mapValues f).get? key = (d.get? key).map f := by
  obtain ⟨l⟩ := d
  induction l with
  | nil => rfl
  | cons e rest ih =>
    simp only [mapValues, get?, List.map_cons, find]
    split
    · rfl
    · exact ih

@[simp] theorem contains_mapValues (f : ν → μ) (d : Dict κ ν) (key : κ) :
    (d.mapValues f).contains key = d.contains key := by
  simp [contains]

theorem put_map (f : ν → μ) (l : List (κ × ν)) (key : κ) (value : ν) :
    put (l.map fun e => (e.1, f e.2)) key (f value) =
      (put l key value).map fun e => (e.1, f e.2) := by
  induction l with
  | nil => rfl
  | cons e rest ih =>
    simp only [List.map_cons, put]
    split
    · rfl
    · rw [ih, List.map_cons]

@[simp] theorem mapValues_insert (f : ν → μ) (d : Dict κ ν) (key : κ) (value : ν) :
    (d.insert key value).mapValues f = (d.mapValues f).insert key (f value) := by
  rw [insert, insert, mapValues, mapValues, put_map]

omit [DecidableEq κ] in
theorem eq_mapValues {f g : ν → μ} {h : ν → ν} {d d' : Dict κ ν}
    (hd : d'.mapValues f = d.mapValues g)
    (hv : ∀ v ∈ d.values, ∀ w ∈ d'.values, f w = g v → w = h v) : d' = d.mapValues h := by
  obtain ⟨l⟩ := d
  obtain ⟨l'⟩ := d'
  rw [mapValues, mapValues, Dict.mk.injEq] at hd
  rw [mapValues, Dict.mk.injEq]
  induction l generalizing l' with
  | nil => simpa using hd
  | cons e rest ih =>
    cases l' with
    | nil => cases hd
    | cons e' rest' =>
      simp only [List.map_cons, List.cons.injEq, Prod.mk.injEq] at hd ⊢
      refine ⟨Prod.ext hd.1.1 (hv e.2 List.mem_cons_self e'.2 List.mem_cons_self hd.1.2), ?_⟩
      exact ih rest' hd.2 fun v hmem w hmem' => hv v (List.mem_cons_of_mem _ hmem) w
        (List.mem_cons_of_mem _ hmem')

end TypedScript.Dict
