import Mathlib.Data.Finset.Union
import TypedScript.Proofs.Store.Intact

namespace TypedScript

namespace Value

def id? (v : Value) : Option Nat := v.closure?.map Closure.id

def receiver? (v : Value) : Option Value := v.asFunction?.bind Prod.snd

def ids (v : Value) : Finset Nat := (v.closures.map Closure.id).toFinset

theorem mem_ids {v : Value} {i : Nat} : i ∈ v.ids ↔ ∃ a ∈ v.functions, a.id? = some i := by
  simp only [ids, List.mem_toFinset, List.mem_map, mem_closures, id?, Option.map_eq_some_iff]
  constructor
  · rintro ⟨f, ⟨a, ha, hf⟩, rfl⟩
    exact ⟨a, ha, f, hf, rfl⟩
  · rintro ⟨a, ha, f, hf, rfl⟩
    exact ⟨f, ⟨a, ha, hf⟩, rfl⟩

theorem ids_subset {v a : Value} (ha : a ∈ v.functions) : a.ids ⊆ v.ids := by
  intro i hi
  obtain ⟨b, hb, hi⟩ := mem_ids.1 hi
  exact mem_ids.2 ⟨b, functions_trans ha hb, hi⟩

theorem ids_bound (f : Closure) (r : Value) : (bound f r).ids = insert f.id r.ids := by
  simp [ids, closures]

theorem sizeOf_le_of_mem_functions {v a : Value} (ha : a ∈ v.functions) :
    sizeOf a ≤ sizeOf v := by
  induction v with
  | function f => rw [List.mem_singleton.1 ha]
  | bound f r ih =>
    obtain rfl | ha := List.mem_cons.1 ha
    · exact Nat.le_refl _
    · have := ih ha
      simp only [bound.sizeOf_spec]
      omega
  | _ => cases ha

theorem bound_notMem_functions (f : Closure) (r : Value) : bound f r ∉ r.functions := by
  intro h
  have := sizeOf_le_of_mem_functions h
  simp only [bound.sizeOf_spec] at this
  omega

end Value

def Registers (book : Nat → Value) (v : Value) : Prop :=
  ∀ a ∈ v.functions, ∀ {i}, a.id? = some i → book i = a

namespace Census

theorem countOf_sight (c : Census) (f : Closure) (v : Value) (i : Nat) :
    (c.sight f v).countOf i = c.countOf i + if f.id = i then 1 else 0 := by
  rw [countOf, sight, Dict.get?_insert]
  by_cases h : f.id = i
  · subst h
    simp
  · simp [h, countOf]

/-- A census has found the functions with the ids in `S`, and has them as they stand in the
register. -/
structure Found (c : Census) (book : Nat → Value) (S : Finset Nat) : Prop where
  nodup : c.keys.Nodup
  contains : ∀ i, c.contains i ↔ i ∈ S
  entry : ∀ {i s}, c.get? i = some s → s.value = book i ∧ s.value.closure? = some s.closure

theorem Found.sight {c : Census} {book : Nat → Value} {S : Finset Nat} (h : c.Found book S)
    {f : Closure} {v : Value} (hv : v.closure? = some f) (hb : book f.id = v) :
    (c.sight f v).Found book (insert f.id S) where
  nodup := Dict.keys_insert_nodup h.nodup _ _
  contains i := by
    rw [Census.sight, Dict.contains, Dict.get?_insert]
    by_cases hi : f.id = i
    · simp [hi]
    · rw [if_neg hi, ← Dict.contains, h.contains, Finset.mem_insert]
      exact ⟨.inr, fun ho => ho.resolve_left (Ne.symm hi)⟩
  entry {i s} hs := by
    rw [Census.sight, Dict.get?_insert] at hs
    split at hs
    · rename_i hi
      cases hs
      exact ⟨hi ▸ hb.symm, hv⟩
    · exact h.entry hs

theorem found_note {book : Nat → Value} (v : Value) (hv : Registers book v) {c : Census}
    {S : Finset Nat} (h : c.Found book S)
    (closed : ∀ a ∈ v.functions, ∀ {i}, a.id? = some i → i ∈ S → a.ids ⊆ S) :
    (c.note v).Found book (S ∪ v.ids) ∧ ∀ i, (c.note v).countOf i =
      c.countOf i + (if v.id? = some i then 1 else 0) +
        ((v.ids \ S).filter fun k => ((book k).receiver?.bind Value.id?) = some i).card := by
  induction v generalizing c S with
  | function f =>
    have hf : book f.id = .function f := hv (.function f) (by simp [Value.functions]) rfl
    have hids : (Value.function f).ids = {f.id} := by simp [Value.ids, Value.closures]
    rw [hids, Finset.union_comm, ← Finset.insert_eq]
    refine ⟨h.sight rfl hf, fun i => ?_⟩
    have hempty : (({f.id} : Finset Nat) \ S).filter
        (fun k => ((book k).receiver?.bind Value.id?) = some i) = ∅ := by
      apply Finset.filter_eq_empty_iff.2
      intro k hk
      rw [Finset.mem_singleton.1 (Finset.mem_sdiff.1 hk).1, hf]
      simp [Value.receiver?, Value.asFunction?]
    rw [hempty, note, countOf_sight]
    simp [Value.id?, Value.closure?, Value.asFunction?]
  | bound f r ih =>
    have hself : Value.bound f r ∈ (Value.bound f r).functions := by simp [Value.functions]
    have hf : book f.id = .bound f r := hv _ hself rfl
    have hcount : ∀ i, (c.sight f (.bound f r)).countOf i =
        c.countOf i + if (Value.bound f r).id? = some i then 1 else 0 := by
      intro i
      rw [countOf_sight]
      simp [Value.id?, Value.closure?, Value.asFunction?]
    by_cases hin : f.id ∈ S
    · have hsub : (Value.bound f r).ids ⊆ S := closed _ hself rfl hin
      rw [note, if_pos ((h.contains f.id).2 hin), Finset.union_eq_left.2 hsub,
        Finset.sdiff_eq_empty_iff_subset.2 hsub]
      refine ⟨?_, fun i => by simp [hcount]⟩
      have hs := h.sight (f := f) rfl hf
      rwa [Finset.insert_eq_of_mem hin] at hs
    · have hr : Registers book r := fun a ha => hv a (by simp [Value.functions, ha])
      rw [note, if_neg fun hc => hin ((h.contains f.id).1 hc)]
      obtain ⟨hfound, hcounts⟩ := ih hr (h.sight (f := f) rfl hf) (by
        intro a ha i hi hiS
        obtain rfl | hiS := Finset.mem_insert.1 hiS
        · -- a receiver cannot be the function that is bound to it
          have hab : a = .bound f r := (hr a ha hi).symm.trans hf
          exact absurd (hab ▸ ha) (Value.bound_notMem_functions f r)
        · exact (closed a (by simp [Value.functions, ha]) hi hiS).trans
            (Finset.subset_insert _ _))
      refine ⟨?_, fun i => ?_⟩
      · rwa [Finset.insert_union, ← Finset.union_insert, ← Value.ids_bound] at hfound
      · have hids : (Value.bound f r).ids \ S = insert f.id (r.ids \ insert f.id S) := by
          rw [Value.ids_bound]
          ext k
          simp only [Finset.mem_sdiff, Finset.mem_insert]
          by_cases hk : k = f.id
          · subst hk
            simp [hin]
          · simp [hk]
        have hrec : ((book f.id).receiver?.bind Value.id?) = r.id? := by
          rw [hf]
          rfl
        rw [hcounts, hcount, hids, Finset.filter_insert, hrec]
        by_cases hi : r.id? = some i
        · rw [if_pos hi, if_pos hi, Finset.card_insert_of_notMem (by simp)]
          omega
        · rw [if_neg hi, if_neg hi, Nat.add_zero]
  | _ => simpa [note, Value.ids, Value.closures, Value.id?, Value.closure?,
      Value.asFunction?] using h

theorem Found.empty (book : Nat → Value) : Found .empty book ∅ where
  nodup := List.nodup_nil
  contains i := by simp [Dict.contains]
  entry h := by cases h

def idsOf (vs : List Value) : Finset Nat := (vs.flatMap Value.closures).map Closure.id |>.toFinset

theorem idsOf_cons (v : Value) (vs : List Value) : idsOf (v :: vs) = v.ids ∪ idsOf vs := by
  simp [idsOf, Value.ids]

theorem mem_idsOf {vs : List Value} {i : Nat} : i ∈ idsOf vs ↔ ∃ v ∈ vs, i ∈ v.ids := by
  induction vs with
  | nil => simp [idsOf]
  | cons v rest ih => simp [idsOf_cons, ih]

theorem found_foldl {book : Nat → Value} (vs : List Value) (hb : ∀ v ∈ vs, Registers book v)
    {c : Census} {S : Finset Nat} (h : c.Found book S) (closed : ∀ i ∈ S, (book i).ids ⊆ S) :
    (vs.foldl note c).Found book (S ∪ idsOf vs) ∧ ∀ i, (vs.foldl note c).countOf i =
      c.countOf i + vs.countP (·.id? = some i) +
        ((idsOf vs \ S).filter fun k => ((book k).receiver?.bind Value.id?) = some i).card := by
  induction vs generalizing c S with
  | nil => simpa [idsOf] using h
  | cons v rest ih =>
    have hv := hb v List.mem_cons_self
    obtain ⟨hnote, hcount⟩ := found_note v hv h fun a ha i hi hiS => hv a ha hi ▸ closed i hiS
    have closed' : ∀ i ∈ S ∪ v.ids, (book i).ids ⊆ S ∪ v.ids := by
      intro i hi
      obtain hi | hi := Finset.mem_union.1 hi
      · exact (closed i hi).trans Finset.subset_union_left
      · obtain ⟨a, ha, hai⟩ := Value.mem_ids.1 hi
        rw [hv a ha hai]
        exact (Value.ids_subset ha).trans Finset.subset_union_right
    obtain ⟨hrest, hcounts⟩ := ih (fun w hw => hb w (List.mem_cons_of_mem _ hw)) hnote closed'
    rw [List.foldl_cons, idsOf_cons, ← Finset.union_assoc]
    refine ⟨hrest, fun i => ?_⟩
    have hsplit : (v.ids ∪ idsOf rest) \ S = (v.ids \ S) ∪ (idsOf rest \ (S ∪ v.ids)) := by
      ext k
      simp only [Finset.mem_sdiff, Finset.mem_union]
      tauto
    have hdisj : Disjoint ((v.ids \ S).filter fun k => ((book k).receiver?.bind Value.id?) = some i)
        ((idsOf rest \ (S ∪ v.ids)).filter fun k => ((book k).receiver?.bind Value.id?) =
          some i) := by
      apply Finset.disjoint_filter_filter
      apply Finset.disjoint_left.2
      intro k hk hk'
      exact (Finset.mem_sdiff.1 hk').2 (Finset.mem_union_right _ (Finset.mem_sdiff.1 hk).1)
    rw [hcounts, hcount, hsplit, Finset.filter_union, Finset.card_union_of_disjoint hdisj,
      List.countP_cons]
    simp only [decide_eq_true_eq]
    omega

theorem found_ofValues {book : Nat → Value} {vs : List Value} (hb : ∀ v ∈ vs, Registers book v) :
    (ofValues vs).Found book (idsOf vs) := by
  have h := (found_foldl vs hb (Found.empty book) fun _ hi => absurd hi (Finset.notMem_empty _)).1
  rwa [Finset.empty_union] at h

theorem countOf_ofValues {book : Nat → Value} {vs : List Value}
    (hb : ∀ v ∈ vs, Registers book v) (i : Nat) :
    (ofValues vs).countOf i = vs.countP (·.id? = some i) +
      ((idsOf vs).filter fun k => ((book k).receiver?.bind Value.id?) = some i).card := by
  have h := (found_foldl vs hb (Found.empty book) fun _ hi => absurd hi (Finset.notMem_empty _)).2 i
  rw [Finset.sdiff_empty] at h
  simpa [ofValues, countOf] using h

theorem Found.length_filter {c : Census} {book : Nat → Value} {S : Finset Nat}
    (h : c.Found book S) {p : Sighting → Bool} {q : Nat → Prop} [DecidablePred q]
    (hpq : ∀ {i s}, c.get? i = some s → (p s = true ↔ q i)) :
    (c.values.filter p).length = (S.filter q).card := by
  have hset : S.filter q = ((c.entries.filter fun e => p e.2).map Prod.fst).toFinset := by
    ext i
    simp only [Finset.mem_filter, List.mem_toFinset, List.mem_map, List.mem_filter]
    constructor
    · rintro ⟨hi, hq⟩
      obtain ⟨e, he, rfl⟩ := List.mem_map.1 (Dict.contains_iff_mem_keys.1 ((h.contains i).2 hi))
      have hes := Dict.get?_eq_some_of_mem h.nodup he
      exact ⟨e, ⟨he, (hpq hes).2 hq⟩, rfl⟩
    · rintro ⟨e, ⟨he, hp⟩, rfl⟩
      have hes := Dict.get?_eq_some_of_mem h.nodup he
      exact ⟨(h.contains e.1).1 (by simp [Dict.contains, hes]), (hpq hes).1 hp⟩
  have hnd : ((c.entries.filter fun e => p e.2).map Prod.fst).Nodup :=
    h.nodup.sublist (List.filter_sublist.map _)
  rw [hset, List.toFinset_card_of_nodup hnd, List.length_map, Dict.values, List.filter_map,
    List.length_map]
  rfl

end Census

end TypedScript
