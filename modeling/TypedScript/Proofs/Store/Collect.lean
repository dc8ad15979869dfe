import TypedScript.Proofs.Store.Prune
import TypedScript.Proofs.Store.Reach

/-! A collection keeps what can be reached and nothing else. The marking starts from what has
more references than the idle scopes account for; these are the functions and scopes that
something outside the idle scopes refers to. -/

namespace TypedScript.Store

open Census (idsOf mem_idsOf)

def outerValues (σ : Store) (roots : Roots) : List Value :=
  (σ.allocated.filter (·.2.active)).flatMap (·.2.bindings.values) ++
    σ.members.values.map Member.value ++ roots.values

theorem countP_flatMap_filter {α β : Type} (f : α → List β) (p : α → Bool) (q : β → Bool)
    (l : List α) :
    (l.flatMap f).countP q =
      ((l.filter (!p ·)).flatMap f).countP q + ((l.filter p).flatMap f).countP q := by
  induction l with
  | nil => rfl
  | cons a rest ih =>
    rw [List.flatMap_cons, List.countP_append, ih]
    cases h : p a <;> simp [h] <;> omega

theorem countP_referenced (σ : Store) (roots : Roots) (q : Value → Bool) :
    (σ.referenced roots).countP q = σ.idleValues.countP q + (σ.outerValues roots).countP q := by
  simp only [referenced, idleValues, outerValues, List.countP_append,
    countP_flatMap_filter _ (fun e : Nat × Scope => e.2.active) q σ.allocated]
  omega

theorem mem_referenced_iff {σ : Store} {roots : Roots} {v : Value} :
    v ∈ σ.referenced roots ↔ v ∈ σ.idleValues ∨ v ∈ σ.outerValues roots := by
  simp only [referenced, idleValues, outerValues, List.mem_append, List.mem_flatMap,
    List.mem_filter]
  constructor
  · rintro ((⟨e, he, hv⟩ | h) | h)
    · cases hact : e.2.active
      · exact .inl ⟨e, ⟨he, by simp [hact]⟩, hv⟩
      · exact .inr (.inl (.inl ⟨e, ⟨he, hact⟩, hv⟩))
    · exact .inr (.inl (.inr h))
    · exact .inr (.inr h)
  · rintro (⟨e, ⟨he, -⟩, hv⟩ | ((⟨e, ⟨he, -⟩, hv⟩ | h) | h))
    · exact .inl (.inl ⟨e, he, hv⟩)
    · exact .inl (.inl ⟨e, he, hv⟩)
    · exact .inl (.inr h)
    · exact .inr h

theorem reaches_of_mem_outerValues {σ : Store} {roots : Roots} {v : Value}
    (h : v ∈ σ.outerValues roots) : σ.Reaches roots (.value v) := by
  simp only [outerValues, List.mem_append, List.mem_flatMap, List.mem_filter, List.mem_map] at h
  obtain (⟨⟨i, s⟩, ⟨he, hact⟩, hv⟩ | ⟨m, hm, rfl⟩) | hv := h
  · have hs := mem_allocated.1 he
    exact .binding (.active hs hact) hs hv
  · exact .member hm
  · exact .held hv

theorem Intact.exists_register {σ : Store} {roots : Roots} (h : σ.Intact roots) :
    ∃ book : Nat → Value, ∀ v ∈ σ.referenced roots, Registers book v := by
  classical
  refine ⟨fun i => if ha : ∃ a, σ.Knows roots a ∧ a.id? = some i then ha.choose else .null, ?_⟩
  intro v hv a ha i hi
  have hex : ∃ a, σ.Knows roots a ∧ a.id? = some i := ⟨a, ⟨v, hv, ha⟩, hi⟩
  simp only [dif_pos hex]
  obtain ⟨hk, hki⟩ := hex.choose_spec
  obtain ⟨f, hf, hfi⟩ := Option.map_eq_some_iff.1 hki
  obtain ⟨g, hg, hgi⟩ := Option.map_eq_some_iff.1 hi
  exact h.id_inj hk ⟨v, hv, ha⟩ hf hg (hfi.trans hgi.symm)

section marking

variable {σ : Store} {roots : Roots} {book : Nat → Value}

theorem registers_idle (hb : ∀ v ∈ σ.referenced roots, Registers book v) :
    ∀ v ∈ σ.idleValues, Registers book v := fun v hv => hb v (mem_referenced_iff.2 (.inl hv))

theorem idsOf_idle_subset (σ : Store) (roots : Roots) :
    idsOf σ.idleValues ⊆ idsOf (σ.referenced roots) := by
  intro k hk
  obtain ⟨v, hv, hk⟩ := mem_idsOf.1 hk
  exact mem_idsOf.2 ⟨v, mem_referenced_iff.2 (.inl hv), hk⟩

theorem knows_book (hb : ∀ v ∈ σ.referenced roots, Registers book v) {k : Nat}
    (hk : k ∈ idsOf (σ.referenced roots)) :
    σ.Knows roots (book k) ∧ ∃ f, (book k).closure? = some f ∧ f.id = k := by
  obtain ⟨v, hv, hk⟩ := mem_idsOf.1 hk
  obtain ⟨a, ha, hak⟩ := Value.mem_ids.1 hk
  rw [hb v hv a ha hak]
  exact ⟨⟨v, hv, ha⟩, Option.map_eq_some_iff.1 hak⟩

theorem reaches_book (hb : ∀ v ∈ σ.referenced roots, Registers book v) {k : Nat}
    (hk : k ∈ idsOf (σ.referenced roots) \ idsOf σ.idleValues) :
    σ.Reaches roots (.value (book k)) := by
  obtain ⟨hk, hidle⟩ := Finset.mem_sdiff.1 hk
  obtain ⟨v, hv, hkv⟩ := mem_idsOf.1 hk
  obtain ⟨a, ha, hak⟩ := Value.mem_ids.1 hkv
  rw [hb v hv a ha hak]
  obtain hv | hv := mem_referenced_iff.1 hv
  · exact absurd (mem_idsOf.2 ⟨v, hv, hkv⟩) hidle
  · exact (reaches_of_mem_outerValues hv).functions ha

theorem Intact.slot_eq_iff (h : σ.Intact roots) {x : Handle} (hx : σ.Holds x) {i : Nat} {s : Scope}
    (hs : σ.scope? ⟨i⟩ = some s) : x.slot.index = i ↔ x.stamp = s.stamp := by
  obtain ⟨t, ht, hst⟩ := hx
  constructor
  · rintro rfl
    rw [hs] at ht
    cases ht
    exact hst.symm
  · intro he
    rw [h.stamp_inj ht hs (hst.trans he)]

theorem card_filter_lt_iff {S T : Finset Nat} (hsub : T ⊆ S) (q : Nat → Prop) [DecidablePred q]
    (n : Nat) : (T.filter q).card < (S.filter q).card + n ↔ (∃ k ∈ S \ T, q k) ∨ 0 < n := by
  have hsplit : (S.filter q).card = (T.filter q).card + ((S \ T).filter q).card := by
    rw [← Finset.card_union_of_disjoint, ← Finset.filter_union, Finset.union_sdiff_of_subset hsub]
    exact Finset.disjoint_filter_filter Finset.disjoint_sdiff
  have hpos : 0 < ((S \ T).filter q).card ↔ ∃ k ∈ S \ T, q k := by
    rw [Finset.card_pos]
    exact ⟨fun ⟨k, hk⟩ => ⟨k, Finset.mem_filter.1 hk⟩, fun ⟨k, hk⟩ => ⟨k, Finset.mem_filter.2 hk⟩⟩
  rw [← hpos]
  omega

/-- A scope has more holds than the idle functions account for if a handle or a function from
outside the idle scopes is among them. -/
theorem Intact.accounted_lt_holds (h : σ.Intact roots)
    (hb : ∀ v ∈ σ.referenced roots, Registers book v) {i : Nat} {s : Scope}
    (hs : σ.scope? ⟨i⟩ = some s) :
    ((Census.ofValues σ.idleValues).values.filter (·.closure.home.slot.index == i)).length <
        holds roots (Census.ofValues (σ.referenced roots)) s.stamp ↔
      (∃ k ∈ idsOf (σ.referenced roots) \ idsOf σ.idleValues,
        (book k).closure?.map (·.home.stamp) = some s.stamp) ∨
        ∃ x ∈ roots.handles, x.stamp = s.stamp := by
  have hidle := Census.found_ofValues (registers_idle hb)
  have hall := Census.found_ofValues hb
  have hhandles : 0 < (roots.handles.filter (·.stamp == s.stamp)).length ↔
      ∃ x ∈ roots.handles, x.stamp = s.stamp := by
    simp [List.length_pos_iff, List.filter_eq_nil_iff]
  rw [holds, hidle.length_filter (q := fun k => (book k).closure?.map (·.home.stamp) =
      some s.stamp),
    hall.length_filter (q := fun k => (book k).closure?.map (·.home.stamp) = some s.stamp),
    card_filter_lt_iff (idsOf_idle_subset σ roots), hhandles]
  · intro k t ht
    obtain ⟨hv, hc⟩ := hall.entry ht
    rw [← hv, hc]
    simp
  · intro k t ht
    obtain ⟨hv, hc⟩ := hidle.entry ht
    have hk : k ∈ idsOf (σ.referenced roots) :=
      idsOf_idle_subset σ roots ((hidle.contains k).1 (by simp [Dict.contains, ht]))
    have hhome := h.home_holds (knows_book hb hk).1 (hv ▸ hc)
    rw [← hv, hc, beq_iff_eq, h.slot_eq_iff hhome hs]
    simp

theorem counted_lt_countOf (hb : ∀ v ∈ σ.referenced roots, Registers book v) (k : Nat) :
    (Census.ofValues σ.idleValues).countOf k <
        (Census.ofValues (σ.referenced roots)).countOf k ↔
      (∃ j ∈ idsOf (σ.referenced roots) \ idsOf σ.idleValues,
        ((book j).receiver?.bind Value.id?) = some k) ∨
        ∃ v ∈ σ.outerValues roots, v.id? = some k := by
  have houter : 0 < (σ.outerValues roots).countP (·.id? = some k) ↔
      ∃ v ∈ σ.outerValues roots, v.id? = some k := by
    simp [List.countP_pos_iff]
  rw [Census.countOf_ofValues (registers_idle hb), Census.countOf_ofValues hb, countP_referenced,
    ← houter, ← card_filter_lt_iff (idsOf_idle_subset σ roots)]
  omega

theorem mem_anchors_of_scope {i : Nat} {s : Scope} (hs : σ.scope? ⟨i⟩ = some s)
    (hk : s.active ∨
      ((Census.ofValues σ.idleValues).values.filter (·.closure.home.slot.index == i)).length <
        holds roots (Census.ofValues (σ.referenced roots)) s.stamp) : i ∈ σ.anchors roots := by
  refine List.mem_append_left _ (List.mem_map.2 ⟨(i, s), List.mem_filter.2 ⟨?_, ?_⟩, rfl⟩)
  · exact mem_allocated.2 hs
  · simpa using hk

/-- Something outside the idle scopes refers to the value directly, or a function does that is
not from an idle scope. -/
def Exposed (σ : Store) (roots : Roots) (book : Nat → Value) (v : Value) : Prop :=
  (∃ j ∈ idsOf (σ.referenced roots) \ idsOf σ.idleValues, (book j).receiver? = some v) ∨
    v ∈ σ.outerValues roots

theorem Exposed.knows (hb : ∀ v ∈ σ.referenced roots, Registers book v) {v a : Value}
    (hv : σ.Exposed roots book v) (ha : a ∈ v.functions) : σ.Knows roots a := by
  obtain ⟨j, hj, hr⟩ | hv := hv
  · have hk := (knows_book hb (Finset.mem_sdiff.1 hj).1).1
    refine knows_of_knows hk ?_
    cases hbj : book j with
    | bound f r =>
      rw [hbj] at hr
      cases hr
      exact List.mem_cons_of_mem _ ha
    | _ =>
      rw [hbj] at hr
      cases hr
  · exact ⟨v, mem_referenced_iff.2 (.inr hv), ha⟩

theorem Exposed.reaches (hb : ∀ v ∈ σ.referenced roots, Registers book v) {v : Value}
    (hv : σ.Exposed roots book v) : σ.Reaches roots (.value v) := by
  obtain ⟨j, hj, hr⟩ | hv := hv
  · have hreach := reaches_book hb hj
    cases hbj : book j with
    | bound f r =>
      rw [hbj] at hr hreach
      cases hr
      exact hreach.receiver
    | _ =>
      rw [hbj] at hr
      cases hr
  · exact reaches_of_mem_outerValues hv

theorem registers_of_knows (hb : ∀ v ∈ σ.referenced roots, Registers book v) {a : Value} {k : Nat}
    (ha : σ.Knows roots a) (hk : a.id? = some k) : book k = a := by
  obtain ⟨v, hv, ha⟩ := ha
  exact hb v hv a ha hk

theorem exposed_iff_counted (hb : ∀ v ∈ σ.referenced roots, Registers book v) {k : Nat} :
    (Census.ofValues σ.idleValues).countOf k <
        (Census.ofValues (σ.referenced roots)).countOf k ↔
      ∃ v, σ.Exposed roots book v ∧ v.id? = some k := by
  rw [counted_lt_countOf hb]
  constructor
  · rintro (⟨j, hj, hr⟩ | ⟨v, hv, hk⟩)
    · obtain ⟨v, hv, hk⟩ := Option.bind_eq_some_iff.1 hr
      exact ⟨v, .inl ⟨j, hj, hv⟩, hk⟩
    · exact ⟨v, .inr hv, hk⟩
  · rintro ⟨v, ⟨j, hj, hr⟩ | hv, hk⟩
    · exact .inl ⟨j, hj, Option.bind_eq_some_iff.2 ⟨v, hr, hk⟩⟩
    · exact .inr ⟨v, hv, hk⟩

theorem mem_anchors_of_function (hb : ∀ v ∈ σ.referenced roots, Registers book v) {v : Value}
    {k i : Nat} (hv : σ.Exposed roots book v) (hself : v ∈ v.functions) (hk : v.id? = some k)
    (hidle : k ∈ idsOf σ.idleValues) (hi : i ∈ homes v) : i ∈ σ.anchors roots := by
  have hfound := Census.found_ofValues (registers_idle hb)
  obtain ⟨t, ht⟩ := Option.isSome_iff_exists.1 ((hfound.contains k).2 hidle)
  obtain ⟨hbook, hclosure⟩ := hfound.entry ht
  have hvk : book k = v := registers_of_knows hb (hv.knows hb hself) hk
  have hid : t.closure.id = k := by
    rw [hbook, hvk] at hclosure
    rw [Value.id?, hclosure] at hk
    exact Option.some.inj hk
  have hcount : t.count = (Census.ofValues σ.idleValues).countOf k := by rw [Census.countOf, ht]
  refine List.mem_append_right _ (List.mem_flatMap.2 ⟨t, List.mem_filter.2 ⟨?_, ?_⟩, ?_⟩)
  · exact Dict.mem_values_of_get? ht
  · rw [decide_eq_true_eq, hid, hcount]
    exact (exposed_iff_counted hb).2 ⟨v, hv, hk⟩
  · rw [hbook, hvk]
    exact hi

theorem Intact.mem_anchors_of_home (h : σ.Intact roots)
    (hb : ∀ v ∈ σ.referenced roots, Registers book v) {v : Value} {f : Closure}
    (hv : σ.Knows roots v) (hf : v.closure? = some f) (hidle : f.id ∉ idsOf σ.idleValues) :
    f.home.slot.index ∈ σ.anchors roots := by
  have hk : v.id? = some f.id := by rw [Value.id?, hf]; rfl
  obtain ⟨s, hs, hst⟩ := h.home_holds hv hf
  refine mem_anchors_of_scope hs (.inr ((h.accounted_lt_holds hb hs).2 (.inl ⟨f.id, ?_, ?_⟩)))
  · obtain ⟨w, hw, hvw⟩ := hv
    exact Finset.mem_sdiff.2 ⟨mem_idsOf.2 ⟨w, hw, Value.mem_ids.2 ⟨v, hvw, hk⟩⟩, hidle⟩
  · rw [registers_of_knows hb hv hk, hf, hst]
    rfl

theorem Intact.homes_subset_anchors (h : σ.Intact roots)
    (hb : ∀ v ∈ σ.referenced roots, Registers book v) {v : Value} (hv : σ.Exposed roots book v)
    {i : Nat} (hi : i ∈ homes v) : i ∈ σ.anchors roots := by
  induction v with
  | function f =>
    have hself : Value.function f ∈ (Value.function f).functions := List.mem_singleton_self _
    by_cases hidle : f.id ∈ idsOf σ.idleValues
    · exact mem_anchors_of_function hb hv hself rfl hidle hi
    · rw [List.mem_singleton.1 hi]
      exact h.mem_anchors_of_home hb (hv.knows hb hself) rfl hidle
  | bound f r ih =>
    have hself : Value.bound f r ∈ (Value.bound f r).functions := List.mem_cons_self
    by_cases hidle : f.id ∈ idsOf σ.idleValues
    · exact mem_anchors_of_function hb hv hself rfl hidle hi
    · have hk := hv.knows hb hself
      obtain rfl | hi := List.mem_cons.1 hi
      · exact h.mem_anchors_of_home hb hk rfl hidle
      · refine ih (.inl ⟨f.id, Finset.mem_sdiff.2 ⟨?_, hidle⟩, ?_⟩) hi
        · obtain ⟨w, hw, hkw⟩ := hk
          exact mem_idsOf.2 ⟨w, hw, Value.mem_ids.2 ⟨_, hkw, rfl⟩⟩
        · rw [registers_of_knows hb hk rfl]
          rfl
  | _ => cases hi

theorem Intact.reaches_of_mem_anchors (h : σ.Intact roots) {i : Nat} (hi : i ∈ σ.anchors roots) :
    σ.Reaches roots (.scope ⟨i⟩) := by
  obtain ⟨book, hb⟩ := h.exists_register
  obtain hi | hi := List.mem_append.1 hi
  · obtain ⟨⟨j, s⟩, hj, rfl⟩ := List.mem_map.1 hi
    obtain ⟨hmem, hkeep⟩ := List.mem_filter.1 hj
    have hs := mem_allocated.1 hmem
    rw [Bool.or_eq_true, decide_eq_true_eq, h.accounted_lt_holds hb hs] at hkeep
    obtain hact | ⟨k, hk, hst⟩ | ⟨x, hx, hst⟩ := hkeep
    · exact .active hs hact
    · obtain ⟨f, hf, hst⟩ := Option.map_eq_some_iff.1 hst
      have hhome := h.home_holds (knows_book hb (Finset.mem_sdiff.1 hk).1).1 hf
      have hslot : f.home.slot = ⟨j⟩ := Slot.eq_iff.2 ((h.slot_eq_iff hhome hs).2 hst)
      exact hslot ▸ (reaches_book hb hk).home hf
    · have hslot : x.slot = ⟨j⟩ := Slot.eq_iff.2 ((h.slot_eq_iff (h.handle_holds hx) hs).2 hst)
      exact hslot ▸ .handle hx
  · obtain ⟨t, ht, hi⟩ := List.mem_flatMap.1 hi
    obtain ⟨hmem, hcount⟩ := List.mem_filter.1 ht
    have hfound := Census.found_ofValues (registers_idle hb)
    obtain ⟨⟨k, t⟩, hent, rfl⟩ := List.mem_map.1 hmem
    have hget := Dict.get?_eq_some_of_mem hfound.nodup hent
    obtain ⟨hbook, hclosure⟩ := hfound.entry hget
    have hkmem : k ∈ idsOf (σ.referenced roots) :=
      idsOf_idle_subset σ roots ((hfound.contains k).1 (by simp [Dict.contains, hget]))
    obtain ⟨hknown, g, hg, rfl⟩ := knows_book hb hkmem
    have hid : t.closure.id = g.id := by
      rw [hbook, hg] at hclosure
      cases hclosure
      rfl
    have hlt : (Census.ofValues σ.idleValues).countOf g.id <
        (Census.ofValues (σ.referenced roots)).countOf g.id := by
      rw [Census.countOf, hget, ← hid]
      exact of_decide_eq_true hcount
    obtain ⟨v, hv, hvk⟩ := (exposed_iff_counted hb).1 hlt
    have hself : v ∈ v.functions := by
      cases v with
      | function f => exact List.mem_singleton_self _
      | bound f r => exact List.mem_cons_self
      | _ => cases hvk
    have hbv : book g.id = v := registers_of_knows hb (hv.knows hb hself) hvk
    rw [hbook, hbv] at hi
    obtain ⟨a, ha, f, hf, rfl⟩ := mem_homes.1 hi
    exact ((hv.reaches hb).functions ha).home hf

end marking

theorem Intact.marks {σ : Store} {roots : Roots} (h : σ.Intact roots) {node : Node}
    (hn : σ.Reaches roots node) : match node with
      | .scope id => id.index ∈ σ.reachable roots
      | .value v => σ.Carries roots v ∧ ∀ i ∈ homes v, i ∈ σ.reachable roots := by
  obtain ⟨book, hb⟩ := h.exists_register
  obtain ⟨hstart, hclosed, -⟩ := reachable_spec σ roots
  have hsize : ∀ {v i}, σ.Carries roots v → i ∈ homes v → i < σ.slots.size := by
    intro v i hv hi
    obtain ⟨a, ha, f, hf, rfl⟩ := mem_homes.1 hi
    obtain ⟨s, hs, -⟩ := h.home_holds (hv a ha) hf
    exact index_lt_of_scope? hs
  have houter : ∀ {v}, v ∈ σ.outerValues roots → ∀ i ∈ homes v, i ∈ σ.reachable roots := by
    intro v hv i hi
    refine hstart i (h.homes_subset_anchors hb (.inr hv) hi) (hsize (carries_of_mem ?_) hi)
    exact mem_referenced_iff.2 (.inr hv)
  induction hn with
  | active hs hact => exact hstart _ (mem_anchors_of_scope hs (.inl hact)) (index_lt_of_scope? hs)
  | handle hx =>
    obtain ⟨s, hs, hst⟩ := h.handle_holds hx
    refine hstart _ (mem_anchors_of_scope hs (.inr ?_)) (index_lt_of_scope? hs)
    exact (h.accounted_lt_holds hb hs).2 (.inr ⟨_, hx, hst.symm⟩)
  | member hm =>
    refine ⟨carries_of_member hm, houter ?_⟩
    exact List.mem_append_left _ (List.mem_append_right _ (List.mem_map_of_mem hm))
  | held hv => exact ⟨carries_of_held hv, houter (List.mem_append_right _ hv)⟩
  | @parent id s p _ hs hp ih =>
    obtain ⟨t, ht, -⟩ := h.parent_older hs hp
    refine hclosed _ ih _ ⟨s, hs, ?_⟩ (index_lt_of_scope? ht)
    exact List.mem_append_left _ (by simp [hp])
  | @binding id s v _ hs hv ih =>
    have hcarries : σ.Carries roots v := carries_of_bound hs hv
    refine ⟨hcarries, fun i hi => hclosed _ ih _ ⟨s, hs, ?_⟩ (hsize hcarries hi)⟩
    exact List.mem_append_right _ (List.mem_flatMap.2 ⟨v, hv, hi⟩)
  | @home v f _ hf ih =>
    refine ih.2 _ (mem_homes.2 ⟨v, ?_, f, hf, rfl⟩)
    cases v with
    | function g => exact List.mem_singleton_self _
    | bound g r => exact List.mem_cons_self
    | _ => cases hf
  | receiver _ ih =>
    exact ⟨fun a ha => ih.1 a (List.mem_cons_of_mem _ ha),
      fun i hi => ih.2 i (List.mem_cons_of_mem _ hi)⟩

theorem Intact.mem_reachable {σ : Store} {roots : Roots} (h : σ.Intact roots) {id : Slot} :
    id.index ∈ σ.reachable roots ↔ σ.Reaches roots (.scope id) := by
  constructor
  · intro hid
    refine (reachable_spec σ roots).2.2 (fun i => σ.Reaches roots (.scope ⟨i⟩)) ?_
      (fun i => h.reaches_of_mem_anchors) _ hid
    rintro i j hi ⟨s, hs, hj⟩
    obtain hj | hj := List.mem_append.1 hj
    · obtain ⟨p, hp, rfl⟩ := List.mem_map.1 hj
      exact hi.parent hs (Option.mem_toList.1 hp)
    · obtain ⟨v, hv, hj⟩ := List.mem_flatMap.1 hj
      obtain ⟨a, ha, f, hf, rfl⟩ := mem_homes.1 hj
      exact ((hi.binding hs hv).functions ha).home hf
  · exact h.marks

def garbage (σ : Store) (roots : Roots) : List (Nat × Scope) :=
  σ.allocated.filter fun e => !(σ.reachable roots).contains e.1

theorem collect_eq (σ : Store) (roots : Roots) :
    σ.collect roots = { σ.sweep (σ.garbage roots) with
      collectAt := max (2 * (σ.sweep (σ.garbage roots)).live) threshold } := rfl

section collect

variable {σ : Store} {roots : Roots}

theorem scope?_of_mem_garbage : ∀ e ∈ σ.garbage roots, σ.scope? ⟨e.1⟩ = some e.2 :=
  fun _ he => mem_allocated.1 (List.mem_filter.1 he).1

theorem garbage_nodup : ((σ.garbage roots).map Prod.fst).Nodup :=
  σ.allocated_nodup.sublist (List.filter_sublist.map _)

theorem Intact.mem_garbage (h : σ.Intact roots) {id : Slot} {s : Scope}
    (hs : σ.scope? id = some s) :
    id.index ∈ (σ.garbage roots).map Prod.fst ↔ ¬σ.Reaches roots (.scope id) := by
  rw [← h.mem_reachable]
  constructor
  · intro hid
    obtain ⟨e, he, hei⟩ := List.mem_map.1 hid
    have hnot := (List.mem_filter.1 he).2
    rw [hei] at hnot
    simpa using hnot
  · intro hnot
    exact List.mem_map.2 ⟨(id.index, s), List.mem_filter.2 ⟨mem_allocated.2 hs,
      by simpa using hnot⟩, rfl⟩

theorem Intact.notMem_garbage (h : σ.Intact roots) {id : Slot}
    (hid : σ.Reaches roots (.scope id)) : id.index ∉ (σ.garbage roots).map Prod.fst := by
  intro hmem
  obtain ⟨e, he, hei⟩ := List.mem_map.1 hmem
  have hs : σ.scope? id = some e.2 := by
    rw [← scope?_of_mem_garbage e he, hei]
  exact (h.mem_garbage hs).1 hmem hid

theorem Intact.garbage_idle (h : σ.Intact roots) : ∀ e ∈ σ.garbage roots, e.2.active = false := by
  intro e he
  have hs := scope?_of_mem_garbage e he
  cases hact : e.2.active with
  | false => rfl
  | true =>
    exact absurd (Reaches.active hs hact) ((h.mem_garbage hs).1 (List.mem_map_of_mem he))

/-- A collection empties the slots of those scopes that cannot be reached, and changes nothing
about the others but their count of children. -/
theorem Intact.scope?_collect (h : σ.Intact roots) {id : Slot} {s : Scope}
    (hs : σ.scope? id = some s) :
    (¬σ.Reaches roots (.scope id) → (σ.collect roots).scope? id = none) ∧
      (σ.Reaches roots (.scope id) → ∃ t, (σ.collect roots).scope? id = some t ∧
        t = { s with children := t.children }) := by
  constructor
  · intro hr
    rw [collect_eq]
    exact (scope?_sweep (σ.garbage roots) σ id).trans (if_pos ((h.mem_garbage hs).2 hr))
  · intro hr
    exact ⟨_, sweep_forth hs (h.notMem_garbage hr), rfl⟩

theorem Intact.collect (h : σ.Intact roots) :
    (σ.collect roots).Intact roots ∧ σ.Prunes (σ.collect roots) := by
  have hswept : (σ.sweep (σ.garbage roots)).Intact roots := by
    refine h.sweep scope?_of_mem_garbage h.garbage_idle garbage_nodup ?_ ?_ ?_
    · intro id s p hs hid hp
      have hr : σ.Reaches roots (.scope id) :=
        Classical.not_not.1 fun hr => hid ((h.mem_garbage hs).2 hr)
      exact h.notMem_garbage (hr.parent hs hp)
    · exact fun x hx => h.notMem_garbage (.handle hx)
    · rintro a f ⟨v, hv, ha⟩ hf
      refine h.notMem_garbage (Reaches.home (Reaches.functions (v := v) ?_ ha) hf)
      obtain ⟨j, t, ht, hv⟩ | ⟨m, hm, rfl⟩ | hv := mem_referenced.1 hv
      · obtain ⟨hj, s, hs, rfl⟩ := sweep_back ht
        have hr : σ.Reaches roots (.scope j) :=
          Classical.not_not.1 fun hr => hj ((h.mem_garbage hs).2 hr)
        exact hr.binding hs hv
      · rw [sweep_members] at hm
        exact .member hm
      · exact .held hv
  rw [collect_eq]
  refine ⟨?_, ?_⟩
  · exact hswept.transfer (hswept.toTidy.congr rfl rfl rfl (Nat.le_refl _) fun _ => rfl)
      (Nat.le_refl _) (fun ha => ha) (fun hx => hx) (fun _ hx => hx) fun _ _ hx => hx
  · have hp := prunes_sweep scope?_of_mem_garbage h.garbage_idle
    exact ⟨hp.members, hp.cells, hp.fresh, hp.back, hp.active⟩

theorem Intact.close (h : σ.Intact roots) (id : Slot) :
    (σ.close roots id).Intact roots ∧ (σ.deactivate id).Prunes (σ.close roots id) := by
  rw [Store.close]
  cases hs : σ.scope? id with
  | none =>
    refine ⟨h, rfl, rfl, rfl, ?_, ?_⟩
    · intro j t ht
      refine ⟨t, ?_, rfl⟩
      rw [Store.deactivate, scope?_modifyScope, if_neg, ht]
      rintro rfl
      simp [hs] at ht
    · intro j s hj _
      rw [Store.deactivate, scope?_modifyScope] at hj
      split at hj
      · simp [hs] at hj
      · exact ⟨s, hj⟩
  | some s =>
    obtain ⟨hi, hp⟩ := (h.deactivate id).giveBack (σ.live + 1) id
    dsimp only
    split
    · obtain ⟨hi', hp'⟩ := hi.collect
      exact ⟨hi', hp.trans hp'⟩
    · exact ⟨hi, hp⟩

end collect

end TypedScript.Store
