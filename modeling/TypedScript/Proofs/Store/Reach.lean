import TypedScript.Proofs.Store.Census

namespace TypedScript.Store

inductive Node
  | scope (id : Slot)
  | value (v : Value)

/-- What can be reached from outside the idle scopes: a scope leads to its parent and to what it
binds, a function to its home and to its receiver. -/
inductive Reaches (σ : Store) (roots : Roots) : Node → Prop
  | active {id s} : σ.scope? id = some s → s.active → Reaches σ roots (.scope id)
  | handle {h} : h ∈ roots.handles → Reaches σ roots (.scope h.slot)
  | member {m} : m ∈ σ.members.values → Reaches σ roots (.value m.value)
  | held {v} : v ∈ roots.values → Reaches σ roots (.value v)
  | parent {id s p} : Reaches σ roots (.scope id) → σ.scope? id = some s → s.parent = some p →
      Reaches σ roots (.scope p)
  | binding {id s v} : Reaches σ roots (.scope id) → σ.scope? id = some s →
      v ∈ s.bindings.values → Reaches σ roots (.value v)
  | home {v f} : Reaches σ roots (.value v) → v.closure? = some f →
      Reaches σ roots (.scope f.home.slot)
  | receiver {f r} : Reaches σ roots (.value (.bound f r)) → Reaches σ roots (.value r)

theorem Reaches.functions {σ : Store} {roots : Roots} {v a : Value}
    (h : σ.Reaches roots (.value v)) (ha : a ∈ v.functions) : σ.Reaches roots (.value a) := by
  induction v with
  | function f => exact List.mem_singleton.1 ha ▸ h
  | bound f r ih =>
    obtain rfl | ha := List.mem_cons.1 ha
    · exact h
    · exact ih h.receiver ha
  | _ => cases ha

theorem mem_homes {v : Value} {i : Nat} :
    i ∈ homes v ↔ ∃ a ∈ v.functions, ∃ f, a.closure? = some f ∧ f.home.slot.index = i := by
  simp only [homes, List.mem_map, Value.mem_closures]
  constructor
  · rintro ⟨f, ⟨a, ha, hf⟩, rfl⟩
    exact ⟨a, ha, f, hf, rfl⟩
  · rintro ⟨a, ha, f, hf, rfl⟩
    exact ⟨f, ⟨a, ha, hf⟩, rfl⟩

def Leads (σ : Store) (i j : Nat) : Prop := ∃ s, σ.scope? ⟨i⟩ = some s ∧ j ∈ neighbours s

structure Trail.Sound (t : Trail) (σ : Store) : Prop where
  lt_size : ∀ i ∈ t.seen, i < σ.slots.size
  nodup : t.seen.Nodup
  seen : ∀ i ∈ t.pending, i ∈ t.seen
  followed : ∀ i ∈ t.seen, i ∉ t.pending → ∀ j, σ.Leads i j → j < σ.slots.size → j ∈ t.seen

theorem Trail.foldl_add (size : Nat) (l : List Nat) (t : Trail) (hn : t.seen.Nodup)
    (hlt : ∀ i ∈ t.seen, i < size) :
    ∃ new, (l.foldl (Trail.add size) t).seen = new ++ t.seen ∧
      (l.foldl (Trail.add size) t).pending = new ++ t.pending ∧
      (new ++ t.seen).Nodup ∧ (∀ i ∈ new, i ∈ l ∧ i < size) ∧
      ∀ i ∈ l, i < size → i ∈ new ++ t.seen := by
  induction l generalizing t with
  | nil => exact ⟨[], by simpa using hn⟩
  | cons k rest ih =>
    rw [List.foldl_cons]
    by_cases hk : k < size ∧ k ∉ t.seen
    · rw [Trail.add, if_pos hk]
      obtain ⟨new, hs, hp, hnd, hnew, hall⟩ := ih ⟨k :: t.seen, k :: t.pending⟩
        (List.nodup_cons.2 ⟨hk.2, hn⟩) (by
          intro i hi
          obtain rfl | hi := List.mem_cons.1 hi
          · exact hk.1
          · exact hlt i hi)
      refine ⟨new ++ [k], by simpa using hs, by simpa using hp, by simpa using hnd, ?_, ?_⟩
      · intro i hi
        obtain hi | hi := List.mem_append.1 hi
        · exact ⟨List.mem_cons_of_mem _ (hnew i hi).1, (hnew i hi).2⟩
        · rw [List.mem_singleton.1 hi]
          exact ⟨List.mem_cons_self, hk.1⟩
      · intro i hi hlt'
        obtain rfl | hi := List.mem_cons.1 hi
        · simp
        · simpa using hall i hi hlt'
    · rw [Trail.add, if_neg hk]
      obtain ⟨new, hs, hp, hnd, hnew, hall⟩ := ih t hn hlt
      refine ⟨new, hs, hp, hnd, fun i hi => ⟨List.mem_cons_of_mem _ (hnew i hi).1,
        (hnew i hi).2⟩, ?_⟩
      intro i hi hlt'
      obtain rfl | hi := List.mem_cons.1 hi
      · exact List.mem_append_right _ (Decidable.of_not_not fun hns => hk ⟨hlt', hns⟩)
      · exact hall i hi hlt'

def exits (σ : Store) (i : Nat) : List Nat :=
  match σ.scope? ⟨i⟩ with
  | none => []
  | some s => neighbours s

theorem mem_exits {σ : Store} {i j : Nat} : j ∈ σ.exits i ↔ σ.Leads i j := by
  rw [exits, Leads]
  cases σ.scope? ⟨i⟩ <;> simp

theorem follow_of_pending_nil {σ : Store} {t : Trail} (hp : t.pending = []) (n : Nat) :
    follow σ n t = t.seen := by
  cases n with
  | zero => rfl
  | succ n => rw [follow, hp]

theorem follow_of_pending_cons {σ : Store} {t : Trail} {k : Nat} {rest : List Nat}
    (hp : t.pending = k :: rest) (n : Nat) :
    follow σ (n + 1) t =
      follow σ n ((σ.exits k).foldl (Trail.add σ.slots.size) ⟨t.seen, rest⟩) := by
  rw [follow, hp]
  rfl

theorem Trail.Sound.step {σ : Store} {t t' : Trail} (h : t.Sound σ) {k : Nat} {rest new : List Nat}
    (hp : t.pending = k :: rest) (hs : t'.seen = new ++ t.seen) (hp' : t'.pending = new ++ rest)
    (hn : (new ++ t.seen).Nodup) (hnew : ∀ i ∈ new, i ∈ σ.exits k ∧ i < σ.slots.size)
    (hall : ∀ i ∈ σ.exits k, i < σ.slots.size → i ∈ new ++ t.seen) : t'.Sound σ := by
  constructor
  · intro i hi
    obtain hi | hi := List.mem_append.1 (hs ▸ hi)
    · exact (hnew i hi).2
    · exact h.lt_size i hi
  · exact hs ▸ hn
  · intro i hi
    obtain hi | hi := List.mem_append.1 (hp' ▸ hi)
    · exact hs ▸ List.mem_append_left _ hi
    · exact hs ▸ List.mem_append_right _ (h.seen i (hp ▸ List.mem_cons_of_mem _ hi))
  · intro i hi hnp j hj hlt
    rw [hp', List.mem_append, not_or] at hnp
    have hi : i ∈ t.seen := (List.mem_append.1 (hs ▸ hi)).resolve_left hnp.1
    rw [hs]
    by_cases hik : i = k
    · subst hik
      exact hall j (mem_exits.2 hj) hlt
    · have hip : i ∉ t.pending := by
        rw [hp, List.mem_cons, not_or]
        exact ⟨hik, hnp.2⟩
      exact List.mem_append_right _ (h.followed i hi hip j hj hlt)

theorem Trail.Sound.length_le {σ : Store} {t : Trail} (h : t.Sound σ) :
    t.seen.length ≤ σ.slots.size := by
  have hsub : t.seen.toFinset ⊆ Finset.range σ.slots.size := fun i hi =>
    Finset.mem_range.2 (h.lt_size i (List.mem_toFinset.1 hi))
  have hcard := Finset.card_le_card hsub
  rwa [List.toFinset_card_of_nodup h.nodup, Finset.card_range] at hcard

/-- With fuel for every slot that is pending or not yet seen, `follow` ends with a set that is
closed under `Leads` and holds nothing but what the trail leads to. -/
theorem follow_spec {σ : Store} (n : Nat) {t : Trail} (h : t.Sound σ)
    (hn : t.pending.length + σ.slots.size ≤ n + t.seen.length) :
    (∀ i ∈ t.seen, i ∈ follow σ n t) ∧
      (∀ i ∈ follow σ n t, ∀ j, σ.Leads i j → j < σ.slots.size → j ∈ follow σ n t) ∧
      ∀ P : Nat → Prop, (∀ i j, P i → σ.Leads i j → P j) → (∀ i ∈ t.seen, P i) →
        ∀ i ∈ follow σ n t, P i := by
  induction n generalizing t with
  | zero =>
    have hlen := h.length_le
    have hp : t.pending = [] := List.eq_nil_of_length_eq_zero (by omega)
    rw [follow_of_pending_nil hp]
    exact ⟨fun i hi => hi, fun i hi => h.followed i hi (by simp [hp]), fun P _ hs => hs⟩
  | succ n ih =>
    cases hp : t.pending with
    | nil =>
      rw [follow_of_pending_nil hp]
      exact ⟨fun i hi => hi, fun i hi => h.followed i hi (by simp [hp]), fun P _ hs => hs⟩
    | cons k rest =>
      rw [follow_of_pending_cons hp]
      obtain ⟨new, hs, hp', hnd, hnew, hall⟩ :=
        Trail.foldl_add σ.slots.size (σ.exits k) ⟨t.seen, rest⟩ h.nodup h.lt_size
      generalize (σ.exits k).foldl (Trail.add σ.slots.size) ⟨t.seen, rest⟩ = t' at hs hp' ⊢
      obtain ⟨hsub, hclosed, hmin⟩ := ih (h.step hp hs hp' hnd hnew hall) (by
        rw [hp, List.length_cons] at hn
        rw [hs, hp', List.length_append, List.length_append]
        dsimp only
        omega)
      refine ⟨fun i hi => hsub i (hs ▸ List.mem_append_right _ hi), hclosed, fun P hP hseen => ?_⟩
      refine hmin P hP fun i hi => ?_
      obtain hi | hi := List.mem_append.1 (hs ▸ hi)
      · have hk : P k := hseen k (h.seen k (hp ▸ List.mem_cons_self))
        exact hP k i hk (mem_exits.1 (hnew i hi).1)
      · exact hseen i hi

theorem reachable_spec (σ : Store) (roots : Roots) :
    (∀ i ∈ σ.anchors roots, i < σ.slots.size → i ∈ σ.reachable roots) ∧
      (∀ i ∈ σ.reachable roots, ∀ j, σ.Leads i j → j < σ.slots.size → j ∈ σ.reachable roots) ∧
      ∀ P : Nat → Prop, (∀ i j, P i → σ.Leads i j → P j) → (∀ i ∈ σ.anchors roots, P i) →
        ∀ i ∈ σ.reachable roots, P i := by
  obtain ⟨new, hs, hp, hnd, hnew, hall⟩ := Trail.foldl_add σ.slots.size (σ.anchors roots) ⟨[], []⟩
    List.nodup_nil (by simp)
  simp only [List.append_nil] at hs hp hnd hall
  rw [reachable]
  generalize (σ.anchors roots).foldl (Trail.add σ.slots.size) ⟨[], []⟩ = t at hs hp ⊢
  have hsound : t.Sound σ := by
    constructor
    · exact fun i hi => (hnew i (hs ▸ hi)).2
    · exact hs ▸ hnd
    · exact fun i hi => hs ▸ hp ▸ hi
    · exact fun i hi hnp => absurd (hp ▸ hs ▸ hi) hnp
  obtain ⟨hsub, hclosed, hmin⟩ := follow_spec σ.slots.size hsound (by rw [hs, hp]; omega)
  refine ⟨fun i hi hlt => hsub i (hs ▸ hall i hi hlt), hclosed, fun P hP ha => ?_⟩
  exact hmin P hP fun i hi => ha i (hnew i (hs ▸ hi)).1

end TypedScript.Store
