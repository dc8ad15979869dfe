import TypedScript.Proofs.Dict
import TypedScript.Proofs.Store.Tidy

namespace TypedScript

namespace Value

def functions : Value → List Value
  | .function f => [.function f]
  | .bound f receiver => .bound f receiver :: receiver.functions
  | _ => []

def closure? (v : Value) : Option Closure := v.asFunction?.map Prod.fst

@[simp] theorem closure?_ofFunction (f : Closure) (receiver : Option Value) :
    (ofFunction f receiver).closure? = some f := by cases receiver <;> rfl

theorem functions_ofFunction (f : Closure) (receiver : Option Value) :
    (ofFunction f receiver).functions =
      ofFunction f receiver :: receiver.toList.flatMap functions := by
  cases receiver <;> simp [ofFunction, functions]

theorem functions_trans {v a b : Value} (ha : a ∈ v.functions) (hb : b ∈ a.functions) :
    b ∈ v.functions := by
  induction v with
  | function f =>
    rw [functions, List.mem_singleton] at ha
    exact ha ▸ hb
  | bound f r ih =>
    obtain rfl | ha := List.mem_cons.1 ha
    · exact hb
    · exact List.mem_cons_of_mem _ (ih ha)
  | _ => cases ha

theorem mem_closures {v : Value} {f : Closure} :
    f ∈ v.closures ↔ ∃ a ∈ v.functions, a.closure? = some f := by
  induction v with
  | function g => simp [closures, functions, closure?, asFunction?, eq_comm]
  | bound g r ih => simp [closures, functions, ih, closure?, asFunction?, eq_comm]
  | _ => simp [closures, functions]

theorem functions_of_asFunction? {v : Value} {f : Closure} {r : Option Value}
    (h : v.asFunction? = some (f, r)) : v = ofFunction f r := by
  cases v <;> cases h <;> rfl

end Value

namespace Store

theorem mem_referenced {σ : Store} {roots : Roots} {v : Value} :
    v ∈ σ.referenced roots ↔ (∃ id s, σ.scope? id = some s ∧ v ∈ s.bindings.values) ∨
      (∃ m ∈ σ.members.values, m.value = v) ∨ v ∈ roots.values := by
  simp only [referenced, List.mem_append, List.mem_flatMap, List.mem_map, or_assoc]
  constructor
  · rintro (⟨⟨i, s⟩, hs, hv⟩ | h)
    · exact .inl ⟨⟨i⟩, s, mem_allocated.1 hs, hv⟩
    · exact .inr h
  · rintro (⟨⟨i⟩, s, hs, hv⟩ | h)
    · exact .inl ⟨(i, s), mem_allocated.2 hs, hv⟩
    · exact .inr h

def Knows (σ : Store) (roots : Roots) (a : Value) : Prop :=
  ∃ v ∈ σ.referenced roots, a ∈ v.functions

def Carries (σ : Store) (roots : Roots) (v : Value) : Prop := ∀ a ∈ v.functions, σ.Knows roots a

/-- The scope that a handle was made for is still in its slot. -/
def Holds (σ : Store) (h : Handle) : Prop := ∃ s, σ.scope? h.slot = some s ∧ s.stamp = h.stamp

theorem carries_of_mem {σ : Store} {roots : Roots} {v : Value} (h : v ∈ σ.referenced roots) :
    σ.Carries roots v := fun _ ha => ⟨v, h, ha⟩

theorem carries_of_held {σ : Store} {roots : Roots} {v : Value} (h : v ∈ roots.values) :
    σ.Carries roots v := carries_of_mem (mem_referenced.2 (.inr (.inr h)))

theorem carries_of_bound {σ : Store} {roots : Roots} {id : Slot} {s : Scope} {v : Value}
    (hs : σ.scope? id = some s) (h : v ∈ s.bindings.values) : σ.Carries roots v :=
  carries_of_mem (mem_referenced.2 (.inl ⟨id, s, hs, h⟩))

theorem carries_of_member {σ : Store} {roots : Roots} {m : Member} (h : m ∈ σ.members.values) :
    σ.Carries roots m.value := carries_of_mem (mem_referenced.2 (.inr (.inl ⟨m, h, rfl⟩)))

theorem carries_of_lookup? {σ : Store} {roots : Roots} {id : Slot} {name : String} {v : Value}
    (h : σ.lookup? id name = some v) : σ.Carries roots v := by
  rw [lookup?] at h
  split at h
  · cases h
  · obtain ⟨s, hs, hv⟩ := Option.bind_eq_some_iff.1 h
    exact carries_of_bound hs (Dict.mem_values_of_get? hv)

theorem carries_receiver {σ : Store} {roots : Roots} {f : Closure} {receiver : Option Value}
    (h : σ.Carries roots (.ofFunction f receiver)) : ∀ r ∈ receiver, σ.Carries roots r := by
  intro r hr a ha
  apply h a
  rw [Value.functions_ofFunction]
  exact List.mem_cons_of_mem _ (List.mem_flatMap.2 ⟨r, Option.mem_toList.2 hr, ha⟩)

theorem knows_of_knows {σ : Store} {roots : Roots} {a b : Value} (h : σ.Knows roots a)
    (hb : b ∈ a.functions) : σ.Knows roots b := by
  obtain ⟨v, hv, ha⟩ := h
  exact ⟨v, hv, Value.functions_trans ha hb⟩

theorem knows_of_carries {σ τ : Store} {roots roots' : Roots}
    (h : ∀ {v}, v ∈ τ.referenced roots' → σ.Carries roots v) {a : Value}
    (ha : τ.Knows roots' a) : σ.Knows roots a := by
  obtain ⟨v, hv, ha⟩ := ha
  exact h hv a ha

theorem holds_modifyScope {σ : Store} {x : Handle} (h : σ.Holds x) (id : Slot)
    {f : Scope → Scope} (hf : ∀ s, (f s).stamp = s.stamp) : (σ.modifyScope id f).Holds x := by
  obtain ⟨s, hs, hx⟩ := h
  rw [Holds, scope?_modifyScope]
  split
  · rename_i he
    subst he
    exact ⟨f s, by rw [hs]; rfl, (hf s).trans hx⟩
  · exact ⟨s, hs, hx⟩

theorem holds_openScope {σ : Store} (hf : σ.FreeIsEmpty) {x : Handle} (h : σ.Holds x)
    (parent : Slot) : (σ.openScope parent).2.Holds x := by
  obtain ⟨s, hs, hx⟩ := h
  obtain ⟨t, ht, -, hst⟩ := openScope_forth hf parent hs
  exact ⟨t, ht, hst.trans hx⟩

structure Intact (σ : Store) (roots : Roots) : Prop extends σ.Tidy where
  handle_holds : ∀ {h}, h ∈ roots.handles → σ.Holds h
  home_holds : ∀ {a f}, σ.Knows roots a → a.closure? = some f → σ.Holds f.home
  id_lt : ∀ {a f}, σ.Knows roots a → a.closure? = some f → f.id < σ.fresh
  id_inj : ∀ {a b f g}, σ.Knows roots a → σ.Knows roots b → a.closure? = some f →
    b.closure? = some g → f.id = g.id → a = b

namespace Intact

variable {σ τ : Store} {roots roots' : Roots} {v : Value}

theorem initial : Store.initial.Intact .none := by
  have hno : ∀ a, ¬Store.initial.Knows .none a := by
    rintro a ⟨v, hv, -⟩
    obtain ⟨⟨_ | i⟩, s, hs, hb⟩ | ⟨m, hm, -⟩ | hr := mem_referenced.1 hv
    · cases hs
      cases hb
    · cases hs
    · cases hm
    · cases hr
  exact {
    toTidy := Tidy.initial
    handle_holds := fun h => by cases h
    home_holds := fun h => absurd h (hno _)
    id_lt := fun h => absurd h (hno _)
    id_inj := fun h => absurd h (hno _) }

/-- Nothing is lost if no function is new and the scopes that are still needed are kept. -/
theorem transfer (h : σ.Intact roots) (tidy : τ.Tidy) (fresh : σ.fresh ≤ τ.fresh)
    (knows : ∀ {a}, τ.Knows roots' a → σ.Knows roots a)
    (handles : ∀ {x}, x ∈ roots'.handles → x ∈ roots.handles)
    (held : ∀ {x}, x ∈ roots'.handles → σ.Holds x → τ.Holds x)
    (homes : ∀ {a f}, τ.Knows roots' a → a.closure? = some f → σ.Holds f.home → τ.Holds f.home) :
    τ.Intact roots' where
  toTidy := tidy
  handle_holds hx := held hx (h.handle_holds (handles hx))
  home_holds ha hf := homes ha hf (h.home_holds (knows ha) hf)
  id_lt ha hf := Nat.lt_of_lt_of_le (h.id_lt (knows ha) hf) fresh
  id_inj ha hb := h.id_inj (knows ha) (knows hb)

theorem weaken (h : σ.Intact roots) (values : ∀ v ∈ roots'.values, v ∈ roots.values)
    (handles : ∀ x ∈ roots'.handles, x ∈ roots.handles) : σ.Intact roots' := by
  refine h.transfer h.toTidy (Nat.le_refl _) (knows_of_carries fun hv => ?_) (handles _)
    (fun _ hx => hx) fun _ _ hx => hx
  apply carries_of_mem
  rw [mem_referenced] at hv ⊢
  exact hv.imp id (Or.imp id (values _))

theorem hold (h : σ.Intact roots) {v : Value} (hv : σ.Carries roots v) :
    σ.Intact (roots.hold v) := by
  refine h.transfer h.toTidy (Nat.le_refl _) (knows_of_carries fun hw => ?_) (fun hx => hx)
    (fun _ hx => hx) fun _ _ hx => hx
  obtain hw | hw | hw := mem_referenced.1 hw
  · exact carries_of_mem (mem_referenced.2 (.inl hw))
  · exact carries_of_mem (mem_referenced.2 (.inr (.inl hw)))
  · obtain rfl | hw := List.mem_cons.1 hw
    · exact hv
    · exact carries_of_held hw

theorem release (h : σ.Intact (roots.hold v)) : σ.Intact roots :=
  h.weaken (fun _ hw => List.mem_cons_of_mem _ hw) fun _ hx => hx

theorem withCells (h : σ.Intact roots) (cells : Cells) : ({ σ with cells } : Store).Intact roots :=
  h.transfer (h.toTidy.congr rfl rfl rfl (Nat.le_refl _) fun _ => rfl) (Nat.le_refl _)
    (fun ha => ha) (fun hx => hx) (fun _ hx => hx) fun _ _ hx => hx

theorem bind (h : σ.Intact roots) (id : Slot) (name : String) {v : Value}
    (hv : σ.Carries roots v) : (σ.bind id name v).Intact roots := by
  refine h.transfer (h.toTidy.bind id name v) (Nat.le_refl _) (knows_of_carries fun hw => ?_)
    (fun hx => hx) (fun _ hx => holds_modifyScope hx id fun _ => rfl)
    fun _ _ hx => holds_modifyScope hx id fun _ => rfl
  obtain ⟨j, t, ht, hw⟩ | hw := mem_referenced.1 hw
  · rw [scope?_bind] at ht
    split at ht
    · obtain ⟨s, hs, rfl⟩ := Option.map_eq_some_iff.1 ht
      obtain rfl | hw := Dict.mem_values_insert hw
      · exact hv
      · exact carries_of_bound hs hw
    · exact carries_of_bound ht hw
  · exact carries_of_mem (mem_referenced.2 (.inr hw))

theorem insertMember (h : σ.Intact roots) (key : Ty × String) {m : Member}
    (hm : σ.Carries roots m.value) :
    ({ σ with members := σ.members.insert key m } : Store).Intact roots := by
  refine h.transfer (h.toTidy.congr rfl rfl rfl (Nat.le_refl _) fun _ => rfl) (Nat.le_refl _)
    (knows_of_carries fun hw => ?_) (fun hx => hx) (fun _ hx => hx) fun _ _ hx => hx
  obtain hw | ⟨n, hn, rfl⟩ | hw := mem_referenced.1 hw
  · exact carries_of_mem (mem_referenced.2 (.inl hw))
  · obtain rfl | hn := Dict.mem_values_insert hn
    · exact hm
    · exact carries_of_member hn
  · exact carries_of_held hw

theorem setField (h : σ.Intact roots) (ty : Ty) (name : String) {v : Value}
    (hv : σ.Carries roots v) : (σ.setField ty name v).Intact roots := h.insertMember _ hv

theorem setMethod (h : σ.Intact roots) (ty : Ty) (name : String) {f : Closure}
    (receiver : Option Value) (hv : σ.Carries roots (.ofFunction f receiver)) :
    (σ.setMethod ty name f receiver).Intact roots := h.insertMember _ hv

theorem deactivate (h : σ.Intact roots) (id : Slot) : (σ.deactivate id).Intact roots := by
  refine h.transfer (h.toTidy.deactivate id) (Nat.le_refl _) (knows_of_carries fun hw => ?_)
    (fun hx => hx) (fun _ hx => holds_modifyScope hx id fun _ => rfl)
    fun _ _ hx => holds_modifyScope hx id fun _ => rfl
  obtain ⟨j, t, ht, hw⟩ | hw := mem_referenced.1 hw
  · rw [Store.deactivate, scope?_modifyScope] at ht
    split at ht
    · obtain ⟨s, hs, rfl⟩ := Option.map_eq_some_iff.1 ht
      exact carries_of_bound hs hw
    · exact carries_of_bound ht hw
  · exact carries_of_mem (mem_referenced.2 (.inr hw))

theorem openScope (h : σ.Intact roots) {parent : Slot} {s : Scope}
    (hp : σ.scope? parent = some s) : (σ.openScope parent).2.Intact roots := by
  have hf := h.freeIsEmpty
  refine h.transfer (h.toTidy.openScope hp) (by simp) (knows_of_carries fun hw => ?_)
    (fun hx => hx) (fun _ hx => holds_openScope hf hx parent)
    fun _ _ hx => holds_openScope hf hx parent
  obtain ⟨j, t, ht, hw⟩ | hw := mem_referenced.1 hw
  · rw [scope?_openScope hf] at ht
    split at ht
    · cases ht
      cases hw
    · split at ht
      · obtain ⟨u, hu, rfl⟩ := Option.map_eq_some_iff.1 ht
        exact carries_of_bound hu hw
      · exact carries_of_bound ht hw
  · rw [openScope_members] at hw
    exact carries_of_mem (mem_referenced.2 (.inr hw))

theorem holdNew (h : σ.Intact roots) {f : Closure} (receiver : Option Value)
    (hid : f.id = σ.fresh) (hhome : σ.Holds f.home)
    (hr : ∀ r ∈ receiver, σ.Carries roots r) :
    ({ σ with fresh := σ.fresh + 1 } : Store).Intact (roots.hold (.ofFunction f receiver)) := by
  have hcase : ∀ {a}, ({ σ with fresh := σ.fresh + 1 } : Store).Knows
      (roots.hold (.ofFunction f receiver)) a → a = .ofFunction f receiver ∨ σ.Knows roots a := by
    rintro a ⟨v, hv, ha⟩
    obtain hv | hv | hv := mem_referenced.1 hv
    · exact .inr ⟨v, mem_referenced.2 (.inl hv), ha⟩
    · exact .inr ⟨v, mem_referenced.2 (.inr (.inl hv)), ha⟩
    · obtain rfl | hv := List.mem_cons.1 hv
      · rw [Value.functions_ofFunction] at ha
        obtain rfl | ha := List.mem_cons.1 ha
        · exact .inl rfl
        · obtain ⟨r, hmem, ha⟩ := List.mem_flatMap.1 ha
          exact .inr (hr r (Option.mem_toList.1 hmem) a ha)
      · exact .inr ⟨v, mem_referenced.2 (.inr (.inr hv)), ha⟩
  have hold : ∀ {a g}, σ.Knows roots a → a.closure? = some g → g.id ≠ f.id := fun ha hg =>
    hid ▸ Nat.ne_of_lt (h.id_lt ha hg)
  constructor
  · exact h.toTidy.congr rfl rfl rfl (Nat.le_succ _) fun _ => rfl
  · exact h.handle_holds
  · intro a g ha hg
    obtain rfl | ha := hcase ha
    · rw [Value.closure?_ofFunction] at hg
      cases hg
      exact hhome
    · exact h.home_holds ha hg
  · intro a g ha hg
    obtain rfl | ha := hcase ha
    · rw [Value.closure?_ofFunction] at hg
      cases hg
      exact hid ▸ Nat.lt_succ_self _
    · exact Nat.lt_succ_of_lt (h.id_lt ha hg)
  · intro a b g k ha hb hg hk he
    obtain rfl | ha := hcase ha
    · rw [Value.closure?_ofFunction] at hg
      cases hg
      obtain rfl | hb := hcase hb
      · rfl
      · exact absurd he.symm (hold hb hk)
    · obtain rfl | hb := hcase hb
      · rw [Value.closure?_ofFunction] at hk
        cases hk
        exact absurd he (hold ha hg)
      · exact h.id_inj ha hb hg hk he

theorem home_of_carries (h : σ.Intact roots) {f : Closure} {receiver : Option Value}
    (hv : σ.Carries roots (.ofFunction f receiver)) : σ.Holds f.home := by
  refine h.home_holds (hv (.ofFunction f receiver) ?_) (Value.closure?_ofFunction f receiver)
  rw [Value.functions_ofFunction]
  exact List.mem_cons_self

theorem member (h : σ.Intact roots) {receiver : Value} {ty : Ty} {name : String}
    (hr : σ.Carries roots receiver) (hm : σ.member? receiver ty name = some (v, τ)) :
    τ.Intact (roots.hold v) := by
  rw [Store.member?] at hm
  split at hm
  · cases hm
  · rename_i u hget
    cases hm
    exact h.hold (carries_of_member (m := .field v) (Dict.mem_values_of_get? hget))
  · rename_i f own hget
    cases hm
    have hf : σ.Carries roots (.ofFunction f own) :=
      carries_of_member (m := .method f own) (Dict.mem_values_of_get? hget)
    have hhome : σ.Holds f.home := h.home_of_carries hf
    exact h.holdNew (f := { f with id := σ.fresh }) (some receiver) rfl hhome
      fun r hr' => by cases hr'; exact hr

end Intact

end Store

end TypedScript
