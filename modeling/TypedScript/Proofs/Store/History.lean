import TypedScript.Proofs.Store.Collect

namespace TypedScript

namespace Store

/-- No scope of `τ` that is as old as `σ` has been put into another scope's slot. -/
structure Continues (σ τ : Store) : Prop where
  fresh : σ.fresh ≤ τ.fresh
  back : ∀ {j t}, τ.scope? j = some t → t.stamp < σ.fresh →
    ∃ s, σ.scope? j = some s ∧ s.stamp = t.stamp ∧ s.parent = t.parent

namespace Continues

variable {σ τ υ : Store}

theorem of_scopes (fresh : σ.fresh ≤ τ.fresh) (scopes : ∀ {j t}, τ.scope? j = some t →
    ∃ s, σ.scope? j = some s ∧ s.stamp = t.stamp ∧ s.parent = t.parent) : σ.Continues τ :=
  ⟨fresh, fun ht _ => scopes ht⟩

theorem refl (σ : Store) : σ.Continues σ := of_scopes (Nat.le_refl _) fun ht => ⟨_, ht, rfl, rfl⟩

theorem trans (h : σ.Continues τ) (h' : τ.Continues υ) : σ.Continues υ where
  fresh := Nat.le_trans h.fresh h'.fresh
  back hu hlt := by
    obtain ⟨t, ht, hst, hp⟩ := h'.back hu (Nat.lt_of_lt_of_le hlt h.fresh)
    obtain ⟨s, hs, hss, hsp⟩ := h.back ht (hst ▸ hlt)
    exact ⟨s, hs, hss.trans hst, hsp.trans hp⟩

theorem modifyScope (σ : Store) (id : Slot) {f : Scope → Scope}
    (hf : ∀ s, (f s).stamp = s.stamp ∧ (f s).parent = s.parent) :
    σ.Continues (σ.modifyScope id f) := by
  refine of_scopes (Nat.le_refl _) fun {j t} ht => ?_
  rw [scope?_modifyScope] at ht
  split at ht
  · rename_i he
    subst he
    obtain ⟨s, hs, rfl⟩ := Option.map_eq_some_iff.1 ht
    exact ⟨s, hs, (hf s).1.symm, (hf s).2.symm⟩
  · exact ⟨t, ht, rfl, rfl⟩

theorem bind (σ : Store) (id : Slot) (name : String) (v : Value) :
    σ.Continues (σ.bind id name v) := modifyScope σ id fun _ => ⟨rfl, rfl⟩

theorem deactivate (σ : Store) (id : Slot) : σ.Continues (σ.deactivate id) :=
  modifyScope σ id fun _ => ⟨rfl, rfl⟩

theorem openScope (hf : σ.FreeIsEmpty) (parent : Slot) : σ.Continues (σ.openScope parent).2 where
  fresh := by simp
  back {j t} ht hlt := by
    obtain ⟨-, rfl⟩ | ⟨s, hs, hp, hst, -⟩ := openScope_back hf ht
    · exact absurd hlt (Nat.lt_irrefl _)
    · exact ⟨s, hs, hst.symm, hp.symm⟩

theorem of_prunes (h : σ.Prunes τ) : σ.Continues τ := by
  refine of_scopes (Nat.le_of_eq h.fresh.symm) fun ht => ?_
  obtain ⟨s, hs, he⟩ := h.back ht
  exact ⟨s, hs, by rw [he], by rw [he]⟩

end Continues

end Store

structure Session where
  store : Store
  roots : Roots

namespace Session

def initial : Session := ⟨.initial, .none⟩

inductive Op
  | extend (parent : Slot)
  | capture (scope : Slot)
  | cloneHandle (handle : Nat)
  | cloneHome (value : Nat)
  | dropHandle (handle : Nat)
  | plain (v : Value)
  | function (home : Nat) (parameters : List String) (body : Block) (signature : Signature)
      (receiver : Option Nat)
  | cloneValue (value : Nat)
  | cloneReceiver (value : Nat)
  | dropValue (value : Nat)
  | release (scope : Slot)
  | collect
  | define (scope : Slot) (name : String) (value : Nat)
  | assign (scope : Slot) (name : String) (value : Nat)
  | get (scope : Slot) (name : String)
  | setField (ty : Ty) (name : String) (value : Nat)
  | setMethod (ty : Ty) (name : String) (value : Nat)
  | member (receiver : Nat) (ty : Ty) (name : String)

variable (w : Session)

def value? (i : Nat) : Option Value := w.roots.values[i]?

def receiver? : Option Nat → Option (Option Value)
  | none => some none
  | some i => (w.value? i).map some

def handle? (i : Nat) : Option Handle := w.roots.handles[i]?

def hold (v : Value) : Session := { w with roots := w.roots.hold v }

def holdHandle (h : Handle) : Session :=
  { w with roots := { w.roots with handles := h :: w.roots.handles } }

/-- The session after an operation. There is none if the operation is given a handle or a value
that is not held, or is to open or capture a scope in an empty slot. -/
def perform : Op → Option Session
  | .extend parent => (w.store.scope? parent).map fun _ =>
    { w with store := (w.store.openScope parent).2 }
  | .capture scope => (w.store.scope? scope).map fun _ =>
    let (h, store) := w.store.handleFor scope
    holdHandle { w with store } h
  | .cloneHandle i => (w.handle? i).map w.holdHandle
  | .cloneHome i => do
    let v ← w.value? i
    let (f, _) ← v.asFunction?
    return w.holdHandle f.home
  | .dropHandle i =>
    some { w with roots := { w.roots with handles := w.roots.handles.eraseIdx i } }
  | .plain v => match v.asFunction? with
    | none => some (w.hold v)
    | some _ => none
  | .function home parameters body signature receiver => do
    let home ← w.handle? home
    let receiver ← w.receiver? receiver
    let f : Closure := ⟨w.store.fresh, parameters, body, home, signature⟩
    return hold { w with store := { w.store with fresh := w.store.fresh + 1 } }
      (.ofFunction f receiver)
  | .cloneValue i => (w.value? i).map w.hold
  | .cloneReceiver i => do
    let v ← w.value? i
    let (_, receiver) ← v.asFunction?
    receiver.map w.hold
  | .dropValue i => some { w with roots := { w.roots with values := w.roots.values.eraseIdx i } }
  | .release scope => some { w with store := w.store.close w.roots scope }
  | .collect => some { w with store := w.store.collect w.roots }
  | .define scope name i => (w.value? i).map fun v =>
    { w with store := w.store.bind scope name v }
  | .assign scope name i => (w.value? i).map fun v =>
    { w with store := (w.store.rebind? scope name v).getD w.store }
  | .get scope name => (w.store.lookup? scope name).map w.hold
  | .setField ty name i => (w.value? i).map fun v =>
    { w with store := w.store.setField ty name v }
  | .setMethod ty name i => do
    let v ← w.value? i
    let (f, receiver) ← v.asFunction?
    return { w with store := w.store.setMethod ty name f receiver }
  | .member i ty name => do
    let receiver ← w.value? i
    let (v, store) ← w.store.member? receiver ty name
    return hold { w with store } v

def run (w : Session) : List Op → Option Session
  | [] => some w
  | op :: ops => (w.perform op).bind (run · ops)

variable {w}

theorem held_of_value? {i : Nat} {v : Value} (h : w.value? i = some v) :
    v ∈ w.roots.values := List.mem_of_getElem? h

theorem carries_of_value? {i : Nat} {v : Value} (h : w.value? i = some v) :
    w.store.Carries w.roots v := Store.carries_of_held (held_of_value? h)

def Sound (w : Session) : Prop := w.store.Intact w.roots

theorem initial_sound : initial.Sound := Store.Intact.initial

theorem Sound.hold (h : w.Sound) {v : Value} (hv : w.store.Carries w.roots v) :
    (w.hold v).Sound := Store.Intact.hold h hv

theorem Sound.holdHandle (h : w.Sound) {x : Handle} (hx : w.store.Holds x) :
    (w.holdHandle x).Sound where
  toTidy := h.toTidy
  handle_holds hy := by
    obtain rfl | hy := List.mem_cons.1 hy
    · exact hx
    · exact h.handle_holds hy
  home_holds := h.home_holds
  id_lt := h.id_lt
  id_inj := h.id_inj

theorem carries_of_asFunction? {i : Nat} {v : Value} {f : Closure} {receiver : Option Value}
    (hi : w.value? i = some v) (hf : v.asFunction? = some (f, receiver)) :
    w.store.Carries w.roots (.ofFunction f receiver) :=
  Value.functions_of_asFunction? hf ▸ carries_of_value? hi

theorem rebind?_getD (σ : Store) (scope : Slot) (name : String) (v : Value) :
    (∃ found, (σ.rebind? scope name v).getD σ = σ.bind found name v) ∨
      (σ.rebind? scope name v).getD σ = σ := by
  rw [Store.rebind?]
  cases σ.binder? scope name with
  | none => exact .inr rfl
  | some found => exact .inl ⟨found, rfl⟩

theorem continues_member? {σ τ : Store} {receiver v : Value} {ty : Ty} {name : String}
    (hm : σ.member? receiver ty name = some (v, τ)) : σ.Continues τ := by
  rw [Store.member?] at hm
  split at hm <;> cases hm
  · exact .refl _
  · exact .of_scopes (Nat.le_succ _) fun ht => ⟨_, ht, rfl, rfl⟩

theorem perform_sound (h : w.Sound) {op : Op} {w' : Session} (hp : w.perform op = some w') :
    w'.Sound ∧ w.store.Continues w'.store := by
  cases op with
  | extend parent =>
    obtain ⟨s, hs, rfl⟩ := Option.map_eq_some_iff.1 hp
    exact ⟨Store.Intact.openScope h hs, .openScope h.freeIsEmpty parent⟩
  | capture scope =>
    obtain ⟨s, hs, rfl⟩ := Option.map_eq_some_iff.1 hp
    rw [Store.handleFor, hs]
    exact ⟨h.holdHandle ⟨s, hs, rfl⟩, .refl _⟩
  | cloneHandle i =>
    obtain ⟨x, hx, rfl⟩ := Option.map_eq_some_iff.1 hp
    exact ⟨h.holdHandle (h.handle_holds (List.mem_of_getElem? hx)), .refl _⟩
  | cloneHome i =>
    obtain ⟨v, hi, hp⟩ := Option.bind_eq_some_iff.1 hp
    obtain ⟨⟨f, r⟩, hf, hp⟩ := Option.bind_eq_some_iff.1 hp
    cases hp
    exact ⟨h.holdHandle (Store.Intact.home_of_carries h (carries_of_asFunction? hi hf)), .refl _⟩
  | dropHandle i =>
    cases hp
    exact ⟨Store.Intact.weaken h (fun _ hv => hv) fun _ hx => List.mem_of_mem_eraseIdx hx, .refl _⟩
  | plain v =>
    rw [perform] at hp
    split at hp
    · rename_i hv
      cases hp
      refine ⟨h.hold fun a ha => ?_, .refl _⟩
      cases v <;> cases hv <;> cases ha
    · cases hp
  | function home parameters body signature receiver =>
    obtain ⟨x, hx, hp⟩ := Option.bind_eq_some_iff.1 hp
    obtain ⟨r, hr, hp⟩ := Option.bind_eq_some_iff.1 hp
    cases hp
    refine ⟨Store.Intact.holdNew h r rfl (h.handle_holds (List.mem_of_getElem? hx)) ?_,
      .of_scopes (Nat.le_succ _) fun ht => ⟨_, ht, rfl, rfl⟩⟩
    intro u hu
    cases receiver with
    | none =>
      cases hr
      cases hu
    | some i =>
      obtain ⟨v, hv, rfl⟩ := Option.map_eq_some_iff.1 hr
      cases hu
      exact carries_of_value? hv
  | cloneValue i =>
    obtain ⟨v, hv, rfl⟩ := Option.map_eq_some_iff.1 hp
    exact ⟨h.hold (carries_of_value? hv), .refl _⟩
  | cloneReceiver i =>
    obtain ⟨v, hi, hp⟩ := Option.bind_eq_some_iff.1 hp
    obtain ⟨⟨f, r⟩, hf, hp⟩ := Option.bind_eq_some_iff.1 hp
    obtain ⟨u, hu, rfl⟩ := Option.map_eq_some_iff.1 hp
    exact ⟨h.hold (Store.carries_receiver (carries_of_asFunction? hi hf) u hu), .refl _⟩
  | dropValue i =>
    cases hp
    exact ⟨Store.Intact.weaken h (fun _ hv => List.mem_of_mem_eraseIdx hv) fun _ hx => hx, .refl _⟩
  | release scope =>
    cases hp
    obtain ⟨hi, hpr⟩ := Store.Intact.close h scope
    exact ⟨hi, .trans (.deactivate _ scope) (.of_prunes hpr)⟩
  | collect =>
    cases hp
    obtain ⟨hi, hpr⟩ := Store.Intact.collect h
    exact ⟨hi, .of_prunes hpr⟩
  | define scope name i =>
    obtain ⟨v, hv, rfl⟩ := Option.map_eq_some_iff.1 hp
    exact ⟨Store.Intact.bind h scope name (carries_of_value? hv), .bind _ _ _ _⟩
  | assign scope name i =>
    obtain ⟨v, hv, rfl⟩ := Option.map_eq_some_iff.1 hp
    obtain ⟨found, he⟩ | he := rebind?_getD w.store scope name v
    · rw [he]
      exact ⟨Store.Intact.bind h found name (carries_of_value? hv), .bind _ _ _ _⟩
    · rw [he]
      exact ⟨h, .refl _⟩
  | get scope name =>
    obtain ⟨v, hv, rfl⟩ := Option.map_eq_some_iff.1 hp
    exact ⟨h.hold (Store.carries_of_lookup? hv), .refl _⟩
  | setField ty name i =>
    obtain ⟨v, hv, rfl⟩ := Option.map_eq_some_iff.1 hp
    exact ⟨Store.Intact.setField h ty name (carries_of_value? hv),
      .of_scopes (Nat.le_refl _) fun ht => ⟨_, ht, rfl, rfl⟩⟩
  | setMethod ty name i =>
    obtain ⟨v, hi, hp⟩ := Option.bind_eq_some_iff.1 hp
    obtain ⟨⟨f, r⟩, hf, hp⟩ := Option.bind_eq_some_iff.1 hp
    cases hp
    exact ⟨Store.Intact.setMethod h ty name r (carries_of_asFunction? hi hf),
      .of_scopes (Nat.le_refl _) fun ht => ⟨_, ht, rfl, rfl⟩⟩
  | member i ty name =>
    obtain ⟨r, hr, hp⟩ := Option.bind_eq_some_iff.1 hp
    obtain ⟨⟨v, store⟩, hm, hp⟩ := Option.bind_eq_some_iff.1 hp
    cases hp
    exact ⟨Store.Intact.member h (carries_of_value? hr) hm, continues_member? hm⟩

theorem run_sound (h : w.Sound) {ops : List Op} {w' : Session} (hr : w.run ops = some w') :
    w'.Sound ∧ w.store.Continues w'.store := by
  induction ops generalizing w with
  | nil =>
    cases hr
    exact ⟨h, .refl _⟩
  | cons op ops ih =>
    obtain ⟨u, hu, hr⟩ := Option.bind_eq_some_iff.1 hr
    obtain ⟨hsound, hc⟩ := perform_sound h hu
    obtain ⟨hsound', hc'⟩ := ih hsound hr
    exact ⟨hsound', hc.trans hc'⟩

/-- Whatever has been done, a collection gives back exactly the scopes that nothing outside the
idle scopes leads to, and leaves the others as they are. -/
theorem collect_exact (ops : List Op) {w : Session} (hr : initial.run ops = some w) :
    (∀ id s, w.store.scope? id = some s →
      ((w.store.collect w.roots).scope? id = none ↔ ¬w.store.Reaches w.roots (.scope id))) ∧
    ∀ id t, (w.store.collect w.roots).scope? id = some t →
      ∃ s, w.store.scope? id = some s ∧ t.parent = s.parent ∧ t.bindings = s.bindings ∧
        t.active = s.active := by
  have h : w.store.Intact w.roots := (run_sound initial_sound hr).1
  constructor
  · intro id s hs
    obtain ⟨hgone, hkept⟩ := h.scope?_collect hs
    refine ⟨fun hnone hreach => ?_, hgone⟩
    obtain ⟨t, ht, -⟩ := hkept hreach
    rw [hnone] at ht
    cases ht
  · intro id t ht
    obtain ⟨s, hs, he⟩ := h.collect.2.back ht
    rw [he]
    exact ⟨s, hs, rfl, rfl, rfl⟩

/-- Two finished scopes, each with a function in it that keeps it; one of the functions is also
held outside. -/
def twoLoops : List Op :=
  let make : List Op := [.function 0 [] (.mk [] default) ⟨[], .void⟩ none, .dropHandle 0]
  [.extend ⟨0⟩, .capture ⟨1⟩] ++ make ++ [.define ⟨1⟩ "f" 0, .dropValue 0, .release ⟨1⟩] ++
    [.extend ⟨0⟩, .capture ⟨2⟩] ++ make ++ [.define ⟨2⟩ "f" 0, .release ⟨2⟩]

theorem collect_exact_twoLoops : ∃ w, initial.run twoLoops = some w ∧
    ¬w.store.Reaches w.roots (.scope ⟨1⟩) ∧ w.store.Reaches w.roots (.scope ⟨2⟩) := by
  refine ⟨_, rfl, ?_, ?_⟩
  · exact ((collect_exact twoLoops rfl).1 ⟨1⟩ _ rfl).1 rfl
  · exact Classical.not_not.1 fun h =>
      nomatch ((collect_exact twoLoops rfl).1 ⟨2⟩ _ rfl).2 h

end Session

end TypedScript
