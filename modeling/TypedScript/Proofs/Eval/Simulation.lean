import TypedScript.Eval.Walk
import TypedScript.Proofs.Store.Keep
import TypedScript.Proofs.Store.Mirror

namespace TypedScript

namespace Eval

/-- What a computation gives, with the scopes in it named by their stamps, and the values that
it consists of. -/
class Observed (α : Type) where
  placeless : α → α
  held : α → List Value

open Observed (placeless held)

instance : Observed Value := ⟨Value.placeless, fun v => [v]⟩

instance : Observed (List Value) := ⟨List.map Value.placeless, id⟩

instance : Observed Bool := ⟨id, fun _ => []⟩

instance : Observed Unit := ⟨id, fun _ => []⟩

instance {α : Type} [Observed α] : Observed (Except Exit α) where
  placeless
    | .ok a => .ok (placeless a)
    | .error (.returned v) => .error (.returned v.placeless)
    | .error s => .error s
  held
    | .ok a => held a
    | .error (.returned v) => [v]
    | .error _ => []

theorem holdResult_eq (r : Roots) (x : Except Exit Value) : r.holdResult x = r.plus (held x) := by
  rcases x with (v | e | _) | v <;> rfl

/-- Two stores in the middle of the same run, with what is held outside of each. -/
structure World (σ τ : Store) (P : Roots × Roots) : Prop where
  left : σ.Intact P.1
  right : τ.Intact P.2
  mirrors : σ.Mirrors τ

theorem World.within {σ τ : Store} {P Q : Roots × Roots} (h : World σ τ P) (hl : Q.1.Within P.1)
    (hr : Q.2.Within P.2) : World σ τ Q := ⟨h.left.within hl, h.right.within hr, h.mirrors⟩

structure Here (σ τ : Store) (s t : Slot) : Prop where
  twins : σ.Twins τ s t
  left : ∀ {a}, σ.scope? s = some a → a.active
  right : ∀ {b}, τ.scope? t = some b → b.active

theorem Here.stays {σ τ σ' τ' : Store} {s t : Slot} (h : Here σ τ s t) (hl : σ.Stays σ')
    (hr : τ.Stays τ') : Here σ' τ' s t := by
  obtain ⟨a, b, ha, hb, hab⟩ := h.twins
  obtain ⟨a', ha', haa, hsa⟩ := hl.scope ha (h.left ha)
  obtain ⟨b', hb', hbb, hsb⟩ := hr.scope hb (h.right hb)
  refine ⟨⟨a', b', ha', hb', by omega⟩, fun {c} hc => ?_, fun {c} hc => ?_⟩
  · rw [ha'] at hc
    cases hc
    exact haa
  · rw [hb'] at hc
    cases hc
    exact hbb

variable {α β : Type} [Observed α] [Observed β]

structure Ends (σ τ : Store) (Q : Roots × Roots) (x y : Except Exit α × Store) : Prop where
  result : placeless x.1 = placeless y.1
  world : World x.2 y.2 (Q.1.plus (held x.1), Q.2.plus (held y.1))
  left : σ.Stays x.2
  right : τ.Stays y.2

structure Simulates (P Q : Roots × Roots) (s t : Slot) (m m' : Eval α) : Prop where
  run : ∀ {σ τ}, World σ τ P → Here σ τ s t → Ends σ τ Q (m σ) (m' τ)

theorem Ends.within {σ τ : Store} {P Q : Roots × Roots} {x y : Except Exit α × Store}
    (h : Ends σ τ P x y) (hl : Q.1.Within P.1) (hr : Q.2.Within P.2) : Ends σ τ Q x y :=
  ⟨h.result, h.world.within (hl.plus_same _) (hr.plus_same _), h.left, h.right⟩

theorem Ends.after {σ τ σ' τ' : Store} {Q : Roots × Roots} {x y : Except Exit α × Store}
    (hl : σ.Stays σ') (hr : τ.Stays τ') (h : Ends σ' τ' Q x y) : Ends σ τ Q x y :=
  ⟨h.result, h.world, hl.trans h.left, hr.trans h.right⟩

namespace Simulates

variable {P Q M : Roots × Roots} {s t : Slot} {m m' : Eval α}

theorem within (h : Simulates P M s t m m') {P' : Roots × Roots} (hl : P.1.Within P'.1)
    (hr : P.2.Within P'.2) (hl' : Q.1.Within M.1) (hr' : Q.2.Within M.2) :
    Simulates P' Q s t m m' where
  run hw hh := (h.run (hw.within hl hr) hh).within hl' hr'

theorem forget (h : Simulates P P s t m m') (vs ws : List Value) :
    Simulates (P.1.plus vs, P.2.plus ws) P s t m m' :=
  h.within (Roots.Within.plus_right (.refl _) vs) (Roots.Within.plus_right (.refl _) ws)
    (.refl _) (.refl _)

theorem bind {f f' : α → Eval β} (hm : Simulates P M s t m m') (hl : Q.1.Within M.1)
    (hr : Q.2.Within M.2) (hf : ∀ a b, placeless a = placeless b →
      Simulates (M.1.plus (held a), M.2.plus (held b)) Q s t (f a) (f' b)) :
    Simulates P Q s t (m >>= f) (m' >>= f') := by
  constructor
  intro σ τ hw hh
  have h := hm.run hw hh
  rw [bind_apply, bind_apply]
  rcases hx : m σ with ⟨(_ | _ | _) | a, σ'⟩ <;> rcases hy : m' τ with ⟨(_ | _ | _) | b, τ'⟩ <;>
    rw [hx, hy] at h <;> obtain ⟨hres, hworld, hleft, hright⟩ := h
  case ok.ok =>
    exact ((hf a b (Except.ok.inj hres)).run hworld (hh.stays hleft hright)).after hleft hright
  case error.returned.error.returned v w =>
    refine ⟨?_, hworld.within (hl.plus_same _) (hr.plus_same _), hleft, hright⟩
    exact congrArg Except.error (Except.error.inj hres)
  case error.failed.error.failed e e' =>
    cases hres
    exact ⟨rfl, hworld.within (hl.plus_same _) (hr.plus_same _), hleft, hright⟩
  case error.outOfFuel.error.outOfFuel =>
    exact ⟨rfl, hworld.within (hl.plus_same _) (hr.plus_same _), hleft, hright⟩
  all_goals cases hres

theorem pure {a b : α} (hab : placeless a = placeless b) (hl : (Q.1.plus (held a)).Within P.1)
    (hr : (Q.2.plus (held b)).Within P.2) :
    Simulates P Q s t (Pure.pure a : Eval α) (Pure.pure b) where
  run hw _ := ⟨congrArg Except.ok hab, hw.within hl hr, .refl _, .refl _⟩

theorem fail (hl : Q.1.Within P.1) (hr : Q.2.Within P.2) (e : EvalError) :
    Simulates P Q s t (Eval.fail e : Eval α) (Eval.fail e) where
  run hw _ := ⟨rfl, hw.within hl hr, .refl _, .refl _⟩

theorem outOfFuel (hl : Q.1.Within P.1) (hr : Q.2.Within P.2) :
    Simulates P Q s t (Eval.exit .outOfFuel : Eval α) (Eval.exit .outOfFuel) where
  run hw _ := ⟨rfl, hw.within hl hr, .refl _, .refl _⟩

end Simulates

section steps

variable {P : Roots × Roots} {s t : Slot}

theorem updateCells_simulates {f : Cells → Value × Cells} (hf : ∀ c, (f c).1.functions = []) :
    Simulates P P s t (updateCells f) (updateCells f) := by
  constructor
  intro σ τ hw hh
  have hcells := hw.mirrors.cells
  have hval : updateCells f τ = (.ok (f σ.cells).1, { τ with cells := (f σ.cells).2 }) := by
    rw [updateCells, hcells]
  rw [hval]
  refine ⟨rfl, ⟨?_, ?_, hw.mirrors.withCells _⟩, .of_scopes fun _ => rfl, .of_scopes fun _ => rfl⟩
  · exact (hw.left.withCells _).within (.plus_plain (.refl _) (hf _))
  · exact (hw.right.withCells _).within (.plus_plain (.refl _) (hf _))

theorem alloc_plain (c : Cells) (x : Scalar) : (c.alloc x).1.functions = [] := by cases x <;> rfl

theorem literal_plain (c : Cells) (v : Literal) : (c.literal v).1.functions = [] := by
  cases v <;> rfl

theorem stepInteger_plain (c : Cells) (op : StepOp) (before : Bool) (cell : Nat) :
    (c.stepInteger op before cell).1.functions = [] := by cases before <;> rfl

theorem stepFloat_plain (c : Cells) (op : StepOp) (before : Bool) (cell : Nat) :
    (c.stepFloat op before cell).1.functions = [] := by cases before <;> rfl

theorem literal_simulates (v : Literal) : Simulates P P s t (literal v) (literal v) :=
  updateCells_simulates fun c => literal_plain c v

theorem ofScalar_simulates (x : Except EvalError Scalar) :
    Simulates P P s t (ofScalar x) (ofScalar x) := by
  cases x with
  | error e => exact .fail (.refl _) (.refl _) e
  | ok x => exact updateCells_simulates fun c => alloc_plain c x

theorem unary_simulates (op : UnaryOp) {v w : Value} (h : v.placeless = w.placeless) :
    Simulates P P s t (unary op v) (unary op w) := by
  constructor
  intro σ τ hw hh
  have he : v.unary σ.cells op = w.unary τ.cells op := by
    rw [hw.mirrors.cells, Value.unary_eq_of_placeless _ h]
  have := (ofScalar_simulates (P := P) (w.unary τ.cells op)).run hw hh
  simpa [unary, he] using this

theorem slotsTell {σ : Store} {roots : Roots} (h : σ.Intact roots) {v w : Value}
    (hv : v ∈ roots.values) (hw : w ∈ roots.values) : Value.SlotsTell v w := by
  intro f hf g hg
  obtain ⟨a, ha, haf⟩ := Value.mem_closures.1 hf
  obtain ⟨b, hb, hbg⟩ := Value.mem_closures.1 hg
  obtain ⟨x, hx, hxs⟩ := h.home_holds (Store.carries_of_held hv a ha) haf
  obtain ⟨y, hy, hys⟩ := h.home_holds (Store.carries_of_held hw b hb) hbg
  constructor
  · intro he
    rw [he, hy] at hx
    cases hx
    omega
  · intro he
    exact h.stamp_inj hx hy (by omega)

theorem binary_simulates (op : BinaryOp) {v v' w w' : Value} (hv : v.placeless = v'.placeless)
    (hw : w.placeless = w'.placeless) :
    Simulates (P.1.plus [w, v], P.2.plus [w', v']) P s t (binary op v w) (binary op v' w') := by
  constructor
  intro σ τ hworld hh
  have htell : Value.SlotsTell v w :=
    slotsTell hworld.left (by simp [Roots.plus]) (by simp [Roots.plus])
  have htell' : Value.SlotsTell v' w' :=
    slotsTell hworld.right (by simp [Roots.plus]) (by simp [Roots.plus])
  have he : Value.binary σ.cells op v w = Value.binary τ.cells op v' w' := by
    rw [hworld.mirrors.cells, Value.binary_eq_of_placeless _ hv hw htell htell']
  have := ((ofScalar_simulates (Value.binary τ.cells op v' w')).forget [w, v] [w', v']).run
    hworld hh
  simpa [binary, he] using this

theorem truthy_simulates {v w : Value} (h : v.placeless = w.placeless) :
    Simulates P P s t (truthy v) (truthy w) := by
  constructor
  intro σ τ hw hh
  refine ⟨?_, hw, .refl _, .refl _⟩
  rw [truthy, truthy, gets_apply, gets_apply, hw.mirrors.cells,
    Value.truthy_eq_of_placeless σ.cells h]

theorem World.hold {σ τ : Store} (h : World σ τ P) {v w : Value} (hv : σ.Carries P.1 v)
    (hw : τ.Carries P.2 w) : World σ τ (P.1.plus [v], P.2.plus [w]) :=
  ⟨h.left.hold hv, h.right.hold hw, h.mirrors⟩

theorem lookup_simulates (name : String) : Simulates P P s t (lookup s name) (lookup t name) := by
  constructor
  intro σ τ hw hh
  have h := hw.mirrors.lookup? hw.left.toTidy hw.right.toTidy hh.twins name
  cases hσ : σ.lookup? s name with
  | none =>
    cases hτ : τ.lookup? t name with
    | none => simpa [lookup, hσ, hτ] using (Simulates.fail (.refl _) (.refl _) _).run hw hh
    | some w => simp [hσ, hτ] at h
  | some v =>
    cases hτ : τ.lookup? t name with
    | none => simp [hσ, hτ] at h
    | some w =>
      simp only [hσ, hτ, Option.map_some, Option.some.injEq] at h
      have hworld := hw.hold (Store.carries_of_lookup? hσ) (Store.carries_of_lookup? hτ)
      simpa [lookup, hσ, hτ] using
        (Simulates.pure h.symm (.refl _) (.refl _)).run hworld hh

theorem bind_world {σ τ : Store} (h : World σ τ P) {p q : Slot} (hpq : σ.Twins τ p q)
    (name : String) {v w : Value} (hvw : v.placeless = w.placeless) (hv : v ∈ P.1.values)
    (hw : w ∈ P.2.values) : World (σ.bind p name v) (τ.bind q name w) P :=
  ⟨h.left.bind p name (Store.carries_of_held hv), h.right.bind q name (Store.carries_of_held hw),
    h.mirrors.bind h.left.toTidy h.right.toTidy hpq name hvw⟩

theorem assign_simulates (name : String) {v w : Value} (hvw : v.placeless = w.placeless) :
    Simulates (P.1.plus [v], P.2.plus [w]) P s t (assign s name v) (assign t name w) := by
  constructor
  intro σ τ hworld hh
  obtain ⟨hσ, hτ⟩ | ⟨a, b, hσ, hτ, hab⟩ :=
    hworld.mirrors.binder? hworld.left.toTidy hworld.right.toTidy hh.twins name
  · simpa [assign, hσ, hτ] using
      ((Simulates.fail (.refl _) (.refl _) _).forget [v] [w]).run hworld hh
  · have hbound := bind_world hworld hab name hvw List.mem_cons_self List.mem_cons_self
    have hends : Ends σ τ P (.ok v, σ.bind a name v) (.ok w, τ.bind b name w) :=
      ⟨congrArg Except.ok hvw, hbound, .bind _ _ _ _, .bind _ _ _ _⟩
    simpa [assign, hσ, hτ] using hends

theorem step_placeless (op : StepOp) (before : Bool) (name : String) (v : Value) :
    step op before name v.placeless = step op before name v := by cases v <;> rfl

theorem step_simulates (op : StepOp) (before : Bool) (name : String) {v w : Value}
    (hvw : v.placeless = w.placeless) :
    Simulates P P s t (step op before name v) (step op before name w) := by
  rw [← step_placeless, hvw, step_placeless]
  cases w with
  | integer c => exact updateCells_simulates fun cells => stepInteger_plain cells op before c
  | float c => exact updateCells_simulates fun cells => stepFloat_plain cells op before c
  | _ => exact .fail (.refl _) (.refl _) _

theorem mapHome_withId {f g : Closure} {k : Handle → Handle} (h : f.mapHome k = g.mapHome k)
    (id : Nat) : ({ f with id } : Closure).mapHome k = ({ g with id } : Closure).mapHome k := by
  simp only [Closure.mapHome, Closure.mk.injEq] at h ⊢
  exact ⟨trivial, h.2⟩

theorem member?_mirrors {σ τ : Store} (h : σ.Mirrors τ) {v w : Value}
    (hvw : v.placeless = w.placeless) (ty : Ty) (name : String) :
    (σ.member? v ty name = none ∧ τ.member? w ty name = none) ∨
      ∃ a b σ' τ', σ.member? v ty name = some (a, σ') ∧ τ.member? w ty name = some (b, τ') ∧
        a.placeless = b.placeless ∧ σ'.Mirrors τ' ∧ (∀ j, σ'.scope? j = σ.scope? j) ∧
        ∀ j, τ'.scope? j = τ.scope? j := by
  have hget := congrArg (Dict.get? · (ty, name)) h.members
  simp only [Dict.get?_mapValues] at hget
  rw [Store.member?, Store.member?]
  cases hm : σ.members.get? (ty, name) with
  | none =>
    rw [hm, Option.map_none, Option.map_eq_none_iff] at hget
    exact .inl ⟨rfl, by rw [hget]⟩
  | some m =>
    rw [hm, Option.map_some, Option.map_eq_some_iff] at hget
    obtain ⟨m', hm', hmm⟩ := hget
    rw [hm']
    refine .inr ?_
    cases m with
    | field a =>
      cases m' with
      | method g r => cases hmm
      | field b =>
        exact ⟨a, b, σ, τ, rfl, rfl, (Member.field.inj hmm).symm, h, fun _ => rfl, fun _ => rfl⟩
    | method f r =>
      cases m' with
      | field b => cases hmm
      | method g r' =>
        refine ⟨_, _, _, _, rfl, rfl, ?_, ?_, fun _ => rfl, fun _ => rfl⟩
        · have hf := mapHome_withId (Member.method.inj hmm).1.symm σ.fresh
          rw [h.fresh]
          exact congrArg₂ Value.bound hf hvw
        · rw [h.fresh]
          exact h.withFresh _

theorem member_simulates {v w : Value} (hvw : v.placeless = w.placeless) (ty : Ty) (name : String) :
    Simulates (P.1.plus [v], P.2.plus [w]) P s t (member v ty name) (member w ty name) := by
  constructor
  intro σ τ hworld hh
  rw [member, member]
  obtain ⟨hσ, hτ⟩ | ⟨a, b, σ', τ', hσ, hτ, hab, hmirrors, hl, hr⟩ :=
    member?_mirrors hworld.mirrors hvw ty name
  · rw [hσ, hτ]
    exact ((Simulates.fail (.refl _) (.refl _) _).forget [v] [w]).run hworld hh
  · have hleft := hworld.left.member (Store.carries_of_held List.mem_cons_self) hσ
    have hright := hworld.right.member (Store.carries_of_held List.mem_cons_self) hτ
    rw [hσ, hτ]
    refine ⟨congrArg Except.ok hab, ⟨hleft.within ?_, hright.within ?_, hmirrors⟩,
      .of_scopes hl, .of_scopes hr⟩
    · exact Roots.Within.plus_same (.plus_right (.refl _) [v]) [a]
    · exact Roots.Within.plus_same (.plus_right (.refl _) [w]) [b]

theorem newClosure_world {σ τ : Store} (hw : World σ τ P) (hh : Here σ τ s t)
    (parameters : List String) (body : Block) (signature : Signature) :
    ∃ f g σ' τ', σ.newClosure parameters body signature s = (f, σ') ∧
      τ.newClosure parameters body signature t = (g, τ') ∧
      (Value.function f).placeless = (Value.function g).placeless ∧
      World σ' τ' (P.1.plus [.function f], P.2.plus [.function g]) ∧
      (∀ j, σ'.scope? j = σ.scope? j) ∧ ∀ j, τ'.scope? j = τ.scope? j := by
  obtain ⟨a, b, ha, hb, hab⟩ := hh.twins
  rw [Store.newClosure, Store.newClosure, Store.handleFor, Store.handleFor, ha, hb]
  refine ⟨_, _, _, _, rfl, rfl, ?_, ⟨?_, ?_, ?_⟩, fun _ => rfl, fun _ => rfl⟩
  · simp only [Value.placeless, Value.mapHomes, Closure.mapHome, hab, hw.mirrors.fresh]
  · exact hw.left.holdNew none rfl ⟨a, ha, rfl⟩ fun _ h => by cases h
  · exact hw.right.holdNew none rfl ⟨b, hb, rfl⟩ fun _ h => by cases h
  · rw [hw.mirrors.fresh]
    exact hw.mirrors.withFresh _

theorem Twins_of_scopes {σ τ σ' τ' : Store} {p q : Slot} (h : σ.Twins τ p q)
    (hl : ∀ j, σ'.scope? j = σ.scope? j) (hr : ∀ j, τ'.scope? j = τ.scope? j) :
    σ'.Twins τ' p q := by
  obtain ⟨a, b, ha, hb, hab⟩ := h
  exact ⟨a, b, (hl p).trans ha, (hr q).trans hb, hab⟩

theorem defineFunction_simulates (heading : Heading) (body : Block) :
    Simulates P P s t (defineFunction s heading body) (defineFunction t heading body) := by
  constructor
  intro σ τ hw hh
  obtain ⟨f, g, σ', τ', hf, hg, hfg, hworld, hl, hr⟩ :=
    newClosure_world hw hh heading.boundNames body heading.signature
  have htwins := Twins_of_scopes hh.twins hl hr
  have hstays := Store.Stays.of_scopes hl
  have hstays' := Store.Stays.of_scopes hr
  have hcarries : σ'.Carries (P.1.plus [.function f]) (.function f) :=
    Store.carries_of_held List.mem_cons_self
  have hcarries' : τ'.Carries (P.2.plus [.function g]) (.function g) :=
    Store.carries_of_held List.mem_cons_self
  simp only [defineFunction, bind_apply, update_apply, hf, hg]
  cases heading.receiver with
  | some ty =>
    have hmember : (Member.method f none).placeless = (Member.method g none).placeless := by
      simpa [Member.placeless, Value.placeless, Value.mapHomes] using hfg
    refine ⟨rfl, ⟨?_, ?_, ?_⟩, .trans hstays (.of_scopes fun _ => rfl),
      .trans hstays' (.of_scopes fun _ => rfl)⟩
    · exact (hworld.left.setMethod ty heading.name none hcarries).release
    · exact (hworld.right.setMethod ty heading.name none hcarries').release
    · exact hworld.mirrors.insertMember _ hmember
  | none =>
    refine ⟨rfl, ⟨?_, ?_, ?_⟩, hstays.trans (.bind _ _ _ _), hstays'.trans (.bind _ _ _ _)⟩
    · exact (hworld.left.bind s heading.name hcarries).release
    · exact (hworld.right.bind t heading.name hcarries').release
    · exact hworld.mirrors.bind hworld.left.toTidy hworld.right.toTidy htwins heading.name hfg

theorem defineValue_simulates (receiver : Option Ty) (name : String) {v w : Value}
    (hvw : v.placeless = w.placeless) :
    Simulates (P.1.plus [v], P.2.plus [w]) P s t
      (defineValue s receiver name v) (defineValue t receiver name w) := by
  constructor
  intro σ τ hworld hh
  cases receiver with
  | some ty =>
    have hmember : (Member.field v).placeless = (Member.field w).placeless :=
      congrArg Member.field hvw
    refine ⟨rfl, ⟨?_, ?_, hworld.mirrors.insertMember _ hmember⟩,
      .of_scopes fun _ => rfl, .of_scopes fun _ => rfl⟩
    · exact (hworld.left.setField ty name (Store.carries_of_held List.mem_cons_self)).release
    · exact (hworld.right.setField ty name (Store.carries_of_held List.mem_cons_self)).release
  | none =>
    have hbound := bind_world hworld hh.twins name hvw List.mem_cons_self List.mem_cons_self
    exact ⟨rfl, ⟨hbound.left.release, hbound.right.release, hbound.mirrors⟩,
      .bind _ _ _ _, .bind _ _ _ _⟩

theorem defineAll_simulates (names : List String) {vs ws : List Value}
    (hvw : vs.map Value.placeless = ws.map Value.placeless) (hl : ∀ v ∈ vs, v ∈ P.1.values)
    (hr : ∀ w ∈ ws, w ∈ P.2.values) :
    Simulates P P s t (defineAll s (names.zip vs)) (defineAll t (names.zip ws)) := by
  induction names generalizing vs ws with
  | nil => exact .pure rfl (.refl _) (.refl _)
  | cons name names ih =>
    cases vs with
    | nil =>
      cases ws with
      | nil => exact .pure rfl (.refl _) (.refl _)
      | cons w ws => cases hvw
    | cons v vs =>
      cases ws with
      | nil => cases hvw
      | cons w ws =>
        rw [List.map_cons, List.map_cons, List.cons.injEq] at hvw
        rw [List.forall_mem_cons] at hl hr
        have hone : Simulates P P s t (modify (·.bind s name v)) (modify (·.bind t name w)) := by
          constructor
          intro σ τ hworld hh
          exact ⟨rfl, bind_world hworld hh.twins name hvw.1 hl.1 hr.1, .bind _ _ _ _, .bind _ _ _ _⟩
        exact hone.bind (.refl _) (.refl _) fun _ _ _ => ih hvw.2 hl.2 hr.2

theorem inScope_ends {R : Reclaimer} (hR : R.Sound) {σ τ : Store} {Q : Roots × Roots}
    (hw : World σ τ P) {p q : Slot} (hpq : σ.Twins τ p q) {run run' : Slot → Eval Value}
    (hrun : ∀ s t, Simulates P Q s t (run s) (run' t)) :
    Ends σ τ Q (inScope R Q.1 p run σ) (inScope .never Q.2 q run' τ) := by
  have hf := hw.left.freeIsEmpty
  have hf' := hw.right.freeIsEmpty
  obtain ⟨hmirrors, htwins⟩ := hw.mirrors.openScope hw.left.toTidy hw.right.toTidy hpq
  obtain ⟨a, b, ha, hb, hab⟩ := hpq
  have hopen : World (σ.openScope p).2 (τ.openScope q).2 P :=
    ⟨hw.left.openScope ha, hw.right.openScope hb, hmirrors⟩
  have hhere : Here (σ.openScope p).2 (τ.openScope q).2 (σ.openScope p).1 (τ.openScope q).1 := by
    refine ⟨htwins, fun hs => ?_, fun ht => ?_⟩
    · rw [Store.scope?_openScope hf, if_pos rfl] at hs
      cases hs
      rfl
    · rw [Store.scope?_openScope hf', if_pos rfl] at ht
      cases ht
      rfl
  obtain ⟨hres, hworld, hleft, hright⟩ :=
    (hrun (σ.openScope p).1 (τ.openScope q).1).run hopen hhere
  have hend : ∀ (R : Reclaimer) (roots : Roots) (p : Slot) (run : Slot → Eval Value) (σ : Store),
      inScope R roots p run σ =
        ((run (σ.openScope p).1 (σ.openScope p).2).1,
          R.close (run (σ.openScope p).1 (σ.openScope p).2).2
            (roots.plus (held (run (σ.openScope p).1 (σ.openScope p).2).1)) (σ.openScope p).1) := by
    intro R roots p run σ
    simp [inScope, holdResult_eq]
  rw [hend, hend]
  have hstays := (Store.Stays.openScope hf p).trans hleft
  have hstays' := (Store.Stays.openScope hf' q).trans hright
  have hthere := hhere.stays hleft hright
  refine ⟨hres, ⟨hR.intact _ hworld.left, Reclaimer.never_sound.intact _ hworld.right, ?_⟩,
    hR.stays hworld.left hstays (Store.scope?_openScope_slot hf p),
    Reclaimer.never_sound.stays hworld.right hstays' (Store.scope?_openScope_slot hf' q)⟩
  have hidle := hworld.mirrors.deactivate hworld.left.toTidy hworld.right.toTidy hthere.twins
  exact hidle.prunes (hR.prunes _ hworld.left) (hR.intact _ hworld.left).toTidy

end steps

end Eval

end TypedScript
