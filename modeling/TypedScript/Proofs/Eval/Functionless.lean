import TypedScript.Proofs.Eval.Balance

namespace TypedScript

mutual
def Stmt.functionless : Stmt → Bool
  | .func .. => false
  | .block b => b.functionless
  | .cond _ yes no _ => yes.functionless && Stmt.functionlessOption no
  | .loop _ body _ => body.functionless
  | _ => true

def Stmt.functionlessOption : Option Stmt → Bool
  | none => true
  | some s => s.functionless

def Block.functionless : Block → Bool
  | .mk ss _ => Stmt.functionlessAll ss

def Stmt.functionlessAll : List Stmt → Bool
  | [] => true
  | s :: ss => s.functionless && Stmt.functionlessAll ss
end

structure Roots.Plain (r : Roots) : Prop where
  values : ∀ v ∈ r.values, v.functions = []
  handles : r.handles = []

namespace Roots.Plain

variable {r : Roots}

theorem none : Roots.none.Plain := ⟨nofun, rfl⟩

theorem plus (h : r.Plain) (vs : List Value) (hv : ∀ v ∈ vs, v.functions = []) :
    (r.plus vs).Plain where
  values v hmem := (List.mem_append.1 hmem).elim (hv v) (h.values v)
  handles := h.handles

theorem hold (h : r.Plain) {v : Value} (hv : v.functions = []) : (r.hold v).Plain :=
  h.plus [v] fun w hw => by rwa [List.mem_singleton.1 hw]

end Roots.Plain

namespace Store

/-- A store without functions, in which no scope is idle. -/
structure Bare (σ : Store) : Prop where
  intact : σ.Intact .none
  active : ∀ {id s}, σ.scope? id = some s → s.active
  unknown : ∀ {a}, ¬σ.Knows .none a

namespace Bare

variable {σ τ : Store} {r : Roots}

theorem initial : Store.initial.Bare where
  intact := .initial
  active {id s} hs := by
    obtain ⟨_ | i⟩ := id
    · cases hs
      rfl
    · cases hs
  unknown {a} := by
    rintro ⟨v, hv, -⟩
    obtain ⟨⟨_ | i⟩, s, hs, hb⟩ | ⟨m, hm, -⟩ | hr := mem_referenced.1 hv
    · cases hs
      cases hb
    · cases hs
    · cases hm
    · cases hr

theorem plain_of_carries (h : σ.Bare) {v : Value} (hv : σ.Carries .none v) : v.functions = [] :=
  List.eq_nil_iff_forall_not_mem.2 fun a ha => h.unknown (hv a ha)

theorem carries (σ : Store) (r : Roots) {v : Value} (hv : v.functions = []) : σ.Carries r v := by
  intro a ha
  rw [hv] at ha
  cases ha

theorem within (h : σ.Bare) (hr : r.Plain) : σ.Intact r := by
  refine h.intact.within ⟨fun v hv a ha => ?_, fun x hx => ?_⟩
  · rw [hr.values v hv] at ha
    cases ha
  · rw [hr.handles] at hx
    cases hx

theorem isHeld (h : σ.Bare) (hr : r.Plain) (stamp : Nat) : σ.isHeld r stamp = false := by
  simp only [Store.isHeld, hr.handles, List.any_nil, Bool.false_or, List.any_eq_false, beq_iff_eq,
    Bool.not_eq_true]
  intro v hv f hf
  obtain ⟨a, ha, -⟩ := Value.mem_closures.1 hf
  obtain hv | hv | hv := mem_referenced.1 hv
  · exact absurd ⟨v, mem_referenced.2 (.inl hv), ha⟩ h.unknown
  · exact absurd ⟨v, mem_referenced.2 (.inr (.inl hv)), ha⟩ h.unknown
  · rw [hr.values v hv] at ha
    cases ha

theorem withCells (h : σ.Bare) (cells : Cells) : ({ σ with cells } : Store).Bare :=
  ⟨h.intact.withCells cells, h.active, h.unknown⟩

theorem unknown_of_carries (h : σ.Bare)
    (hτ : ∀ {v}, v ∈ τ.referenced .none → σ.Carries .none v) {a : Value} : ¬τ.Knows .none a :=
  fun ha => h.unknown (knows_of_carries hτ ha)

theorem bind (h : σ.Bare) (id : Slot) (x : String) {v : Value} (hv : v.functions = []) :
    (σ.bind id x v).Bare where
  intact := h.intact.bind id x (carries σ _ hv)
  active {j t} ht := by
    rw [scope?_bind] at ht
    split at ht
    · obtain ⟨s, hs, rfl⟩ := Option.map_eq_some_iff.1 ht
      exact (h.active hs : s.active)
    · exact h.active ht
  unknown := by
    refine h.unknown_of_carries fun hw => ?_
    obtain ⟨j, t, ht, hw⟩ | hw := mem_referenced.1 hw
    · rw [scope?_bind] at ht
      split at ht
      · obtain ⟨s, hs, rfl⟩ := Option.map_eq_some_iff.1 ht
        obtain rfl | hw := Dict.mem_values_insert hw
        · exact carries σ _ hv
        · exact carries_of_bound hs hw
      · exact carries_of_bound ht hw
    · exact carries_of_mem (mem_referenced.2 (.inr hw))

theorem setField (h : σ.Bare) (ty : Ty) (x : String) {v : Value} (hv : v.functions = []) :
    (σ.setField ty x v).Bare where
  intact := h.intact.setField ty x (carries σ _ hv)
  active := h.active
  unknown := by
    refine h.unknown_of_carries fun hw => ?_
    obtain hw | ⟨m, hm, rfl⟩ | hw := mem_referenced.1 hw
    · exact carries_of_mem (mem_referenced.2 (.inl hw))
    · obtain rfl | hm := Dict.mem_values_insert hm
      · exact carries σ _ hv
      · exact carries_of_member hm
    · cases hw

theorem openScope (h : σ.Bare) {parent : Slot} {p : Scope} (hp : σ.scope? parent = some p) :
    (σ.openScope parent).2.Bare where
  intact := h.intact.openScope hp
  active {j t} ht := by
    rw [scope?_openScope h.intact.freeIsEmpty] at ht
    split at ht
    · cases ht
      rfl
    · split at ht
      · obtain ⟨s, hs, rfl⟩ := Option.map_eq_some_iff.1 ht
        exact (h.active hs : s.active)
      · exact h.active ht
  unknown := by
    refine h.unknown_of_carries fun hw => ?_
    obtain ⟨j, t, ht, hw⟩ | hw := mem_referenced.1 hw
    · rw [scope?_openScope h.intact.freeIsEmpty] at ht
      split at ht
      · cases ht
        cases hw
      · split at ht
        · obtain ⟨s, hs, rfl⟩ := Option.map_eq_some_iff.1 ht
          exact carries_of_bound hs hw
        · exact carries_of_bound ht hw
    · rw [openScope_members] at hw
      exact carries_of_mem (mem_referenced.2 (.inr hw))

end Bare

theorem mem_referenced_of_deactivate {σ : Store} {r : Roots} {id : Slot} {v : Value}
    (h : v ∈ (σ.deactivate id).referenced r) : v ∈ σ.referenced r := by
  rw [mem_referenced] at h ⊢
  refine h.imp (fun ⟨j, t, ht, hv⟩ => ?_) fun hv => hv
  rw [deactivate, scope?_modifyScope] at ht
  split at ht
  · obtain ⟨s, hs, rfl⟩ := Option.map_eq_some_iff.1 ht
    exact ⟨id, s, hs, hv⟩
  · exact ⟨j, t, ht, hv⟩

theorem Prunes.scope?_eq_none {σ τ : Store} (h : σ.Prunes τ) {id : Slot}
    (hs : σ.scope? id = none) : τ.scope? id = none := by
  cases ht : τ.scope? id with
  | none => rfl
  | some t =>
    obtain ⟨s, hs', -⟩ := h.back ht
    rw [hs] at hs'
    cases hs'

theorem Intact.scope?_close_eq_none {σ : Store} {r : Roots} (h : σ.Intact r) {id : Slot}
    {s : Scope} (hs : σ.scope? id = some s) (hc : s.children = 0)
    (hh : (σ.deactivate id).isHeld r s.stamp = false) : (σ.close r id).scope? id = none := by
  have hs' : (σ.deactivate id).scope? id = some { s with active := false } := by
    rw [Store.deactivate, scope?_modifyScope, if_pos rfl, hs]
    rfl
  obtain ⟨hi, -⟩ := (h.deactivate id).sweep_single hs' rfl hc hh
  have hgone : ((σ.deactivate id).sweep [(id.index, { s with active := false })]).scope? id =
      none := by
    rw [scope?_sweep, if_pos (by simp)]
  have hback : ((σ.deactivate id).giveBack r (σ.live + 1) id).Intact r ∧
      ((σ.deactivate id).giveBack r (σ.live + 1) id).scope? id = none := by
    rw [giveBack_succ, hs']
    dsimp only
    rw [if_pos ⟨rfl, hc, hh⟩]
    split
    · exact ⟨hi, hgone⟩
    · rename_i parent _
      obtain ⟨hi', hp⟩ := hi.giveBack σ.live parent
      exact ⟨hi', hp.scope?_eq_none hgone⟩
  rw [Store.close, hs]
  dsimp only
  split
  · exact hback.1.collect.2.scope?_eq_none hback.2
  · exact hback.2

theorem Bare.children_eq_zero {σ τ : Store} (hσ : σ.Intact .none) (hτ : τ.Bare) {parent : Slot}
    {p s : Scope} (hp : σ.scope? parent = some p)
    (hact : τ.activity = (σ.openScope parent).2.activity)
    (hs : τ.scope? (σ.openScope parent).1 = some s) : s.children = 0 := by
  have hf := hσ.freeIsEmpty
  have hnew := scope?_openScope_slot hf parent
  have hno : τ.offspring (σ.openScope parent).1 = ∅ := by
    apply Finset.eq_empty_of_forall_notMem
    intro i hi
    obtain ⟨t, ht, htp⟩ := mem_offspring.1 hi
    have hx : (σ.openScope parent).2.activity ⟨i⟩ = some (t.stamp, t.parent) := by
      rw [← hact]
      exact activity_eq_some.2 ⟨t, ht, hτ.active ht, rfl⟩
    obtain ⟨u, hu, -, hux⟩ := activity_eq_some.1 hx
    have hup : u.parent = some (σ.openScope parent).1 := (Prod.mk.inj hux).2.trans htp
    -- the new scope is its own child only if its parent were new too
    obtain ⟨-, rfl⟩ | ⟨u', hu', hpar, -⟩ := openScope_back hf hu
    · rw [← Option.some.inj hup, hp] at hnew
      cases hnew
    · obtain ⟨v, hv, -⟩ := hσ.parent_older hu' (hpar.symm.trans hup)
      rw [hnew] at hv
      cases hv
  rw [hτ.intact.children_eq hs, hno]
  rfl

theorem Bare.close {σ τ : Store} {r : Roots} (hr : r.Plain) (hσ : σ.Intact .none) (hτ : τ.Bare)
    {parent : Slot} {p : Scope} (hp : σ.scope? parent = some p)
    (hact : τ.activity = (σ.openScope parent).2.activity) :
    (τ.close r (σ.openScope parent).1).Bare ∧
      (τ.close r (σ.openScope parent).1).activity = σ.activity := by
  have hf := hσ.freeIsEmpty
  have hi := hτ.within hr
  have hprunes := (hi.close (σ.openScope parent).1).2
  have hx : τ.activity (σ.openScope parent).1 = some (σ.fresh, some parent) := by
    rw [hact, activity_openScope hf, Function.update_self]
  obtain ⟨s, hs, -, -⟩ := activity_eq_some.1 hx
  have hidle : (τ.deactivate (σ.openScope parent).1).isHeld r s.stamp = false := by
    have hheld := hτ.isHeld hr s.stamp
    simp only [Store.isHeld, Bool.or_eq_false_iff, List.any_eq_false] at hheld ⊢
    exact ⟨hheld.1, fun v hv => hheld.2 v (mem_referenced_of_deactivate hv)⟩
  have hgone := hi.scope?_close_eq_none hs (children_eq_zero hσ hτ hp hact hs) hidle
  refine ⟨⟨?_, ?_, ?_⟩, ?_⟩
  · exact (hi.close _).1.weaken (List.forall_mem_nil _) (List.forall_mem_nil _)
  · intro j t ht
    obtain ⟨u, hu, he⟩ := hprunes.back ht
    have hne : (σ.openScope parent).1 ≠ j := by
      rintro rfl
      rw [hgone] at ht
      cases ht
    rw [deactivate, scope?_modifyScope, if_neg hne] at hu
    rw [he]
    exact (hτ.active hu : u.active)
  · intro a ha
    refine hτ.unknown_of_carries (fun hv => ?_) (hprunes.knows ha)
    exact carries_of_mem (mem_referenced_of_deactivate hv)
  · rw [hprunes.activity_eq, activity_deactivate, hact, activity_openScope hf,
      Function.update_idem, ← activity_of_none (scope?_openScope_slot hf parent),
      Function.update_eq_self]

end Store

namespace Eval

open Observed (held)

variable {α β : Type}

structure Sheds [Observed α] (s : Slot) (m : Eval α) : Prop where
  run : ∀ {σ a}, σ.Bare → σ.scope? s = some a →
    (m σ).2.Bare ∧ (m σ).2.activity = σ.activity ∧ ∀ v ∈ held (m σ).1, v.functions = []

namespace Sheds

variable [Observed α] [Observed β] {s : Slot} {m : Eval α} {f : α → Eval β}

theorem bind (hm : Sheds s m) (hf : ∀ a, (∀ v ∈ held a, v.functions = []) → Sheds s (f a)) :
    Sheds s (m >>= f) where
  run {σ a} hσ ha := by
    obtain ⟨hbare, hact, hplain⟩ := hm.run hσ ha
    obtain ⟨b, hb, -⟩ := Store.activity_eq_some.1
      ((congrFun hact s).trans (Store.activity_eq_some.2 ⟨a, ha, hσ.active ha, rfl⟩))
    rw [bind_apply]
    rcases hx : m σ with ⟨(_ | _ | _) | v, σ'⟩ <;> rw [hx] at hbare hact hplain hb
    case ok =>
      obtain ⟨hbare', hact', hplain'⟩ := (hf v hplain).run hbare hb
      exact ⟨hbare', hact'.trans hact, hplain'⟩
    all_goals exact ⟨hbare, hact, hplain⟩

theorem pure {a : α} (ha : ∀ v ∈ held a, v.functions = []) : Sheds s (Pure.pure a : Eval α) :=
  ⟨fun hσ _ => ⟨hσ, rfl, ha⟩⟩

theorem void : Sheds s (Pure.pure Value.void : Eval Value) :=
  pure fun _ hv => by cases List.mem_singleton.1 hv; rfl

theorem boolean (b : Bool) : Sheds s (Pure.pure (Value.boolean b) : Eval Value) :=
  pure fun _ hv => by cases List.mem_singleton.1 hv; rfl

theorem fail (e : EvalError) : Sheds s (Eval.fail e : Eval α) := ⟨fun hσ _ => ⟨hσ, rfl, nofun⟩⟩

theorem outOfFuel : Sheds s (Eval.exit .outOfFuel : Eval α) := ⟨fun hσ _ => ⟨hσ, rfl, nofun⟩⟩

theorem returned {v : Value} (hv : v.functions = []) :
    Sheds s (Eval.exit (.returned v) : Eval Value) :=
  ⟨fun hσ _ => ⟨hσ, rfl, fun w hw => by rwa [List.mem_singleton.1 hw]⟩⟩

theorem test (v : Value) {f : Bool → Eval β} (hf : ∀ b, Sheds s (f b)) :
    Sheds s (truthy v >>= f) :=
  ⟨fun {σ _} hσ ha => (hf (v.truthy σ.cells)).run hσ ha⟩

theorem updateCells {f : Cells → Value × Cells} (hf : ∀ c, (f c).1.functions = []) :
    Sheds s (Eval.updateCells f) :=
  ⟨fun hσ _ => ⟨hσ.withCells _, rfl, fun v hv => by rw [List.mem_singleton.1 hv]; exact hf _⟩⟩

end Sheds

section steps

variable {s : Slot} {v w : Value} {x : String}

theorem ofScalar_sheds (y : Except EvalError Scalar) : Sheds s (ofScalar y) := by
  cases y with
  | error e => exact .fail e
  | ok y => exact .updateCells fun c => alloc_plain c y

theorem unary_sheds (op : UnaryOp) (v : Value) : Sheds s (unary op v) :=
  ⟨fun {σ _} hσ ha => (ofScalar_sheds (v.unary σ.cells op)).run hσ ha⟩

theorem binary_sheds (op : BinaryOp) (v w : Value) : Sheds s (binary op v w) :=
  ⟨fun {σ _} hσ ha => (ofScalar_sheds (Value.binary σ.cells op v w)).run hσ ha⟩

theorem lookup_sheds (x : String) : Sheds s (lookup s x) where
  run {σ a} hσ ha := by
    cases hx : σ.lookup? s x with
    | none => simpa [lookup, hx] using (Sheds.fail _).run hσ ha
    | some v =>
      have hv := hσ.plain_of_carries (Store.carries_of_lookup? hx)
      have h := (Sheds.pure (s := s) (a := v)
        fun w hw => by rwa [List.mem_singleton.1 hw]).run hσ ha
      simpa [lookup, hx] using h

theorem assign_sheds (hv : v.functions = []) : Sheds s (assign s x v) where
  run {σ a} hσ ha := by
    cases hx : σ.binder? s x with
    | none => simpa [assign, hx] using (Sheds.fail _).run hσ ha
    | some p =>
      have hm : assign s x v σ = (.ok v, σ.bind p x v) := by simp [assign, hx]
      rw [hm]
      refine ⟨hσ.bind p x hv, Store.activity_bind p x v, fun w hw => ?_⟩
      rwa [List.mem_singleton.1 hw]

theorem step_sheds (op : StepOp) (before : Bool) (x : String) (v : Value) :
    Sheds s (step op before x v) := by
  cases v with
  | integer c => exact .updateCells fun cells => stepInteger_plain cells op before c
  | float c => exact .updateCells fun cells => stepFloat_plain cells op before c
  | _ => exact .fail _

theorem member_sheds (v : Value) (ty : Ty) (x : String) : Sheds s (member v ty x) where
  run {σ a} hσ ha := by
    rcases hm : σ.members.get? (ty, x) with _ | (w | ⟨f, own⟩)
    · have h := (Sheds.fail (α := Value) (.unknownMember ty x)).run hσ ha
      simpa [member, Store.member?, hm, Eval.fail] using h
    · have hx : member v ty x σ = (.ok w, σ) := by simp [member, Store.member?, hm]
      have hw := hσ.plain_of_carries (Store.carries_of_member (Dict.mem_values_of_get? hm))
      rw [hx]
      exact ⟨hσ, rfl, fun u hu => by rwa [List.mem_singleton.1 hu]⟩
    · have hw := hσ.plain_of_carries (Store.carries_of_member (Dict.mem_values_of_get? hm))
      rw [Member.value, Value.functions_ofFunction] at hw
      cases hw

theorem defineValue_sheds (receiver : Option Ty) (hv : v.functions = []) :
    Sheds s (defineValue s receiver x v) where
  run {σ a} hσ ha := by
    cases receiver with
    | some ty => exact ⟨hσ.setField ty x hv, rfl, nofun⟩
    | none => exact ⟨hσ.bind s x hv, Store.activity_bind s x v, nofun⟩

theorem inScope_sheds {r : Roots} (hr : r.Plain) {run : Slot → Eval Value}
    (hrun : ∀ s, Sheds s (run s)) : Sheds s (inScope .standard r s run) where
  run {σ a} hσ ha := by
    have hnew : (σ.openScope s).2.scope? (σ.openScope s).1 =
        some ⟨.empty, some s, true, 0, σ.fresh⟩ := by
      rw [Store.scope?_openScope hσ.intact.freeIsEmpty, if_pos rfl]
    obtain ⟨hbare, hact, hplain⟩ := (hrun (σ.openScope s).1).run (hσ.openScope ha) hnew
    obtain ⟨hbare', hact'⟩ := Store.Bare.close (hr.plus _ hplain) hσ.intact hbare ha hact
    rw [inScope_apply]
    dsimp only
    rw [holdResult_eq]
    exact ⟨hbare', hact', hplain⟩

end steps

structure Shedding (n : Nat) : Prop where
  expr : ∀ {r s} e, r.Plain → Sheds s (expr .standard n r s e)
  logical : ∀ {r s} op a b, r.Plain → Sheds s (logical .standard n r s op a b)
  arguments : ∀ {r s} es, r.Plain → Sheds s (arguments .standard n r s es)
  stmt : ∀ {r s c}, r.Plain → c.functionless = true → Sheds s (stmt .standard n r s c)
  loop : ∀ {r s} e {c}, r.Plain → c.functionless = true → Sheds s (loop .standard n r s e c)
  statements : ∀ {r s cs}, r.Plain → Stmt.functionlessAll cs = true →
    Sheds s (statements .standard n r s cs)
  block : ∀ {r s b}, r.Plain → b.functionless = true → Sheds s (block .standard n r s b)
  branch : ∀ {r s c}, r.Plain → c.functionless = true → Sheds s (branch .standard n r s c)

namespace Shedding

variable {n : Nat} {r : Roots} {s : Slot}

theorem zero : Shedding 0 where
  expr _ _ := .outOfFuel
  logical _ _ _ _ := .outOfFuel
  arguments _ _ := .outOfFuel
  stmt _ _ := .outOfFuel
  loop _ _ _ _ := .outOfFuel
  statements _ _ := .outOfFuel
  block _ _ := .outOfFuel
  branch _ _ := .outOfFuel

theorem expr_succ (h : Shedding n) (e : Expr) (hr : r.Plain) :
    Sheds s (Eval.expr .standard (n + 1) r s e) := by
  cases e with
  | name ann x =>
    simp only [Eval.expr]
    exact lookup_sheds x
  | literal ann v =>
    simp only [Eval.expr]
    exact .updateCells fun c => literal_plain c v
  | unary ann op operand =>
    simp only [Eval.expr]
    exact (h.expr operand hr).bind fun v _ => unary_sheds op v
  | binary ann op a b =>
    simp only [Eval.expr]
    split
    · exact h.logical op a b hr
    · refine (h.expr a hr).bind fun v hv => ?_
      exact (h.expr b (hr.hold (hv v List.mem_cons_self))).bind fun w _ => binary_sheds op v w
  | call ann f args =>
    simp only [Eval.expr]
    refine (h.expr f hr).bind fun v hv => ?_
    have hplain := hv v List.mem_cons_self
    cases v with
    | function f => cases hplain
    | bound f receiver => cases hplain
    | _ => exact .fail _
  | assign ann x value =>
    simp only [Eval.expr]
    exact (h.expr value hr).bind fun v hv => assign_sheds (hv v List.mem_cons_self)
  | step ann op before x =>
    simp only [Eval.expr]
    exact (lookup_sheds x).bind fun v _ => step_sheds op before x v
  | member ann object m =>
    simp only [Eval.expr]
    exact (h.expr object hr).bind fun v _ => member_sheds v _ m

theorem logical_succ (h : Shedding n) (op : BinaryOp) (a b : Expr) (hr : r.Plain) :
    Sheds s (Eval.logical .standard (n + 1) r s op a b) := by
  simp only [Eval.logical]
  refine (h.expr a hr).bind fun v _ => .test v fun decided => ?_
  split
  · exact .boolean decided
  · exact (h.expr b hr).bind fun w _ => .test w .boolean

theorem arguments_succ (h : Shedding n) (es : List Expr) (hr : r.Plain) :
    Sheds s (Eval.arguments .standard (n + 1) r s es) := by
  cases es with
  | nil =>
    simp only [Eval.arguments]
    exact .pure (List.forall_mem_nil _)
  | cons e es =>
    simp only [Eval.arguments]
    refine (h.expr e hr).bind fun v hv => ?_
    have hplain := hv v List.mem_cons_self
    refine (h.arguments es (hr.hold hplain)).bind fun vs hvs => .pure fun w hw => ?_
    obtain rfl | hw := List.mem_cons.1 hw
    · exact hplain
    · exact hvs w hw

theorem stmt_succ (h : Shedding n) {c : Stmt} (hr : r.Plain) (hc : c.functionless = true) :
    Sheds s (Eval.stmt .standard (n + 1) r s c) := by
  cases c with
  | define x ty value receiver span =>
    simp only [Eval.stmt]
    refine (h.expr value hr).bind fun v hv => ?_
    exact (defineValue_sheds receiver (hv v List.mem_cons_self)).bind fun _ _ => .void
  | ret value span =>
    simp only [Eval.stmt]
    exact (h.expr value hr).bind fun v hv => .returned (hv v List.mem_cons_self)
  | func heading body span => cases hc
  | block b =>
    simp only [Eval.stmt]
    exact h.block hr hc
  | cond condition yes no span =>
    rw [Stmt.functionless, Bool.and_eq_true] at hc
    simp only [Eval.stmt]
    refine (h.expr condition hr).bind fun v _ => .test v fun holds => ?_
    split
    · exact h.branch hr hc.1
    · cases no with
      | some no => exact h.branch hr hc.2
      | none => exact .void
  | loop condition body span =>
    simp only [Eval.stmt]
    exact h.loop condition hr hc
  | expr value span =>
    simp only [Eval.stmt]
    exact h.expr value hr
  | typeDecl name span =>
    simp only [Eval.stmt]
    exact .void

theorem loop_succ (h : Shedding n) (e : Expr) {c : Stmt} (hr : r.Plain)
    (hc : c.functionless = true) : Sheds s (Eval.loop .standard (n + 1) r s e c) := by
  simp only [Eval.loop]
  refine (h.expr e hr).bind fun v _ => .test v fun holds => ?_
  split
  · exact (h.branch hr hc).bind fun _ _ => h.loop e hr hc
  · exact .void

theorem statements_succ (h : Shedding n) {cs : List Stmt} (hr : r.Plain)
    (hcs : Stmt.functionlessAll cs = true) :
    Sheds s (Eval.statements .standard (n + 1) r s cs) := by
  cases cs with
  | nil =>
    simp only [Eval.statements]
    exact .void
  | cons c cs =>
    rw [Stmt.functionlessAll, Bool.and_eq_true] at hcs
    simp only [Eval.statements]
    exact (h.stmt hr hcs.1).bind fun _ _ => h.statements hr hcs.2

theorem succ (h : Shedding n) : Shedding (n + 1) where
  expr := h.expr_succ
  logical := h.logical_succ
  arguments := h.arguments_succ
  stmt := h.stmt_succ
  loop := h.loop_succ
  statements := h.statements_succ
  block {r s b} hr hb := by
    cases b with
    | mk ss span =>
      simp only [Eval.block]
      exact inScope_sheds hr fun p => h.statements hr hb
  branch {r s c} hr hc := by
    simp only [Eval.branch]
    exact (inScope_sheds hr fun p => h.stmt hr hc).bind fun _ _ => .void

theorem all (n : Nat) : Shedding n := by
  induction n with
  | zero => exact zero
  | succ n ih => exact ih.succ

end Shedding

theorem evaluateFrom_sheds (n : Nat) {r : Roots} (hr : r.Plain) {v : Value}
    (hv : v.functions = []) {cs : List Stmt} (hcs : Stmt.functionlessAll cs = true) :
    Sheds Store.global (Program.evaluateFrom .standard n r v cs) := by
  induction cs generalizing v with
  | nil => exact .pure fun w hw => by rwa [List.mem_singleton.1 hw]
  | cons c cs ih =>
    rw [Stmt.functionlessAll, Bool.and_eq_true] at hcs
    have hstmt : Sheds Store.global (attempt (Eval.stmt .standard n (r.hold v) Store.global c)) :=
      ⟨fun hσ ha => ((Shedding.all n).stmt (hr.hold hv) hcs.1).run hσ ha⟩
    refine hstmt.bind fun x hx => ?_
    rcases x with (w | e | _) | w
    · exact .pure hx
    · exact .fail e
    · exact .outOfFuel
    · exact ih (hx w List.mem_cons_self) hcs.2

end Eval

theorem Store.Bare.live_eq {σ : Store} (h : σ.Bare) : σ.live = σ.activeSlots.card := by
  have hset : σ.occupied = σ.activeSlots := by
    refine Finset.Subset.antisymm (fun i hi => ?_) σ.activeSlots_subset
    obtain ⟨s, hs⟩ := mem_occupied.1 hi
    exact mem_activeSlots.2 ⟨_, activity_eq_some.2 ⟨s, hs, h.active hs, rfl⟩⟩
  rw [h.intact.live_eq, hset]

/-- However it ends, an evaluation leaves the active scopes as they were, each in its slot and
with its parent; and a program that defines no function leaves no scope but the global one. -/
theorem Eval.scopes_balanced (n : Nat) :
    (∀ {σ : Store} {roots : Roots} {scope : Slot} {a : Scope}, σ.Intact roots →
      σ.scope? scope = some a → a.active →
      (∀ c : Stmt, (Eval.stmt .standard n roots scope c σ).2.activity = σ.activity) ∧
      ∀ e : Expr, (Eval.expr .standard n roots scope e σ).2.activity = σ.activity) ∧
    ∀ p : Program, Stmt.functionlessAll p.statements = true →
      (p.evaluate .standard n .none .initial).2.live = 1 := by
  have h := Balanced.all Reclaimer.standard_sound n
  refine ⟨fun hσ ha hact => ⟨fun c => ?_, fun e => ?_⟩, fun p hp => ?_⟩
  · exact (h.stmt _ _ c).run hσ ha hact
  · exact (h.expr _ _ e).run hσ ha hact
  · obtain ⟨hbare, hactivity, -⟩ :=
      (evaluateFrom_sheds n .none (v := .void) rfl hp).run .initial rfl
    rw [Program.evaluate, hbare.live_eq, Store.activeSlots_congr hactivity]
    rfl

/-- `{ func f() { { return 1; } } f(); y; }`: a `return` leaves three scopes, and an error one. -/
def Stmt.unwinding : Stmt :=
  let ann : Ann := ⟨.int, default⟩
  .block (.mk [
    .func ⟨"f", none, [], ⟨[], .int⟩⟩
      (.mk [.block (.mk [.ret (.literal ann (.integer 1)) default] default)] default) default,
    .expr (.call ann (.name ann "f") []) default,
    .expr (.name ann "y") default] default)

theorem Eval.scopes_balanced_of_unwinding :
    (Eval.stmt .standard 20 .none Store.global Stmt.unwinding .initial).1 matches
      .error (.failed (.variableNotDeclared _)) ∧
    (Eval.stmt .standard 20 .none Store.global Stmt.unwinding .initial).2.activity =
      Store.initial.activity ∧
    (Program.evaluate .standard 20 .none ⟨[.block (.mk [.expr (.name ⟨.int, default⟩ "y") default]
      default)], .initial⟩ .initial).2.live = 1 := by
  refine ⟨by decide +kernel, ?_, ?_⟩
  · exact ((scopes_balanced 20).1 .initial rfl rfl).1 Stmt.unwinding
  · exact (scopes_balanced 20).2 ⟨_, .initial⟩ rfl

end TypedScript
