import TypedScript.Proofs.Static.Check

namespace TypedScript

/-- What a parser gives if nothing is reported up to its end. -/
structure Parse.Cleanly {α : Type} (p : Parse Cursor α) (Q : α → Prop) : Prop where
  run : ∀ {c c' a}, p c = .ok a c' → c'.reported = [] → c.reported = [] ∧ Q a

namespace Parse.Cleanly

variable {α β : Type} {p : Parse Cursor α} {Q Q' : α → Prop}

theorem mono (h : p.Cleanly Q) (hq : ∀ a, Q a → Q' a) : p.Cleanly Q' where
  run hp hc := (h.run hp hc).imp_right (hq _)

theorem pure {a : α} (h : Q a) : Cleanly (Pure.pure a : Parse Cursor α) Q where
  run hb hc := by
    cases hb
    exact ⟨hc, h⟩

theorem bind {f : α → Parse Cursor β} {R : β → Prop} (h : p.Cleanly Q)
    (hf : ∀ a, (f a).Cleanly fun b => Q a → R b) : (p >>= f).Cleanly R where
  run hb hc := by
    obtain ⟨a, t, hp, hb⟩ := Parse.bind_eq_ok.1 hb
    obtain ⟨ht, hr⟩ := (hf a).run hb hc
    obtain ⟨hc, hq⟩ := h.run hp ht
    exact ⟨hc, hr hq⟩

theorem skip {f : α → Parse Cursor β} {R : β → Prop} (h : p.Cleanly fun _ => True)
    (hf : ∀ a, (f a).Cleanly R) : (p >>= f).Cleanly R :=
  h.bind fun a => (hf a).mono fun _ hr _ => hr

theorem fail {d : Diagnostic} : Cleanly (Parse.fail d : Parse Cursor α) Q := ⟨nofun⟩

theorem exhausted : Cleanly (Parse.exhausted : Parse Cursor α) Q := ⟨nofun⟩

theorem refuse {message : String} : Cleanly (Cursor.refuse message : Parse Cursor α) Q := ⟨nofun⟩

theorem reporting (d : Diagnostic) : (Cursor.reporting d).Cleanly fun _ => False where
  run h hc := by
    cases h
    exact absurd hc (by simp [Cursor.report])

theorem advance : Cursor.advance.Cleanly fun _ => True where
  run h hc := by
    cases h
    rw [Cursor.next] at hc
    split at hc <;> exact ⟨hc, trivial⟩

theorem expectOr (kind : Token.Kind) (d : Diagnostic) :
    (Cursor.expectOr kind d).Cleanly fun _ => True where
  run h hc := by
    rw [Cursor.expectOr] at h
    split at h
    · exact advance.run h hc
    · cases h

theorem expect (kind : Token.Kind) : (Cursor.expect kind).Cleanly fun _ => True where
  run h hc := (expectOr kind _).run h hc

theorem demand (kind : Token.Kind) (message : String) :
    (Cursor.demand kind message).Cleanly fun _ => True where
  run h hc := (expectOr kind _).run h hc

theorem currentKind : Cursor.currentKind.Cleanly fun _ => True where
  run h hc := by
    cases h
    exact ⟨hc, trivial⟩

theorem spanSince (start : Position) : (Cursor.spanSince start).Cleanly fun _ => True where
  run h hc := by
    cases h
    exact ⟨hc, trivial⟩

end Parse.Cleanly

open Parse

namespace Ty

theorem resolve_cleanly (Γ : Context) (name : Token) :
    (resolve Γ name).Cleanly fun t => Γ.Proper → t.isProper = true := by
  rw [resolve, Context.typeNamed]
  cases ht : Γ.types.get? name.value with
  | some t => exact .pure fun hΓ => hΓ.types _ _ ht
  | none => exact .fail

structure Reads (n : Nat) : Prop where
  type : ∀ Γ, (parseAt n Γ).Cleanly fun t => Γ.Proper → t.isProper = true
  function : ∀ Γ, (parseFunctionAt n Γ).Cleanly fun t => Γ.Proper → t.isProper = true
  list : ∀ Γ, (parseListAt n Γ).Cleanly fun ts => Γ.Proper → areProper ts = true
  result : ∀ Γ, (parseResultAt n Γ).Cleanly fun t => Γ.Proper → t.isProper = true

namespace Reads

theorem zero : Reads 0 where
  type _ := .exhausted
  function _ := .exhausted
  list _ := .exhausted
  result _ := .exhausted

theorem succ {n : Nat} (h : Reads n) : Reads (n + 1) where
  type Γ := by
    rw [parseAt]
    refine Cleanly.currentKind.skip fun kind => ?_
    split
    · exact (Cleanly.expect _).skip fun name => resolve_cleanly Γ name
    · exact h.function Γ
    · exact .refuse
  function Γ := by
    rw [parseFunctionAt]
    refine (Cleanly.expect _).skip fun _ => (Cleanly.expect _).skip fun _ => ?_
    refine (h.list Γ).bind fun ps => (Cleanly.expect _).skip fun _ => ?_
    refine (h.result Γ).bind fun r => .pure fun hr hps hΓ => ?_
    rw [isProper, hps hΓ, hr hΓ, Bool.and_self]
  list Γ := by
    rw [parseListAt]
    refine Cleanly.currentKind.skip fun _ => ?_
    split
    · exact .pure fun _ => rfl
    · refine (h.type Γ).bind fun t => Cleanly.currentKind.skip fun _ => ?_
      split
      · refine .pure fun ht hΓ => ?_
        rw [areProper, ht hΓ, areProper, Bool.and_self]
      · refine (Cleanly.expect _).skip fun _ => (h.list Γ).bind fun ts => ?_
        refine .pure fun hts ht hΓ => ?_
        rw [areProper, ht hΓ, hts hΓ, Bool.and_self]
  result Γ := by
    rw [parseResultAt]
    refine Cleanly.currentKind.skip fun _ => ?_
    split
    · exact Cleanly.advance.skip fun _ => h.type Γ
    · exact .pure fun _ => rfl

theorem all (n : Nat) : Reads n := by
  induction n with
  | zero => exact zero
  | succ n ih => exact ih.succ

end Reads

end Ty

namespace Expr

variable {Γ : Context}

theorem mistyped_cleanly (fault : Fault) (span : Span) :
    (mistyped fault span).Cleanly fun _ => False :=
  (Cleanly.reporting _).bind fun _ => .pure id

theorem typeOfName_cleanly (Γ : Context) (x : String) (span : Span) :
    (typeOfName Γ x span).Cleanly fun t => Γ.typeOf? x = some t := by
  rw [typeOfName]
  cases hx : Γ.typeOf? x with
  | some t => exact .pure rfl
  | none => exact (mistyped_cleanly _ _).mono nofun

theorem parsePrimary_cleanly (Γ : Context) :
    (parsePrimary Γ).Cleanly fun e => e.checks Γ = true := by
  refine Cleanly.advance.skip fun token => ?_
  split
  · cases Decimal.readInteger? token.value with
    | some i => exact .pure rfl
    | none => exact .fail
  · cases Decimal.readFloat? token.value with
    | some x => exact .pure rfl
    | none => exact .fail
  · exact .pure rfl
  · exact .pure rfl
  · exact .pure rfl
  · exact .pure rfl
  · exact (typeOfName_cleanly Γ token.value token.span).bind
      fun t => .pure fun ht => checks_name.2 ht
  · exact .fail

theorem typeUnary_cleanly (op : UnaryOp) (e : Expr) (span : Span) :
    (typeUnary op e span).Cleanly fun t => e.isFaulty = false → op.resultTy? e.ty = some t := by
  cases op with
  | not => exact .pure fun _ => rfl
  | negate =>
    rw [typeUnary]
    split
    · rename_i h
      refine .pure fun hf => ?_
      rw [hf, Bool.or_false] at h
      rw [UnaryOp.resultTy?, if_pos h]
    · exact (mistyped_cleanly _ _).mono fun _ h => h.elim

theorem typeBinary_cleanly (op : BinaryOp) (l r : Expr) (span : Span) :
    (typeBinary op l r span).Cleanly fun t => op.resultTy? l.ty r.ty = some t ∧
      ((l.isNull || r.isNull) && !op.isUniversal) = false := by
  rw [typeBinary]
  split
  · rename_i t ht hn
    exact .pure ⟨ht, hn⟩
  · exact (mistyped_cleanly _ _).mono nofun

theorem typeAssign_cleanly (target value : Expr) : (typeAssign target value).Cleanly fun t =>
    target.isFaulty = false → t = target.ty ∧ value.ty.assignable target.ty = true := by
  rw [typeAssign]
  split
  · rename_i h
    refine .pure fun hf => ⟨rfl, ?_⟩
    rwa [hf, Bool.false_or] at h
  · exact (mistyped_cleanly _ _).mono nofun

theorem typeStep_cleanly (target : Expr) (span : Span) : (typeStep target span).Cleanly fun t =>
    target.isFaulty = false → t = target.ty ∧ target.ty.isNumeric = true := by
  rw [typeStep]
  split
  · rename_i h
    refine .pure fun hf => ⟨rfl, ?_⟩
    rwa [hf, Bool.or_false] at h
  · exact (mistyped_cleanly _ _).mono nofun

theorem reportAll_cleanly (ds : List Diagnostic) : (reportAll ds).Cleanly fun _ => ds = [] := by
  cases ds with
  | nil => exact .pure rfl
  | cons d ds =>
    refine (Cleanly.reporting d).bind fun _ => ⟨fun h hc => ?_⟩
    -- the second part may report more, but never takes a report back
    have hkeep : ∀ ds : List Diagnostic, (reportAll ds).Cleanly fun _ => True := by
      intro ds
      induction ds with
      | nil => exact .pure trivial
      | cons d ds ih => exact (Cleanly.reporting d).bind fun _ => ih.mono fun _ _ _ => trivial
    exact ((hkeep ds).run h hc).imp_right fun _ => False.elim

theorem accepts_of_argumentFaults {ps : List Ty} {es : List Expr} {place : Position}
    (h : argumentFaults ps es place = []) : Ty.accepts ps (es.map Expr.ty) = true := by
  rw [argumentFaults, List.append_eq_nil_iff, List.map_eq_nil_iff, List.filterMap_eq_nil_iff] at h
  obtain ⟨harity, htypes⟩ := h
  have hlen : ps.length = es.length := by
    rw [arityFaults] at harity
    split at harity
    · cases harity
    · split at harity
      · cases harity
      · omega
  clear harity
  induction ps generalizing es with
  | nil =>
    cases List.length_eq_zero_iff.1 hlen.symm
    rfl
  | cons p ps ih =>
    cases es with
    | nil => cases hlen
    | cons e es =>
      rw [List.zip_cons_cons, List.forall_mem_cons] at htypes
      have he : e.ty.assignable p = true := by
        have := htypes.1
        dsimp only at this
        split at this
        · assumption
        · cases this
      rw [List.map_cons, Ty.accepts, he, ih htypes.2 (Nat.succ.inj hlen), Bool.and_self]

theorem typeCall_cleanly (f : Expr) (args : List Expr) (span : Span) :
    (typeCall f args span).Cleanly fun t => f.isFaulty = false →
      ∃ ps, f.ty = .func ps t ∧ Ty.accepts ps (args.map Expr.ty) = true := by
  rw [typeCall]
  split
  · rename_i ps r hty
    refine (reportAll_cleanly _).bind fun _ => .pure fun hfaults _ => ?_
    exact ⟨ps, hty, accepts_of_argumentFaults hfaults⟩
  · split
    · rename_i hf
      exact .pure fun hf' => absurd hf (Bool.eq_false_iff.1 hf')
    · exact (mistyped_cleanly _ _).mono fun _ => False.elim

theorem typeMember_cleanly (Γ : Context) (e : Expr) (m : String) (span : Span) :
    (typeMember Γ e m span).Cleanly fun t => e.isFaulty = false →
      Γ.memberType? e.ty m = some t := by
  rw [typeMember]
  split
  · rename_i hf
    exact .pure fun hf' => absurd hf (Bool.eq_false_iff.1 hf')
  · cases hm : Γ.memberType? e.ty m with
    | some t => exact .pure fun _ => rfl
    | none => exact (mistyped_cleanly _ _).mono fun _ => False.elim

theorem eq_name_of_asName? {e : Expr} {x : String} (h : e.asName? = some x) :
    ∃ a, e = name a x := by
  cases e with
  | name a y =>
    cases h
    exact ⟨a, rfl⟩
  | _ => cases h

theorem checks_withSpan (span : Span) (e : Expr) :
    (e.withSpan span).checks Γ = e.checks Γ := by
  cases e <;> rfl

theorem parseStep_cleanly (operator : Token) (target : Expr) (before : Bool) (span : Span) :
    (parseStep operator target before span).Cleanly fun e =>
      Γ.Proper → target.checks Γ = true → e.checks Γ = true := by
  rw [parseStep]
  cases StepOp.ofKind? operator.kind with
  | none => exact .refuse
  | some op =>
    cases hx : target.asName? with
    | none => exact .fail
    | some x =>
      refine (typeStep_cleanly target span).bind fun t => .pure fun ht hΓ htarget => ?_
      obtain ⟨rfl, hnum⟩ := ht (isFaulty_eq_false hΓ htarget)
      obtain ⟨a, rfl⟩ := eq_name_of_asName? hx
      exact checks_step.2 ⟨checks_name.1 htarget, hnum⟩

theorem checks_binary_of_typed (hΓ : Γ.Proper) {op : BinaryOp} {l r : Expr} {t : Ty} {span : Span}
    (hl : l.checks Γ = true) (hr : r.checks Γ = true) (ht : op.resultTy? l.ty r.ty = some t)
    (hn : ((l.isNull || r.isNull) && !op.isUniversal) = false) :
    (binary ⟨t, span⟩ op l r).checks Γ = true := by
  refine checks_binary.2 ⟨hl, hr, ?_, ht⟩
  cases hu : op.isUniversal with
  | true => exact .inl rfl
  | false =>
    rw [hu, Bool.not_false, Bool.and_true, Bool.or_eq_false_iff] at hn
    have hne : ∀ {e : Expr}, e.checks Γ = true → e.isNull = false → e.ty.isNever = false := by
      intro e he hnull
      have := isFaulty_eq_false hΓ he
      rwa [isFaulty, hnull, Bool.not_false, Bool.and_true] at this
    exact .inr ⟨hne hl hn.1, hne hr hn.2⟩

theorem parseMember_cleanly (Γ : Context) (left : Expr) : (parseMember Γ left).Cleanly fun e =>
    Γ.Proper → left.checks Γ = true → e.checks Γ = true := by
  refine Cleanly.advance.skip fun _ => (Cleanly.demand _ _).skip fun m => ?_
  refine (Cleanly.spanSince _).skip fun span => (typeMember_cleanly Γ left m.value span).bind
    fun t => ?_
  refine .pure fun ht hΓ hleft => ?_
  have hm := ht (isFaulty_eq_false hΓ hleft)
  exact checks_member.2 ⟨hleft, Ty.isNever_of_isProper (hΓ.members _ _ _ hm).1, hm⟩

structure Reads (n : Nat) : Prop where
  expr : ∀ Γ bound, (parseAt n Γ bound).Cleanly fun e => Γ.Proper → e.checks Γ = true
  opening : ∀ Γ, (parseOpeningAt n Γ).Cleanly fun e => Γ.Proper → e.checks Γ = true
  rest : ∀ Γ bound left, (parseRestAt n Γ bound left).Cleanly fun e =>
    Γ.Proper → left.checks Γ = true → e.checks Γ = true
  continuation : ∀ Γ form power left, (parseContinuationAt n Γ form power left).Cleanly fun e =>
    Γ.Proper → left.checks Γ = true → e.checks Γ = true
  grouping : ∀ Γ, (parseGroupingAt n Γ).Cleanly fun e => Γ.Proper → e.checks Γ = true
  unary : ∀ Γ, (parseUnaryAt n Γ).Cleanly fun e => Γ.Proper → e.checks Γ = true
  stepBefore : ∀ Γ, (parseStepBeforeAt n Γ).Cleanly fun e => Γ.Proper → e.checks Γ = true
  binary : ∀ Γ power left, (parseBinaryAt n Γ power left).Cleanly fun e =>
    Γ.Proper → left.checks Γ = true → e.checks Γ = true
  assign : ∀ Γ left, (parseAssignAt n Γ left).Cleanly fun e =>
    Γ.Proper → left.checks Γ = true → e.checks Γ = true
  call : ∀ Γ left, (parseCallAt n Γ left).Cleanly fun e =>
    Γ.Proper → left.checks Γ = true → e.checks Γ = true
  arguments : ∀ Γ, (parseArgumentsAt n Γ).Cleanly fun es => Γ.Proper → checksAll Γ es = true

namespace Reads

theorem zero : Reads 0 where
  expr _ _ := .exhausted
  opening _ := .exhausted
  rest _ _ _ := .exhausted
  continuation _ _ _ _ := .exhausted
  grouping _ := .exhausted
  unary _ := .exhausted
  stepBefore _ := .exhausted
  binary _ _ _ := .exhausted
  assign _ _ := .exhausted
  call _ _ := .exhausted
  arguments _ := .exhausted

theorem succ {n : Nat} (h : Reads n) : Reads (n + 1) where
  expr Γ bound := by
    rw [parseAt]
    refine (h.opening Γ).bind fun left => (h.rest Γ bound left).mono fun e he hleft hΓ => ?_
    exact he hΓ (hleft hΓ)
  opening Γ := by
    rw [parseOpeningAt]
    refine Cleanly.currentKind.skip fun kind => ?_
    split
    · exact .refuse
    · exact (parsePrimary_cleanly Γ).mono fun _ he _ => he
    · exact h.grouping Γ
    · exact h.unary Γ
    · exact h.stepBefore Γ
  rest Γ bound left := by
    rw [parseRestAt]
    refine Cleanly.currentKind.skip fun kind => ?_
    split
    · exact .pure fun _ hleft => hleft
    · rename_i power form _
      split
      · refine (h.continuation Γ form power left).bind fun longer => ?_
        exact (h.rest Γ bound longer).mono fun e he hlonger hΓ hleft => he hΓ (hlonger hΓ hleft)
      · exact .pure fun _ hleft => hleft
  continuation Γ form power left := by
    simp only [parseContinuationAt]
    cases form with
    | binary => exact h.binary Γ power left
    | assignment => exact h.assign Γ left
    | step => exact Cleanly.advance.skip fun operator => parseStep_cleanly operator left false _
    | call => exact h.call Γ left
    | member => exact parseMember_cleanly Γ left
  grouping Γ := by
    rw [parseGroupingAt]
    refine Cleanly.advance.skip fun _ => (h.expr Γ .default).bind fun inner => ?_
    refine (Cleanly.expect _).skip fun _ => (Cleanly.spanSince _).skip fun span => ?_
    refine .pure fun he hΓ => ?_
    rw [checks_withSpan]
    exact he hΓ
  unary Γ := by
    rw [parseUnaryAt]
    refine Cleanly.advance.skip fun operator => ?_
    split
    · exact .fail
    · rename_i op _
      refine (h.expr Γ .unary).bind fun e => ?_
      refine (typeUnary_cleanly op e _).bind fun t => .pure fun ht he hΓ => ?_
      exact checks_unary.2 ⟨he hΓ, ht (isFaulty_eq_false hΓ (he hΓ))⟩
  stepBefore Γ := by
    rw [parseStepBeforeAt]
    refine Cleanly.advance.skip fun operator => (h.expr Γ .unary).bind fun target => ?_
    exact (parseStep_cleanly operator target true _).mono fun e he htarget hΓ => he hΓ (htarget hΓ)
  binary Γ power left := by
    rw [parseBinaryAt]
    refine Cleanly.advance.skip fun operator => ?_
    split
    · exact .fail
    · rename_i op _
      refine (h.expr Γ power).bind fun right => ?_
      refine (typeBinary_cleanly op left right _).bind fun t => ?_
      refine .pure fun ht hright hΓ hleft => ?_
      exact checks_binary_of_typed hΓ hleft (hright hΓ) ht.1 ht.2
  assign Γ left := by
    rw [parseAssignAt]
    refine Cleanly.advance.skip fun _ => ?_
    cases hx : left.asName? with
    | none => exact .fail
    | some x =>
      refine (h.expr Γ .default).bind fun value => ?_
      refine (typeAssign_cleanly left value).bind fun t => .pure fun ht hvalue hΓ hleft => ?_
      obtain ⟨rfl, hassign⟩ := ht (isFaulty_eq_false hΓ hleft)
      obtain ⟨a, rfl⟩ := eq_name_of_asName? hx
      exact checks_assign.2 ⟨checks_name.1 hleft, hvalue hΓ, hassign⟩
  call Γ left := by
    rw [parseCallAt]
    refine Cleanly.advance.skip fun _ => (h.arguments Γ).bind fun args => ?_
    refine (Cleanly.expect _).skip fun _ => (Cleanly.spanSince _).skip fun span => ?_
    refine (typeCall_cleanly left args span).bind fun t => .pure fun ht hargs hΓ hleft => ?_
    exact checks_call.2 ⟨hleft, hargs hΓ, ht (isFaulty_eq_false hΓ hleft)⟩
  arguments Γ := by
    rw [parseArgumentsAt]
    refine Cleanly.currentKind.skip fun _ => ?_
    split
    · exact .pure fun _ => rfl
    · refine (h.expr Γ .default).bind fun e => Cleanly.currentKind.skip fun _ => ?_
      split
      · refine .pure fun he hΓ => ?_
        rw [checksAll, he hΓ, checksAll, Bool.and_self]
      · refine (Cleanly.demand _ _).skip fun _ => (h.arguments Γ).bind fun es => ?_
        refine .pure fun hes he hΓ => ?_
        rw [checksAll, he hΓ, hes hΓ, Bool.and_self]

theorem all (n : Nat) : Reads n := by
  induction n with
  | zero => exact zero
  | succ n ih => exact ih.succ

end Reads

end Expr

end TypedScript
