import TypedScript.Proofs.Layout.Mimics

namespace TypedScript

open Parse Tandem
open Parse.Mimics (look advance expect demand spanSince reporting refuse)

namespace Ty

variable {w : Tandem} {X : Stage w}

theorem resolve_mimics (Γ : Context) (name : Token) :
    Mimics X X (resolve Γ name) (resolve Γ (name.relocate w.places)) := by
  rw [resolve, resolve, Context.typeNamed, Context.typeNamed, Token.relocate_value]
  cases Γ.types.get? name.value with
  | some ty => exact .pure rfl
  | none => exact .fail rfl

structure InTandem (w : Tandem) (n m : Nat) : Prop where
  type : ∀ Γ, Mimics (.loose w) (.loose w) (parseAt n Γ) (parseAt m Γ)
  function : ∀ Γ, Mimics (.loose w) (.loose w) (parseFunctionAt n Γ) (parseFunctionAt m Γ)
  list : ∀ Γ, Mimics (.loose w) (.loose w) (parseListAt n Γ) (parseListAt m Γ)
  result : ∀ Γ, Mimics (.loose w) (.loose w) (parseResultAt n Γ) (parseResultAt m Γ)

namespace InTandem

variable {n m : Nat}

theorem zero (m : Nat) : InTandem w 0 m where
  type _ := by simpa only [parseAt] using .exhausted _
  function _ := by simpa only [parseFunctionAt] using .exhausted _
  list _ := by simpa only [parseListAt] using .exhausted _
  result _ := by simpa only [parseResultAt] using .exhausted _

theorem type_succ (h : InTandem w n m) (Γ : Context) :
    Mimics (.loose w) (.loose w) (parseAt (n + 1) Γ) (parseAt (m + 1) Γ) := by
  simp only [parseAt]
  refine look (fun _ => rfl) (.refl _) fun k => ?_
  split
  · refine ((expect (by decide)).bind fun name => ?_).weaken (.seeing (.refl _) _) .firm_moved_loose
    exact resolve_mimics Γ name
  · exact (h.function Γ).before (.seeing (.refl _) _)
  · exact refuse _

theorem function_succ (h : InTandem w n m) (Γ : Context) :
    Mimics (.loose w) (.loose w) (parseFunctionAt (n + 1) Γ) (parseFunctionAt (m + 1) Γ) := by
  simp only [parseFunctionAt]
  refine (expect (by decide)).bind fun _ => ?_
  refine ((expect (by decide)).before .firm_moved_loose).bind fun _ => ?_
  refine ((h.list Γ).before .firm_moved_loose).bind fun parameters => ?_
  refine (expect (by decide)).bind fun _ => ?_
  refine ((h.result Γ).before .firm_moved_loose).bind fun result => .pure ?_
  exact congrArg (Ty.func · result) (List.map_id _)

theorem list_succ (h : InTandem w n m) (Γ : Context) :
    Mimics (.loose w) (.loose w) (parseListAt (n + 1) Γ) (parseListAt (m + 1) Γ) := by
  simp only [parseListAt]
  refine look (fun _ => rfl) (.refl _) fun k => ?_
  split
  · exact (Mimics.pure rfl).before (.seeing (.refl _) _)
  · refine ((h.type Γ).before (.seeing (.refl _) _)).bind fun ty => ?_
    refine look (fun _ => rfl) (.refl _) fun k => ?_
    split
    · exact (Mimics.pure rfl).before (.seeing (.refl _) _)
    · refine ((expect (by decide)).before (.seeing (.refl _) _)).bind fun _ => ?_
      exact ((h.list Γ).before .firm_moved_loose).bind fun rest => .pure rfl

theorem result_succ (h : InTandem w n m) (Γ : Context) :
    Mimics (.loose w) (.loose w) (parseResultAt (n + 1) Γ) (parseResultAt (m + 1) Γ) := by
  simp only [parseResultAt]
  refine look (fun _ => rfl) (.refl _) fun k => ?_
  split
  · rename_i hk
    subst hk
    refine (advance.before (.seeing_inside (.refl _) (by decide))).bind fun _ => ?_
    exact (h.type Γ).before (.moved _)
  · exact (Mimics.pure rfl).before (.seeing (.refl _) _)

theorem succ (h : InTandem w n m) : InTandem w (n + 1) (m + 1) :=
  ⟨h.type_succ, h.function_succ, h.list_succ, h.result_succ⟩

theorem all (w : Tandem) (h : n ≤ m) : InTandem w n m := by
  induction n generalizing m with
  | zero => exact zero m
  | succ n ih =>
    cases m with
    | zero => cases h
    | succ m => exact (ih (Nat.le_of_succ_le_succ h)).succ

end InTandem

end Ty

namespace Expr

variable {w : Tandem} {X : Stage w}

section typing

theorem mistyped_mimics (hX : X.Free) (fault : Fault) (span : Span) :
    Mimics X X (mistyped fault span) (mistyped fault (span.relocate w.places)) :=
  (reporting hX rfl).bind fun _ => .pure rfl

theorem typeOfName_mimics (hX : X.Free) (Γ : Context) (x : String) (span : Span) :
    Mimics X X (typeOfName Γ x span) (typeOfName Γ x (span.relocate w.places)) := by
  rw [typeOfName, typeOfName]
  cases Γ.typeOf? x with
  | some ty => exact .pure rfl
  | none => exact mistyped_mimics hX _ span

theorem typeUnary_mimics (hX : X.Free) (op : UnaryOp) (e : Expr) (span : Span) :
    Mimics X X (typeUnary op e span)
      (typeUnary op (e.relocate w.places) (span.relocate w.places)) := by
  cases op with
  | not => exact .pure rfl
  | negate =>
    simp only [typeUnary, ty_relocate, isFaulty_relocate, tyName_relocate]
    split
    · exact .pure rfl
    · exact mistyped_mimics hX _ span

theorem typeBinary_mimics (hX : X.Free) (op : BinaryOp) (l r : Expr) (span : Span) :
    Mimics X X (typeBinary op l r span)
      (typeBinary op (l.relocate w.places) (r.relocate w.places) (span.relocate w.places)) := by
  simp only [typeBinary, ty_relocate, isNull_relocate, tyName_relocate]
  split
  · exact .pure rfl
  · exact mistyped_mimics hX _ span

theorem typeAssign_mimics (hX : X.Free) (target value : Expr) :
    Mimics X X (typeAssign target value)
      (typeAssign (target.relocate w.places) (value.relocate w.places)) := by
  simp only [typeAssign, ty_relocate, isFaulty_relocate, span_relocate]
  split
  · exact .pure rfl
  · exact mistyped_mimics hX _ value.span

theorem typeStep_mimics (hX : X.Free) (target : Expr) (span : Span) :
    Mimics X X (typeStep target span)
      (typeStep (target.relocate w.places) (span.relocate w.places)) := by
  simp only [typeStep, ty_relocate, isFaulty_relocate]
  split
  · exact .pure rfl
  · exact mistyped_mimics hX _ span

theorem argumentFaults_relocate (ρ : Relocation) (ts : List Ty) (es : List Expr) (p : Position) :
    argumentFaults ts (es.map (relocate ρ)) (ρ.starts p) =
      (argumentFaults ts es p).map (Diagnostic.relocate ρ) := by
  simp only [argumentFaults, List.length_map, List.map_append, List.map_map]
  congr 1
  induction ts generalizing es with
  | nil => rfl
  | cons t ts ih =>
    cases es with
    | nil => rfl
    | cons e es =>
      simp only [List.map_cons, List.zip_cons_cons, List.filterMap_cons, ty_relocate, span_relocate,
        ih]
      by_cases ha : e.ty.assignable t <;> simp [ha, Diagnostic.relocate, Span.relocate]

theorem reportAll_mimics (hX : X.Free) (ds : List Diagnostic) :
    Mimics X X (reportAll ds) (reportAll (ds.map (Diagnostic.relocate w.places))) := by
  induction ds with
  | nil => exact .pure rfl
  | cons d ds ih => exact (reporting hX rfl).bind fun _ => ih

theorem typeCall_mimics (hX : X.Free) (callee : Expr) (es : List Expr) (span : Span) :
    Mimics X X (typeCall callee es span)
      (typeCall (callee.relocate w.places) (es.map (relocate w.places))
        (span.relocate w.places)) := by
  simp only [typeCall, ty_relocate, isFaulty_relocate, tyName_relocate]
  split
  · rename_i parameters result _
    have hfaults := argumentFaults_relocate w.places parameters es span.start
    refine Mimics.bind ?_ fun _ => .pure rfl
    rw [Span.relocate, hfaults]
    exact reportAll_mimics hX _
  · split
    · exact .pure rfl
    · exact mistyped_mimics hX _ span

theorem typeMember_mimics (hX : X.Free) (Γ : Context) (object : Expr) (x : String) (span : Span) :
    Mimics X X (typeMember Γ object x span)
      (typeMember Γ (object.relocate w.places) x (span.relocate w.places)) := by
  simp only [typeMember, ty_relocate, isFaulty_relocate, tyName_relocate]
  split
  · exact .pure rfl
  · cases Γ.memberType? object.ty x with
    | some ty => exact .pure rfl
    | none => exact mistyped_mimics hX _ span

end typing

theorem parsePrimary_mimics (Γ : Context) :
    Mimics (.inside w) (Stage.loose w).moved (parsePrimary Γ) (parsePrimary Γ) := by
  simp only [parsePrimary]
  refine advance.bind fun token => ?_
  simp only [Placed.relocate, Token.relocate_kind, Token.relocate_value]
  split
  · split
    · exact .pure rfl
    · exact .fail rfl
  · split
    · exact .pure rfl
    · exact .fail rfl
  · exact .pure rfl
  · exact .pure rfl
  · exact .pure rfl
  · exact .pure rfl
  · exact (typeOfName_mimics Stage.loose_free Γ token.value token.span).moved.bind
      fun ty => .pure rfl
  · exact .fail rfl

theorem parseStep_mimics (operator : Token) (target : Expr) (before : Bool) (span : Span) :
    Mimics (.loose w) (.loose w) (parseStep operator target before span)
      (parseStep (operator.relocate w.places) (target.relocate w.places) before
        (span.relocate w.places)) := by
  simp only [parseStep, Token.relocate_kind, asName?_relocate, span_relocate]
  split
  · exact refuse _
  · split
    · exact .fail rfl
    · exact (typeStep_mimics Stage.loose_free target span).bind fun ty => .pure rfl

theorem parseStepAfter_mimics (left : Expr) :
    Mimics (.inside w) (Stage.loose w).moved (parseStepAfter left)
      (parseStepAfter (left.relocate w.places)) := by
  simp only [parseStepAfter, span_relocate]
  refine advance.bind fun operator => ?_
  exact (parseStep_mimics operator left false ⟨left.span.start, operator.span.stop⟩).moved

theorem parseMember_mimics (Γ : Context) (left : Expr) :
    Mimics (.inside w) (Stage.loose w).moved (parseMember Γ left)
      (parseMember Γ (left.relocate w.places)) := by
  simp only [parseMember, span_relocate]
  refine advance.bind fun _ => ?_
  refine ((demand (by decide) _).weaken (.moved _) (.moved_mono .firm_loose)).bind fun member => ?_
  refine (spanSince _ left.span.start).bind fun span => ?_
  exact (typeMember_mimics Stage.loose_free Γ left member.value span).moved.bind fun ty => .pure rfl

structure InTandem (w : Tandem) (n m : Nat) : Prop where
  expr : ∀ Γ bound, Mimics (.loose w) (Stage.loose w).moved (parseAt n Γ bound) (parseAt m Γ bound)
  opening : ∀ Γ, Mimics (.loose w) (Stage.loose w).moved (parseOpeningAt n Γ) (parseOpeningAt m Γ)
  rest : ∀ Γ bound left, Mimics (Stage.loose w).moved (Stage.loose w).moved
    (parseRestAt n Γ bound left) (parseRestAt m Γ bound (left.relocate w.places))
  continuation : ∀ Γ form power left, Mimics (.inside w) (Stage.loose w).moved
    (parseContinuationAt n Γ form power left)
    (parseContinuationAt m Γ form power (left.relocate w.places))
  grouping : ∀ Γ, Mimics (.inside w) (Stage.loose w).moved (parseGroupingAt n Γ)
    (parseGroupingAt m Γ)
  unary : ∀ Γ, Mimics (.inside w) (Stage.loose w).moved (parseUnaryAt n Γ) (parseUnaryAt m Γ)
  stepBefore : ∀ Γ, Mimics (.inside w) (Stage.loose w).moved (parseStepBeforeAt n Γ)
    (parseStepBeforeAt m Γ)
  binary : ∀ Γ power left, Mimics (.inside w) (Stage.loose w).moved (parseBinaryAt n Γ power left)
    (parseBinaryAt m Γ power (left.relocate w.places))
  assign : ∀ Γ left, Mimics (.inside w) (Stage.loose w).moved (parseAssignAt n Γ left)
    (parseAssignAt m Γ (left.relocate w.places))
  call : ∀ Γ left, Mimics (.inside w) (Stage.loose w).moved (parseCallAt n Γ left)
    (parseCallAt m Γ (left.relocate w.places))
  arguments : ∀ Γ, Mimics (.loose w) (.loose w) (parseArgumentsAt n Γ) (parseArgumentsAt m Γ)

namespace InTandem

variable {n m : Nat}

theorem zero (m : Nat) : InTandem w 0 m where
  expr _ _ := by simpa only [parseAt] using .exhausted _
  opening _ := by simpa only [parseOpeningAt] using .exhausted _
  rest _ _ _ := by simpa only [parseRestAt] using .exhausted _
  continuation _ _ _ _ := by simpa only [parseContinuationAt] using .exhausted _
  grouping _ := by simpa only [parseGroupingAt] using .exhausted _
  unary _ := by simpa only [parseUnaryAt] using .exhausted _
  stepBefore _ := by simpa only [parseStepBeforeAt] using .exhausted _
  binary _ _ _ := by simpa only [parseBinaryAt] using .exhausted _
  assign _ _ := by simpa only [parseAssignAt] using .exhausted _
  call _ _ := by simpa only [parseCallAt] using .exhausted _
  arguments _ := by simpa only [parseArgumentsAt] using .exhausted _

theorem expr_succ (h : InTandem w n m) (Γ : Context) (bound : Power) :
    Mimics (.loose w) (Stage.loose w).moved (parseAt (n + 1) Γ bound)
      (parseAt (m + 1) Γ bound) := by
  simp only [parseAt]
  exact (h.opening Γ).bind fun left => h.rest Γ bound left

theorem opening_succ (h : InTandem w n m) (Γ : Context) :
    Mimics (.loose w) (Stage.loose w).moved (parseOpeningAt (n + 1) Γ)
      (parseOpeningAt (m + 1) Γ) := by
  simp only [parseOpeningAt]
  refine look (fun _ => rfl) (.refl _) fun k => ?_
  have hinside : k.opening?.isSome → ((Stage.loose w).seeing k).Within (.inside w) := fun hk =>
    .seeing_inside (.refl _) fun he => by simp [he, Token.Kind.opening?] at hk
  split <;> rename_i hk
  · exact refuse _
  · exact (parsePrimary_mimics Γ).before (hinside (by simp [hk]))
  · exact (h.grouping Γ).before (hinside (by simp [hk]))
  · exact (h.unary Γ).before (hinside (by simp [hk]))
  · exact (h.stepBefore Γ).before (hinside (by simp [hk]))

theorem rest_succ (h : InTandem w n m) (Γ : Context) (bound : Power) (left : Expr) :
    Mimics (Stage.loose w).moved (Stage.loose w).moved (parseRestAt (n + 1) Γ bound left)
      (parseRestAt (m + 1) Γ bound (left.relocate w.places)) := by
  simp only [parseRestAt]
  refine look (fun _ => rfl) (.moved _) fun k => ?_
  split
  · exact (Mimics.pure rfl).before (.seeing_moved _)
  · rename_i power form hk
    split
    · refine ((h.continuation Γ form power left).before (.seeing_inside (.moved _) ?_)).bind
        fun longer => h.rest Γ bound longer
      intro he
      simp [he, Token.Kind.continuation?] at hk
    · exact (Mimics.pure rfl).before (.seeing_moved _)

theorem continuation_succ (h : InTandem w n m) (Γ : Context) (form : Continuation) (power : Power)
    (left : Expr) :
    Mimics (.inside w) (Stage.loose w).moved (parseContinuationAt (n + 1) Γ form power left)
      (parseContinuationAt (m + 1) Γ form power (left.relocate w.places)) := by
  simp only [parseContinuationAt]
  cases form with
  | binary => exact h.binary Γ power left
  | assignment => exact h.assign Γ left
  | step => exact parseStepAfter_mimics left
  | call => exact h.call Γ left
  | member => exact parseMember_mimics Γ left

theorem grouping_succ (h : InTandem w n m) (Γ : Context) :
    Mimics (.inside w) (Stage.loose w).moved (parseGroupingAt (n + 1) Γ)
      (parseGroupingAt (m + 1) Γ) := by
  simp only [parseGroupingAt]
  refine advance.bind fun opening => ?_
  refine ((h.expr Γ .default).before (.moved _)).bind fun inner => ?_
  refine ((expect (by decide)).weaken (.moved _) (.moved_mono .firm_loose)).bind fun _ => ?_
  refine (spanSince _ opening.span.start).bind fun span => .pure ?_
  exact (relocate_withSpan w.places inner span).symm

theorem unary_succ (h : InTandem w n m) (Γ : Context) :
    Mimics (.inside w) (Stage.loose w).moved (parseUnaryAt (n + 1) Γ) (parseUnaryAt (m + 1) Γ) := by
  simp only [parseUnaryAt]
  refine advance.bind fun operator => ?_
  simp only [Placed.relocate, Token.relocate_kind]
  split
  · exact .fail rfl
  · rename_i op _
    refine ((h.expr Γ .unary).before (.moved _)).bind fun operand => ?_
    simp only [Placed.relocate, span_relocate]
    refine (typeUnary_mimics Stage.loose_free op operand
      ⟨operator.span.start, operand.span.stop⟩).moved.bind fun ty => .pure ?_
    simp [Placed.relocate, relocate, Ann.relocate, Span.relocate, Token.relocate]

theorem stepBefore_succ (h : InTandem w n m) (Γ : Context) :
    Mimics (.inside w) (Stage.loose w).moved (parseStepBeforeAt (n + 1) Γ)
      (parseStepBeforeAt (m + 1) Γ) := by
  simp only [parseStepBeforeAt]
  refine advance.bind fun operator => ?_
  refine ((h.expr Γ .unary).before (.moved _)).bind fun target => ?_
  simp only [Placed.relocate, span_relocate]
  exact (parseStep_mimics operator target true ⟨operator.span.start, target.span.stop⟩).moved

theorem binary_succ (h : InTandem w n m) (Γ : Context) (power : Power) (left : Expr) :
    Mimics (.inside w) (Stage.loose w).moved (parseBinaryAt (n + 1) Γ power left)
      (parseBinaryAt (m + 1) Γ power (left.relocate w.places)) := by
  simp only [parseBinaryAt, span_relocate]
  refine advance.bind fun operator => ?_
  simp only [Placed.relocate, Token.relocate_kind]
  split
  · exact .fail rfl
  · rename_i op _
    refine ((h.expr Γ power).before (.moved _)).bind fun right => ?_
    simp only [Placed.relocate, span_relocate]
    refine (typeBinary_mimics Stage.loose_free op left right
      ⟨left.span.start, right.span.stop⟩).moved.bind fun ty => .pure ?_
    simp [Placed.relocate, relocate, Ann.relocate, Span.relocate]

theorem assign_succ (h : InTandem w n m) (Γ : Context) (left : Expr) :
    Mimics (.inside w) (Stage.loose w).moved (parseAssignAt (n + 1) Γ left)
      (parseAssignAt (m + 1) Γ (left.relocate w.places)) := by
  simp only [parseAssignAt, asName?_relocate, span_relocate]
  refine advance.bind fun _ => ?_
  split
  · exact .fail rfl
  · refine ((h.expr Γ .default).before (.moved _)).bind fun value => ?_
    simp only [Placed.relocate, span_relocate]
    refine (typeAssign_mimics Stage.loose_free left value).moved.bind fun ty => .pure ?_
    simp [Placed.relocate, relocate, Ann.relocate, Span.relocate]

theorem call_succ (h : InTandem w n m) (Γ : Context) (left : Expr) :
    Mimics (.inside w) (Stage.loose w).moved (parseCallAt (n + 1) Γ left)
      (parseCallAt (m + 1) Γ (left.relocate w.places)) := by
  simp only [parseCallAt, span_relocate]
  refine advance.bind fun _ => ?_
  refine (h.arguments Γ).moved.bind fun arguments => ?_
  refine ((expect (by decide)).weaken (.moved _) (.moved_mono .firm_loose)).bind fun _ => ?_
  refine (spanSince _ left.span.start).bind fun span => ?_
  refine (typeCall_mimics Stage.loose_free left arguments span).moved.bind fun ty => .pure ?_
  simp [Placed.relocate, relocate, relocateAll_eq, Ann.relocate]

theorem arguments_succ (h : InTandem w n m) (Γ : Context) :
    Mimics (.loose w) (.loose w) (parseArgumentsAt (n + 1) Γ) (parseArgumentsAt (m + 1) Γ) := by
  simp only [parseArgumentsAt]
  refine look (fun _ => rfl) (.refl _) fun k => ?_
  split
  · exact (Mimics.pure rfl).before (.seeing (.refl _) _)
  · refine ((h.expr Γ .default).weaken (.seeing (.refl _) _) (.moved _)).bind fun argument => ?_
    refine look (fun _ => rfl) (.refl _) fun k => ?_
    split
    · exact (Mimics.pure rfl).before (.seeing (.refl _) _)
    · refine ((demand (by decide) _).before (.seeing (.refl _) _)).bind fun _ => ?_
      exact ((h.arguments Γ).before .firm_moved_loose).bind fun rest => .pure rfl

theorem succ (h : InTandem w n m) : InTandem w (n + 1) (m + 1) where
  expr := h.expr_succ
  opening := h.opening_succ
  rest := h.rest_succ
  continuation := h.continuation_succ
  grouping := h.grouping_succ
  unary := h.unary_succ
  stepBefore := h.stepBefore_succ
  binary := h.binary_succ
  assign := h.assign_succ
  call := h.call_succ
  arguments := h.arguments_succ

theorem all (w : Tandem) (h : n ≤ m) : InTandem w n m := by
  induction n generalizing m with
  | zero => exact zero m
  | succ n ih =>
    cases m with
    | zero => cases h
    | succ m => exact (ih (Nat.le_of_succ_le_succ h)).succ

end InTandem

end Expr

end TypedScript
