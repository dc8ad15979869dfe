import TypedScript.Proofs.Spans.Lays

/-! Every expression that is read stands on the tokens passed for it. The handlers put spans
together in different ways, from an operator, an operand or the latest token, and each way gives
the first and the last of these tokens. -/

namespace TypedScript

open Token Parse Cursor

namespace Phrase

variable {ts : List Token}

theorem Stands.leaf {x : Phrase} (hx : x.children = []) (h : Covers ts x.span) : Stands ts x :=
  ⟨h, hx ▸ .nil _⟩

theorem children_withSpan (e : Expr) (span : Span) :
    (expr (e.withSpan span)).children = (expr e).children := by
  cases e <;> rfl

theorem span_withSpan (e : Expr) (span : Span) : (expr (e.withSpan span)).span = span := by
  cases e <;> rfl

theorem Stands.withSpan {e : Expr} (h : Stands ts (expr e)) (gap rest : List Token) {span : Span}
    (hspan : Covers (gap ++ (ts ++ rest)) span) :
    Stands (gap ++ (ts ++ rest)) (expr (e.withSpan span)) := by
  constructor
  · rwa [span_withSpan]
  · rw [children_withSpan]
    exact (h.row.before rest).behind gap

end Phrase

namespace Expr

open Phrase (Row Stands)

theorem parsePrimary_lays (Γ : Context) :
    (parsePrimary Γ).Lays (· ≠ .eof) fun _ ts e => Stands ts (.expr e) := by
  refine Lays.one (.advance fun _ h => h) fun token => ?_
  have hleaf {e : Expr} (he : (Phrase.expr e).children = []) (hs : e.span = token.span) :
      Stands [token] (.expr e) := .leaf he (by
    rw [Phrase.span, hs]
    exact covers_singleton token)
  dsimp only
  split
  · split
    · exact .pure fun _ _ _ => hleaf rfl rfl
    · exact .fail _
  · split
    · exact .pure fun _ _ _ => hleaf rfl rfl
    · exact .fail _
  · exact .pure fun _ _ _ => hleaf rfl rfl
  · exact .pure fun _ _ _ => hleaf rfl rfl
  · exact .pure fun _ _ _ => hleaf rfl rfl
  · exact .pure fun _ _ _ => hleaf rfl rfl
  · exact .still (.stays (typeOfName_stays _ _ _)) fun _ => .pure fun _ _ _ => hleaf rfl rfl
  · exact .fail _

theorem parseStep_lays (operator : Token) (target : Expr) (before : Bool) (span : Span) :
    (parseStep operator target before span).Lays (fun _ => True)
      fun _ us e => us = [] ∧ ∀ ts, Covers ts span → Stands ts (.expr e) := by
  rw [parseStep]
  split
  · exact .refuse _
  · split
    · exact .fail _
    · refine .still (.stays (typeStep_stays _ _)) fun _ => .pure fun _ => ⟨rfl, fun ts hts => ?_⟩
      exact .leaf rfl hts

/-- What carries on from `left` gives an expression on the tokens of `left` and those passed. -/
def CarriesOn (left : Expr) (_ ts : List Token) (e : Expr) : Prop :=
  ∀ ls, Stands ls (.expr left) → Stands (ls ++ ts) (.expr e)

theorem parseMember_lays (Γ : Context) (left : Expr) :
    (parseMember Γ left).Lays (· ≠ .eof) (CarriesOn left) := by
  rw [parseMember]
  refine Lays.one (.advance fun _ h => h) fun dot => ?_
  refine Lays.one (.demand (by decide) _) fun member => ?_
  refine Lays.spanSince (fun _ => rfl) fun stop => ?_
  refine .still (.stays (typeMember_stays _ _ _ _)) fun ty => .pure ?_
  rintro _ hstop _ rfl _ rfl ls hleft
  refine ⟨⟨hleft.covers.start.append _, ?_⟩, .before (.one hleft) _⟩
  exact ((hstop member [] _ rfl).behind [dot]).behind ls

theorem parseStepAfter_lays (left : Expr) :
    (parseStepAfter left).Lays (· ≠ .eof) (CarriesOn left) := by
  refine Lays.one (.advance fun _ h => h) fun operator => ?_
  refine (parseStep_lays _ _ _ _).mono ?_
  rintro _ _ e ⟨rfl, he⟩ _ rfl ls hleft
  exact he _ ⟨hleft.covers.start.append _, stopsAt_concat ls operator⟩

structure Standing (n : Nat) : Prop where
  expr : ∀ Γ bound, (parseAt n Γ bound).Lays (fun _ => True) fun _ ts e => Stands ts (.expr e)
  opening : ∀ Γ, (parseOpeningAt n Γ).Lays (fun _ => True) fun _ ts e => Stands ts (.expr e)
  rest : ∀ Γ bound left, (parseRestAt n Γ bound left).Lays (fun _ => True) (CarriesOn left)
  continuation : ∀ Γ form power left,
    (parseContinuationAt n Γ form power left).Lays (· ≠ .eof) (CarriesOn left)
  grouping : ∀ Γ, (parseGroupingAt n Γ).Lays (· ≠ .eof) fun _ ts e => Stands ts (.expr e)
  unary : ∀ Γ, (parseUnaryAt n Γ).Lays (· ≠ .eof) fun _ ts e => Stands ts (.expr e)
  stepBefore : ∀ Γ, (parseStepBeforeAt n Γ).Lays (· ≠ .eof) fun _ ts e => Stands ts (.expr e)
  binary : ∀ Γ power left, (parseBinaryAt n Γ power left).Lays (· ≠ .eof) (CarriesOn left)
  assign : ∀ Γ left, (parseAssignAt n Γ left).Lays (· ≠ .eof) (CarriesOn left)
  call : ∀ Γ left, (parseCallAt n Γ left).Lays (· ≠ .eof) (CarriesOn left)
  arguments : ∀ Γ, (parseArgumentsAt n Γ).Lays (fun _ => True)
    fun _ ts args => Row Stands ts (args.map .expr)

namespace Standing

variable {n : Nat}

theorem zero : Standing 0 := by
  constructor <;> intros <;> exact .exhausted

theorem opening_succ (h : Standing n) (Γ : Context) :
    (parseOpeningAt (n + 1) Γ).Lays (fun _ => True) fun _ ts e => Stands ts (.expr e) := by
  rw [parseOpeningAt]
  refine Lays.look (fun _ => rfl) fun kind _ => ?_
  cases ho : kind.opening? with
  | none => exact .refuse _
  | some o =>
    have hne : ∀ k, k = kind → k ≠ .eof := by
      rintro _ rfl
      exact (Kind.inner_of_opening ho).1
    cases o with
    | primary => exact (parsePrimary_lays Γ).within hne
    | grouping => exact (h.grouping Γ).within hne
    | unary => exact (h.unary Γ).within hne
    | step => exact (h.stepBefore Γ).within hne

theorem rest_succ (h : Standing n) (Γ : Context) (bound : Power) (left : Expr) :
    (parseRestAt (n + 1) Γ bound left).Lays (fun _ => True) (CarriesOn left) := by
  have hleft {past : List Token} : CarriesOn left past [] left := fun ls hls => by simpa using hls
  rw [parseRestAt]
  refine Lays.look (fun _ => rfl) fun kind _ => ?_
  cases hc : kind.continuation? with
  | none => exact .pure fun _ => hleft
  | some x =>
    dsimp only
    split
    · have hne : ∀ k, k = kind → k ≠ .eof := by
        rintro _ rfl
        exact (Kind.inner_of_continuation hc).1
      refine Lays.bind ((h.continuation _ _ _ _).within hne) fun longer => ?_
      refine (h.rest Γ bound longer).mono fun _ us e he past ts _ hlonger ls hls => ?_
      rw [← List.append_assoc]
      exact he _ (hlonger ls hls)
    · exact .pure fun _ => hleft

theorem grouping_succ (h : Standing n) (Γ : Context) :
    (parseGroupingAt (n + 1) Γ).Lays (· ≠ .eof) fun _ ts e => Stands ts (.expr e) := by
  rw [parseGroupingAt]
  refine Lays.one (.advance fun _ h => h) fun o => (h.expr Γ _).bind fun inner => ?_
  refine Lays.one (.expect (by decide)) fun c => Lays.spanSince (fun _ => rfl) fun stop => .pure ?_
  rintro _ hstop _ rfl _ ts rfl hinner _ rfl
  refine hinner.withSpan [o] [c] ⟨startsAt_cons o _, ?_⟩
  exact ((hstop c [] _ rfl).behind ts).behind [o]

theorem unary_succ (h : Standing n) (Γ : Context) :
    (parseUnaryAt (n + 1) Γ).Lays (· ≠ .eof) fun _ ts e => Stands ts (.expr e) := by
  rw [parseUnaryAt]
  refine Lays.one (.advance fun _ h => h) fun operator => ?_
  split
  · exact .fail _
  · refine (h.expr Γ _).bind fun operand => ?_
    refine .still (.stays (typeUnary_stays _ _ _)) fun ty => .pure ?_
    rintro _ _ ts rfl hoperand _ rfl
    rw [List.append_nil]
    refine ⟨⟨startsAt_cons operator ts, hoperand.covers.stop.behind [operator]⟩, ?_⟩
    exact .behind [operator] (.one hoperand)

theorem stepBefore_succ (h : Standing n) (Γ : Context) :
    (parseStepBeforeAt (n + 1) Γ).Lays (· ≠ .eof) fun _ ts e => Stands ts (.expr e) := by
  rw [parseStepBeforeAt]
  refine Lays.one (.advance fun _ h => h) fun operator => (h.expr Γ _).bind fun target => ?_
  refine (parseStep_lays _ _ _ _).mono ?_
  rintro _ _ e ⟨rfl, he⟩ _ ts rfl htarget _ rfl
  rw [List.append_nil]
  exact he _ ⟨startsAt_cons operator ts, htarget.covers.stop.behind [operator]⟩

theorem binary_succ (h : Standing n) (Γ : Context) (power : Power) (left : Expr) :
    (parseBinaryAt (n + 1) Γ power left).Lays (· ≠ .eof) (CarriesOn left) := by
  rw [parseBinaryAt]
  refine Lays.one (.advance fun _ h => h) fun operator => ?_
  split
  · exact .fail _
  · refine (h.expr Γ _).bind fun right => ?_
    refine .still (.stays (typeBinary_stays _ _ _ _)) fun ty => .pure ?_
    rintro _ _ ts rfl hright _ rfl ls hleft
    rw [List.append_nil]
    refine ⟨⟨hleft.covers.start.append _, (hright.covers.stop.behind [operator]).behind ls⟩, ?_⟩
    exact (Row.one hleft).append (.behind [operator] (.one hright))

theorem assign_succ (h : Standing n) (Γ : Context) (left : Expr) :
    (parseAssignAt (n + 1) Γ left).Lays (· ≠ .eof) (CarriesOn left) := by
  rw [parseAssignAt]
  refine Lays.one (.advance fun _ h => h) fun operator => ?_
  split
  · exact .fail _
  · refine (h.expr Γ _).bind fun value => ?_
    refine .still (.stays (typeAssign_stays _ _)) fun ty => .pure ?_
    rintro _ _ ts rfl hvalue _ rfl ls hleft
    rw [List.append_nil]
    refine ⟨⟨hleft.covers.start.append _, (hvalue.covers.stop.behind [operator]).behind ls⟩, ?_⟩
    exact .behind ls (.behind [operator] (.one hvalue))

theorem call_succ (h : Standing n) (Γ : Context) (left : Expr) :
    (parseCallAt (n + 1) Γ left).Lays (· ≠ .eof) (CarriesOn left) := by
  rw [parseCallAt]
  refine Lays.one (.advance fun _ h => h) fun o => (h.arguments Γ).bind fun args => ?_
  refine Lays.one (.expect (by decide)) fun c => Lays.spanSince (fun _ => rfl) fun stop => ?_
  refine .still (.stays (typeCall_stays _ _ _)) fun ty => .pure ?_
  rintro _ hstop _ rfl _ ts rfl hargs _ rfl ls hleft
  refine ⟨⟨hleft.covers.start.append _, ?_⟩, (Row.one hleft).append ?_⟩
  · exact (((hstop c [] _ rfl).behind ts).behind [o]).behind ls
  · exact (hargs.before [c]).behind [o]

theorem arguments_succ (h : Standing n) (Γ : Context) : (parseArgumentsAt (n + 1) Γ).Lays
    (fun _ => True) fun _ ts args => Row Stands ts (args.map .expr) := by
  rw [parseArgumentsAt]
  refine Lays.look (fun _ => rfl) fun _ _ => ?_
  split
  · exact .pure fun _ => .nil []
  · refine Lays.bind (h.expr Γ _).anywhere fun argument => Lays.look (fun _ => rfl) fun _ _ => ?_
    split
    · refine .pure ?_
      rintro _ _ ts rfl hargument
      rw [List.append_nil]
      exact .one hargument
    · refine Lays.one (.demand (by decide) _) fun comma => ?_
      refine (h.arguments Γ).bind fun rest => .pure ?_
      rintro _ _ us rfl hrest _ rfl _ ts rfl hargument
      rw [List.append_nil]
      exact (Row.one hargument).append (hrest.behind [comma])

theorem succ (h : Standing n) : Standing (n + 1) where
  expr Γ bound := by
    rw [parseAt]
    refine (h.opening Γ).bind fun left => (h.rest Γ bound left).mono ?_
    exact fun _ us e he past ts _ hleft => he ts hleft
  opening := h.opening_succ
  rest := h.rest_succ
  continuation Γ form power left := by
    cases form with
    | binary => exact h.binary Γ power left
    | assignment => exact h.assign Γ left
    | step => exact parseStepAfter_lays left
    | call => exact h.call Γ left
    | member => exact parseMember_lays Γ left
  grouping := h.grouping_succ
  unary := h.unary_succ
  stepBefore := h.stepBefore_succ
  binary := h.binary_succ
  assign := h.assign_succ
  call := h.call_succ
  arguments := h.arguments_succ

theorem all (n : Nat) : Standing n := by
  induction n with
  | zero => exact zero
  | succ n ih => exact ih.succ

end Standing

end Expr

end TypedScript
