import TypedScript.Proofs.Grammar.Expr
import TypedScript.Proofs.Grammar.Spells

namespace TypedScript

open Parse Grammar

namespace Grammar

theorem unaryKind_of_ofKind? {k : Token.Kind} {op : UnaryOp} (h : UnaryOp.ofKind? k = some op) :
    k = unaryKind op := by
  cases k <;> cases h <;> rfl

theorem stepKind_of_ofKind? {k : Token.Kind} {op : StepOp} (h : StepOp.ofKind? k = some op) :
    k = stepKind op := by
  cases k <;> cases h <;> rfl

theorem binaryKind_of_ofKind? {k : Token.Kind} {op : BinaryOp} (h : BinaryOp.ofKind? k = some op) :
    k = binaryKind op := by
  cases k <;> cases h <;> rfl

@[simp] theorem continuation?_binaryKind (op : BinaryOp) :
    (binaryKind op).continuation? = some (level op, .binary) := by
  cases op <;> rfl

theorem level_lt_unary (op : BinaryOp) : level op < .unary := by
  cases op <;> decide

theorem not_suffix_lt (k : Token.Kind) : ¬ Power.suffix < k.power := by
  cases k <;> decide

theorem not_primary_lt (k : Token.Kind) : ¬ Power.primary < k.power :=
  fun h => not_suffix_lt k (Nat.lt_trans (by decide : Power.suffix.rank < Power.primary.rank) h)

theorem Admits.assignment {ts : List Token} {e : Tree} (h : Admits .default ts e) :
    Derives .assignment ts e := by
  obtain ⟨p, hp, h⟩ := h
  refine h.of_not_lt fun hlt => ?_
  obtain hp | rfl := hp
  · exact Nat.lt_irrefl _ (Nat.lt_of_lt_of_le hlt hp)
  · exact absurd hlt (by decide)

theorem Admits.above {bound : Power} {ts : List Token} {e : Tree} (h : Admits bound ts e)
    (hb : bound < .unary) : ∃ p, bound < p ∧ Derives p ts e := by
  obtain ⟨p, hp | rfl, h⟩ := h
  · exact ⟨p, hp, h⟩
  · exact ⟨_, hb, h⟩

theorem Admits.unary {ts : List Token} {e : Tree} (h : Admits .unary ts e) :
    Derives .unary ts e := by
  obtain ⟨p, hp | rfl, h⟩ := h
  · exact .lift hp h
  · exact h

end Grammar

namespace Expr

theorem parsePrimary_spells (Γ : Context) : (parsePrimary Γ).Spells fun k ts e _ =>
    k ≠ .eof → Derives .primary ts e.tree := by
  refine Spells.next (fun _ _ _ h => absurd rfl h) fun token => ?_
  split <;> rename_i hk
  · cases hv : Decimal.readInteger? token.value with
    | some i => exact .pure fun _ _ => .literal (by simp [literal?, hk, hv])
    | none => exact .fail
  · cases hv : Decimal.readFloat? token.value with
    | some x => exact .pure fun _ _ => .literal (by simp [literal?, hk, hv])
    | none => exact .fail
  · exact .pure fun _ _ => .literal (by simp [literal?, hk])
  · exact .pure fun _ _ => .literal (by simp [literal?, hk])
  · exact .pure fun _ _ => .literal (by simp [literal?, hk])
  · exact .pure fun _ _ => .literal (by simp [literal?, hk])
  · exact (typeOfName_stays _ _ _).andThen fun ty => .pure fun _ _ => .name hk
  · exact .fail

theorem parseStep_spells (operator : Token) (target : Expr) (before : Bool) (span : Span) :
    (parseStep operator target before span).Spells fun k ts e k' => ts = [] ∧ k' = k ∧
      ∃ op x, operator.kind = stepKind op ∧ target.tree = .name x ∧ e.tree = .step op before x := by
  rw [parseStep]
  cases hop : StepOp.ofKind? operator.kind with
  | none => exact .refuse
  | some op =>
    cases hx : target.asName? with
    | none => exact .fail
    | some x =>
      refine (typeStep_stays _ _).andThen fun ty => .pure fun k => ⟨rfl, rfl, op, x, ?_⟩
      exact ⟨stepKind_of_ofKind? hop, asName?_eq_some.1 hx, rfl⟩

theorem parseStepAfter_spells (left : Expr) : (parseStepAfter left).Spells fun k ts e _ =>
    k ≠ .eof → ∀ {p ls}, Derives p ls left.tree → Derives .suffix (ls ++ ts) e.tree := by
  refine Spells.next (fun _ _ _ h => absurd rfl h) fun operator => ?_
  refine (parseStep_spells _ _ _ _).mono ?_
  rintro _ _ e _ ⟨rfl, rfl, op, x, hop, hx, he⟩ _ p ls hleft
  exact he ▸ .stepAfter (hleft.target hx) hop

theorem parseMember_spells (Γ : Context) (left : Expr) : (parseMember Γ left).Spells fun k ts e _ =>
    k = .dot → ∀ {ls}, Derives .suffix ls left.tree → Derives .suffix (ls ++ ts) e.tree := by
  refine Spells.next nofun fun dot => Spells.token (.demand (by decide) _) fun m => ?_
  refine (Stays.spanSince _).andThen fun span => (typeMember_stays _ _ _ _).andThen fun ty => ?_
  exact .pure fun _ hm hdot ls hleft => .member hleft hdot hm

structure Spelled (n : Nat) : Prop where
  expr : ∀ Γ bound, (parseAt n Γ bound).Spells fun _ ts e k' =>
    ¬ Power.unary < bound → Admits bound ts e.tree ∧ ¬ bound < k'.power
  opening : ∀ Γ, (parseOpeningAt n Γ).Spells fun _ ts e k' =>
    ∃ p, ¬ p < .unary ∧ Derives p ts e.tree ∧ ¬ p < k'.power
  rest : ∀ Γ bound left, (parseRestAt n Γ bound left).Spells fun k ts e k' =>
    ∀ {p ls}, (bound < p ∨ p = .unary) → Derives p ls left.tree → ¬ p < k.power →
      Admits bound (ls ++ ts) e.tree ∧ ¬ bound < k'.power
  continuation : ∀ Γ form power left, (parseContinuationAt n Γ form power left).Spells
    fun k ts e k' => k.continuation? = some (power, form) →
      ∀ {p ls}, Derives p ls left.tree → ¬ p < power →
        Derives power (ls ++ ts) e.tree ∧ ¬ power < k'.power
  grouping : ∀ Γ, (parseGroupingAt n Γ).Spells fun k ts e _ =>
    k = .openParen → Derives .primary ts e.tree
  unary : ∀ Γ, (parseUnaryAt n Γ).Spells fun k ts e k' =>
    k ≠ .eof → Derives .unary ts e.tree ∧ ¬ Power.unary < k'.power
  stepBefore : ∀ Γ, (parseStepBeforeAt n Γ).Spells fun k ts e k' =>
    k ≠ .eof → Derives .unary ts e.tree ∧ ¬ Power.unary < k'.power
  binary : ∀ Γ power left, (parseBinaryAt n Γ power left).Spells fun k ts e k' =>
    k.continuation? = some (power, .binary) → ∀ {ls}, Derives power ls left.tree →
      Derives power (ls ++ ts) e.tree ∧ ¬ power < k'.power
  assign : ∀ Γ left, (parseAssignAt n Γ left).Spells fun k ts e k' =>
    k = .assignment → ∀ {p ls}, Derives p ls left.tree →
      Derives .assignment (ls ++ ts) e.tree ∧ ¬ Power.default < k'.power
  call : ∀ Γ left, (parseCallAt n Γ left).Spells fun k ts e _ =>
    k = .openParen → ∀ {ls}, Derives .suffix ls left.tree → Derives .suffix (ls ++ ts) e.tree
  arguments : ∀ Γ, (parseArgumentsAt n Γ).Spells fun _ ts es _ => Arguments ts (trees es)

namespace Spelled

variable {n : Nat}

theorem zero : Spelled 0 where
  expr _ _ := .exhausted
  opening _ := .exhausted
  rest _ _ _ := .exhausted
  continuation _ _ _ _ := .exhausted
  grouping _ := .exhausted
  unary _ := .exhausted
  stepBefore _ := .exhausted
  binary _ _ _ := .exhausted
  assign _ _ := .exhausted
  call _ _ := .exhausted
  arguments _ := .exhausted

theorem opening_succ (h : Spelled n) (Γ : Context) : (parseOpeningAt (n + 1) Γ).Spells
    fun _ ts e k' => ∃ p, ¬ p < .unary ∧ Derives p ts e.tree ∧ ¬ p < k'.power := by
  rw [parseOpeningAt]
  refine Spells.look fun kind => ?_
  -- an end token begins nothing
  have hne : ∀ {k o}, k = kind → kind.opening? = some o → k ≠ .eof := by
    rintro k o rfl ho rfl
    cases ho
  split <;> rename_i hopen
  · exact .refuse
  · refine (parsePrimary_spells Γ).mono fun k ts e k' he hk => ?_
    exact ⟨.primary, by decide, he (hne hk hopen), not_primary_lt _⟩
  · refine (h.grouping Γ).mono fun k ts e k' he hk => ⟨.primary, by decide, he ?_, not_primary_lt _⟩
    subst hk
    cases k <;> first | rfl | cases hopen
  · exact (h.unary Γ).mono fun k ts e k' he hk => ⟨.unary, by decide, he (hne hk hopen)⟩
  · exact (h.stepBefore Γ).mono fun k ts e k' he hk => ⟨.unary, by decide, he (hne hk hopen)⟩

theorem rest_succ (h : Spelled n) (Γ : Context) (bound : Power) (left : Expr) :
    (parseRestAt (n + 1) Γ bound left).Spells fun k ts e k' =>
      ∀ {p ls}, (bound < p ∨ p = .unary) → Derives p ls left.tree → ¬ p < k.power →
        Admits bound (ls ++ ts) e.tree ∧ ¬ bound < k'.power := by
  rw [parseRestAt]
  refine Spells.look fun kind => ?_
  split <;> rename_i hcont
  · refine .pure ?_
    rintro _ rfl p ls hp hleft -
    refine ⟨⟨p, hp, by simpa using hleft⟩, ?_⟩
    rw [Token.Kind.power, hcont]
    exact Nat.not_lt_zero _
  · rename_i power form
    split <;> rename_i hbound
    · refine (h.continuation Γ form power left).bind fun longer => ?_
      refine (h.rest Γ bound longer).mono ?_
      rintro k' us e k'' hrest k ts hlonger rfl p ls hp hleft hlt
      have hpower : k.power = power := by rw [Token.Kind.power, hcont]
      obtain ⟨hd, hk'⟩ := hlonger hcont hleft (hpower ▸ hlt)
      rw [← List.append_assoc]
      exact hrest (.inl hbound) hd hk'
    · refine .pure ?_
      rintro _ rfl p ls hp hleft -
      refine ⟨⟨p, hp, by simpa using hleft⟩, ?_⟩
      rwa [Token.Kind.power, hcont]

theorem continuation_succ (h : Spelled n) (Γ : Context) (form : Continuation) (power : Power)
    (left : Expr) : (parseContinuationAt (n + 1) Γ form power left).Spells fun k ts e k' =>
      k.continuation? = some (power, form) → ∀ {p ls}, Derives p ls left.tree → ¬ p < power →
        Derives power (ls ++ ts) e.tree ∧ ¬ power < k'.power := by
  simp only [parseContinuationAt]
  cases form with
  | binary =>
    refine (h.binary Γ power left).mono fun k ts e k' he hk p ls hleft hp => ?_
    exact he hk (hleft.of_not_lt hp)
  | assignment =>
    refine (h.assign Γ left).mono fun k ts e k' he hk p ls hleft hp => ?_
    obtain ⟨rfl, rfl⟩ : k = .assignment ∧ power = .assignment := by
      cases k <;> cases hk
      trivial
    obtain ⟨hd, hk'⟩ := he rfl hleft
    exact ⟨hd, fun hlt => hk' (Nat.lt_trans (by decide) hlt)⟩
  | step =>
    refine (parseStepAfter_spells left).mono fun k ts e k' he hk p ls hleft hp => ?_
    obtain ⟨hne, rfl⟩ : k ≠ .eof ∧ power = .suffix := by
      cases k <;> cases hk <;> simp
    exact ⟨he hne hleft, not_suffix_lt _⟩
  | call =>
    refine (h.call Γ left).mono fun k ts e k' he hk p ls hleft hp => ?_
    obtain ⟨rfl, rfl⟩ : k = .openParen ∧ power = .suffix := by
      cases k <;> cases hk
      trivial
    exact ⟨he rfl (hleft.of_not_lt hp), not_suffix_lt _⟩
  | member =>
    refine (parseMember_spells Γ left).mono fun k ts e k' he hk p ls hleft hp => ?_
    obtain ⟨rfl, rfl⟩ : k = .dot ∧ power = .suffix := by
      cases k <;> cases hk
      trivial
    exact ⟨he rfl (hleft.of_not_lt hp), not_suffix_lt _⟩

theorem binary_succ (h : Spelled n) (Γ : Context) (power : Power) (left : Expr) :
    (parseBinaryAt (n + 1) Γ power left).Spells fun k ts e k' =>
      k.continuation? = some (power, .binary) → ∀ {ls}, Derives power ls left.tree →
        Derives power (ls ++ ts) e.tree ∧ ¬ power < k'.power := by
  rw [parseBinaryAt]
  refine Spells.next nofun fun operator => ?_
  split <;> rename_i hop
  · exact .fail
  · rename_i op
    have hkind := binaryKind_of_ofKind? hop
    refine (h.expr Γ power).bind fun right => (typeBinary_stays _ _ _ _).andThen fun ty => .pure ?_
    intro _ _ ts hright hk ls hleft
    obtain rfl : level op = power := by simpa [hkind] using hk
    obtain ⟨hright, hk'⟩ := hright (Nat.lt_asymm (level_lt_unary op))
    obtain ⟨q, hq, hr⟩ := hright.above (level_lt_unary op)
    rw [List.append_nil]
    exact ⟨.binary hleft hkind hq hr, hk'⟩

theorem succ (h : Spelled n) : Spelled (n + 1) where
  expr Γ bound := by
    rw [parseAt]
    refine (h.opening Γ).bind fun left => (h.rest Γ bound left).mono ?_
    rintro k' us e k'' hrest _ ts ⟨p, hp, hleft, hk'⟩ hb
    refine hrest ?_ hleft hk'
    by_cases hpu : p = .unary
    · exact .inr hpu
    · refine .inl (Nat.lt_of_le_of_lt (Nat.le_of_not_lt hb) ?_)
      exact Nat.lt_of_le_of_ne (Nat.le_of_not_lt hp) fun hr => hpu (Power.eq_of_rank hr.symm)
  opening := h.opening_succ
  rest := h.rest_succ
  continuation := h.continuation_succ
  grouping Γ := by
    rw [parseGroupingAt]
    refine Spells.next nofun fun opening => (h.expr Γ _).bind fun inner => ?_
    refine Spells.token (.expect (by decide)) fun closing => ?_
    refine (Stays.spanSince _).andThen fun span => ?_
    refine .pure ?_
    intro _ hclosing _ ts hinner hopening
    rw [tree_withSpan]
    exact .group hopening hclosing (hinner (by decide)).1.assignment
  unary Γ := by
    rw [parseUnaryAt]
    refine Spells.next (fun _ _ _ h => absurd rfl h) fun operator => ?_
    split <;> rename_i hop
    · exact .fail
    · refine (h.expr Γ _).bind fun operand => (typeUnary_stays _ _ _).andThen fun ty => ?_
      refine .pure ?_
      intro _ _ ts hoperand _
      obtain ⟨hoperand, hk⟩ := hoperand (by decide)
      rw [List.append_nil]
      exact ⟨.unary (unaryKind_of_ofKind? hop) hoperand.unary, hk⟩
  stepBefore Γ := by
    rw [parseStepBeforeAt]
    refine Spells.next (fun _ _ _ h => absurd rfl h) fun operator => ?_
    refine (h.expr Γ _).bind fun target => (parseStep_spells _ _ _ _).mono ?_
    rintro _ _ e _ ⟨rfl, rfl, op, x, hop, hx, he⟩ _ ts htarget -
    obtain ⟨htarget, hk⟩ := htarget (by decide)
    rw [List.append_nil, he]
    exact ⟨.stepBefore hop (htarget.unary.target hx), hk⟩
  binary := h.binary_succ
  assign Γ left := by
    rw [parseAssignAt]
    refine Spells.next nofun fun operator => ?_
    cases hx : left.asName? with
    | none => exact .fail
    | some x =>
      refine (h.expr Γ _).bind fun value => (typeAssign_stays _ _).andThen fun ty => ?_
      refine .pure ?_
      intro _ _ ts hvalue hop p ls hleft
      obtain ⟨hvalue, hk⟩ := hvalue (by decide)
      rw [List.append_nil]
      exact ⟨.assign (hleft.target (asName?_eq_some.1 hx)) hop hvalue.assignment, hk⟩
  call Γ left := by
    rw [parseCallAt]
    refine Spells.next nofun fun opening => (h.arguments Γ).bind fun args => ?_
    refine Spells.token (.expect (by decide)) fun closing => ?_
    refine (Stays.spanSince _).andThen fun span => ?_
    refine (typeCall_stays _ _ _).andThen fun ty => .pure ?_
    intro _ hclosing _ ts hargs hopening ls hleft
    simpa [tree] using Derives.call hleft hopening hargs hclosing
  arguments Γ := by
    rw [parseArgumentsAt]
    refine Spells.look fun _ => ?_
    split
    · exact .pure fun _ _ => .none
    · refine (h.expr Γ _).bind fun e => Spells.look fun _ => ?_
      split
      · refine .pure ?_
        intro _ _ _ ts he _
        rw [List.append_nil]
        exact .last (he (by decide)).1.assignment
      · refine Spells.token (.demand (by decide) _) fun comma => ?_
        refine (h.arguments Γ).bind fun es => .pure ?_
        intro _ _ us hes hcomma _ _ ts he _
        rw [List.append_nil]
        exact .more (he (by decide)).1.assignment hcomma hes

theorem all (n : Nat) : Spelled n := by
  induction n with
  | zero => exact zero
  | succ n ih => exact ih.succ

end Spelled

end Expr

end TypedScript
