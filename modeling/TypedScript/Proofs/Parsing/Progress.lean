import TypedScript.Proofs.Grammar.Spells
import TypedScript.Proofs.Parsing.Braces
import TypedScript.Stmt.Parser

/-! Parsers of types and expressions go forward only, over no brace, and pass a token before
they call themselves again. Enough fuel is therefore a matter of how many tokens are left. -/

namespace TypedScript

def Token.Kind.Inner (k : Token.Kind) : Prop := k ≠ .eof ∧ k.weight = 0

instance (k : Token.Kind) : Decidable k.Inner :=
  inferInstanceAs (Decidable (k ≠ .eof ∧ k.weight = 0))

theorem Token.Kind.inner_of_opening {k : Token.Kind} {o : Opening} (h : k.opening? = some o) :
    k.Inner := by
  cases k <;> first | decide | cases h

theorem Token.Kind.inner_of_continuation {k : Token.Kind} {x : Power × Continuation}
    (h : k.continuation? = some x) : k.Inner := by
  cases k <;> first | decide | cases h

namespace Cursor.Reaches

variable {c d : Cursor} {ts : List Token}

theorem length (h : c.Reaches ts d) : d.ahead.length + ts.length = c.ahead.length := by
  have := congrArg List.length h.upcoming
  simp [Cursor.upcoming] at this
  omega

theorem index (h : c.Reaches ts d) : d.index = c.index + ts.length := by
  simp [Cursor.index, h.passed, Nat.add_comm]

end Cursor.Reaches

/-- What a parser with `n` fuel does from where the current token is as `K` says. It passes no
brace, and `i` tokens at least if it succeeds. It runs out of fuel only if it has less than 16 for
each token ahead and `k` besides. -/
def Parse.Treads {α : Type} (p : Parse Cursor α) (K : Token.Kind → Prop) (n k i : Nat) : Prop :=
  ∀ c, c.Closed → K c.kind → match p c with
    | .ok _ d => ∃ ts, c.Reaches ts d ∧ Token.Plain ts ∧ i ≤ ts.length
    | .error _ d => ∃ ts, c.Reaches ts d ∧ Token.Plain ts
    | .exhausted => n < 16 * c.ahead.length + k

namespace Parse.Treads

open Cursor Token

variable {α β : Type} {p : Parse Cursor α} {f : α → Parse Cursor β} {K : Token.Kind → Prop}
  {n k i j : Nat}

theorem mono (h : p.Treads K n k i) {K' : Token.Kind → Prop} {k' i' : Nat} (hk : k ≤ k')
    (hi : i' ≤ i) (hK : ∀ x, K' x → K x) : p.Treads K' n k' i' := by
  intro c hc hkind
  have h := h c hc (hK _ hkind)
  split <;> rename_i hp <;> rw [hp] at h
  · obtain ⟨ts, hts, hplain, hlen⟩ := h
    exact ⟨ts, hts, hplain, hi.trans hlen⟩
  · exact h
  · exact Nat.lt_of_lt_of_le h (by omega)

theorem within (h : p.Treads (fun _ => True) n k i) {k' : Nat} (hk : k ≤ k') :
    p.Treads K n k' i := h.mono hk (Nat.le_refl i) fun _ _ => trivial

theorem succ (h : p.Treads K n k i) : p.Treads K (n + 1) (k + 1) i := by
  intro c hc hkind
  have h := h c hc hkind
  split <;> rename_i hp <;> rw [hp] at h
  · exact h
  · exact h
  · dsimp only at h
    omega

theorem pure (a : α) : Treads (Pure.pure a : Parse Cursor α) K n k 0 :=
  fun c _ _ => ⟨[], .refl c, nofun, Nat.le_refl 0⟩

theorem error {d : Cursor → Diagnostic} :
    Treads (fun c => .error (d c) c : Parse Cursor α) K n k i :=
  fun c _ _ => ⟨[], .refl c, nofun⟩

theorem fail (d : Diagnostic) : Treads (Parse.fail d : Parse Cursor α) K n k i := error

theorem refuse (message : String) : Treads (Cursor.refuse message : Parse Cursor α) K n k i := error

theorem exhausted : Treads (Parse.exhausted : Parse Cursor α) K 0 (k + 1) i :=
  fun c _ _ => (by omega : 0 < 16 * c.ahead.length + (k + 1))

theorem bind (h : p.Treads K n k j)
    (hf : ∀ a, (f a).Treads (fun _ => True) n (k + 16 * j) (i - j)) :
    (p >>= f).Treads K n k i := by
  intro c hc hkind
  have h := h c hc hkind
  rw [bind_apply]
  cases hp : p c with
  | error d t =>
    rw [hp] at h
    exact h
  | exhausted =>
    rw [hp] at h
    exact h
  | ok a d =>
    rw [hp] at h
    obtain ⟨ts, hts, hplain, hlen⟩ := h
    have h := hf a d (hts.closed hc) trivial
    dsimp only
    split <;> rename_i hq <;> rw [hq] at h
    · obtain ⟨us, hus, hplain', hlen'⟩ := h
      refine ⟨ts ++ us, hts.trans hus, hplain.append hplain', ?_⟩
      rw [List.length_append]
      omega
    · obtain ⟨us, hus, hplain'⟩ := h
      exact ⟨ts ++ us, hts.trans hus, hplain.append hplain'⟩
    · have := hts.length
      dsimp only at h
      omega

theorem look {f : Token.Kind → Parse Cursor β}
    (h : ∀ x, K x → (f x).Treads (· = x) n k i) : (currentKind >>= f).Treads K n k i :=
  fun c hc hkind => h c.kind hkind c hc rfl

theorem advance (hK : ∀ x, K x → x.Inner) : Cursor.advance.Treads K n k 1 := by
  intro c hc hkind
  obtain ⟨hne, hweight⟩ := hK _ hkind
  refine ⟨[c.current], reaches_next hc hne, fun t ht => ?_, Nat.le_refl 1⟩
  rw [List.mem_singleton.1 ht]
  exact hweight

theorem expectOr {kind : Token.Kind} (hkind : kind.Inner) (d : Diagnostic) :
    (Cursor.expectOr kind d).Treads K n k 1 := by
  intro c hc _
  by_cases hk : c.kind = kind
  · rw [Cursor.expectOr, if_pos hk]
    exact advance (n := n) (k := k) (fun _ h => h) c hc (by rw [hk]; exact hkind)
  · rw [Cursor.expectOr, if_neg hk]
    exact ⟨[], .refl c, List.forall_mem_nil _⟩

theorem expect {kind : Token.Kind} (hkind : kind.Inner) :
    (Cursor.expect kind).Treads K n k 1 := fun c => expectOr hkind _ c

theorem demand {kind : Token.Kind} (hkind : kind.Inner) (message : String) :
    (Cursor.demand kind message).Treads K n k 1 := fun c => expectOr hkind _ c

theorem stays (h : p.Stays) : p.Treads K n k 0 := by
  intro c _ _
  obtain ⟨a, ds, hp⟩ := h c
  rw [hp]
  exact ⟨[], ⟨rfl, rfl⟩, nofun, Nat.le_refl 0⟩

theorem ok (h : p.Treads K n k i) {a : α} {c d : Cursor} (hc : c.Closed) (hkind : K c.kind)
    (hp : p c = .ok a d) : ∃ ts, c.Reaches ts d ∧ i ≤ ts.length := by
  have h := h c hc hkind
  rw [hp] at h
  obtain ⟨ts, hts, -, hlen⟩ := h
  exact ⟨ts, hts, hlen⟩

theorem ends (h : p.Treads K n k i) {c : Cursor} (hc : c.Closed) (hkind : K c.kind)
    (hn : c.fuel ≤ n) (hk : k ≤ 32) :
    (∃ a ts d, p c = .ok a d ∧ c.Reaches ts d ∧ i ≤ ts.length) ∨
      ∃ e ts d, p c = .error e d ∧ c.Reaches ts d := by
  have h := h c hc hkind
  cases hp : p c with
  | ok a d =>
    rw [hp] at h
    obtain ⟨ts, hts, -, hlen⟩ := h
    exact .inl ⟨a, ts, d, rfl, hts, hlen⟩
  | error e d =>
    rw [hp] at h
    obtain ⟨ts, hts, -⟩ := h
    exact .inr ⟨e, ts, d, rfl, hts⟩
  | exhausted =>
    rw [hp] at h
    rw [Cursor.fuel] at hn
    dsimp only at h
    omega

end Parse.Treads

open Parse Cursor

namespace Ty

theorem resolve_treads (Γ : Context) (name : Token) {K : Token.Kind → Prop} {n k : Nat} :
    (resolve Γ name).Treads K n k 0 := by
  rw [resolve]
  split
  · exact .pure _
  · exact .fail _

structure Trodden (n : Nat) : Prop where
  type : ∀ Γ, (parseAt n Γ).Treads (fun _ => True) n 2 1
  function : ∀ Γ, (parseFunctionAt n Γ).Treads (fun _ => True) n 1 1
  list : ∀ Γ, (parseListAt n Γ).Treads (fun _ => True) n 3 0
  result : ∀ Γ, (parseResultAt n Γ).Treads (fun _ => True) n 1 0

namespace Trodden

theorem zero : Trodden 0 where
  type _ := .exhausted
  function _ := .exhausted
  list _ := .exhausted
  result _ := .exhausted

theorem succ {n : Nat} (h : Trodden n) : Trodden (n + 1) where
  type Γ := by
    rw [parseAt]
    refine Treads.succ (Treads.look fun kind _ => ?_)
    split
    · exact Treads.bind (.expect (by decide)) fun name => resolve_treads Γ name
    · exact (h.function Γ).within (by decide)
    · exact .refuse _
  function Γ := by
    rw [parseFunctionAt]
    refine Treads.succ (Treads.bind (.expect (by decide)) fun _ => ?_)
    refine Treads.bind (.expect (by decide)) fun _ => ?_
    refine Treads.bind ((h.list Γ).within (by decide)) fun _ => ?_
    refine Treads.bind (.expect (by decide)) fun _ => ?_
    exact Treads.bind ((h.result Γ).within (by decide)) fun _ => .pure _
  list Γ := by
    rw [parseListAt]
    refine Treads.succ (Treads.look fun _ _ => ?_)
    split
    · exact .pure _
    · refine Treads.bind ((h.type Γ).within (by decide)) fun _ => Treads.look fun _ _ => ?_
      split
      · exact .pure _
      · refine Treads.bind (.expect (by decide)) fun _ => ?_
        exact Treads.bind ((h.list Γ).within (by decide)) fun _ => .pure _
  result Γ := by
    rw [parseResultAt]
    refine Treads.succ (Treads.look fun kind _ => ?_)
    split <;> rename_i hk
    · subst hk
      refine Treads.bind (.advance (by rintro _ rfl; decide)) fun _ => ?_
      exact (h.type Γ).mono (by decide) (by decide) fun _ _ => trivial
    · exact .pure _

theorem all (n : Nat) : Trodden n := by
  induction n with
  | zero => exact zero
  | succ n ih => exact ih.succ

end Trodden

end Ty

namespace Expr

variable {n k : Nat}

theorem parsePrimary_treads (Γ : Context) : (parsePrimary Γ).Treads Token.Kind.Inner n k 1 := by
  refine Treads.bind (.advance fun _ h => h) fun token => ?_
  split
  · split
    · exact .pure _
    · exact .fail _
  · split
    · exact .pure _
    · exact .fail _
  · exact .pure _
  · exact .pure _
  · exact .pure _
  · exact .pure _
  · exact Treads.bind (.stays (typeOfName_stays _ _ _)) fun _ => .pure _
  · exact .fail _

theorem parseStep_treads (operator : Token) (target : Expr) (before : Bool) (span : Span) :
    (parseStep operator target before span).Treads (fun _ => True) n k 0 := by
  rw [parseStep]
  split
  · exact .refuse _
  · split
    · exact .fail _
    · exact Treads.bind (.stays (typeStep_stays _ _)) fun _ => .pure _

theorem parseStepAfter_treads (left : Expr) :
    (parseStepAfter left).Treads Token.Kind.Inner n k 1 :=
  Treads.bind (.advance fun _ h => h) fun _ => parseStep_treads _ _ _ _

theorem parseMember_treads (Γ : Context) (left : Expr) :
    (parseMember Γ left).Treads Token.Kind.Inner n k 1 := by
  refine Treads.bind (.advance fun _ h => h) fun _ => ?_
  refine Treads.bind (.demand (by decide) _) fun _ => ?_
  refine Treads.bind (.stays (.spanSince _)) fun _ => ?_
  exact Treads.bind (.stays (typeMember_stays _ _ _ _)) fun _ => .pure _

structure Trodden (n : Nat) : Prop where
  expr : ∀ Γ bound, (parseAt n Γ bound).Treads (fun _ => True) n 3 1
  opening : ∀ Γ, (parseOpeningAt n Γ).Treads (fun _ => True) n 2 1
  rest : ∀ Γ bound left, (parseRestAt n Γ bound left).Treads (fun _ => True) n 3 0
  continuation : ∀ Γ form power left,
    (parseContinuationAt n Γ form power left).Treads Token.Kind.Inner n 2 1
  grouping : ∀ Γ, (parseGroupingAt n Γ).Treads Token.Kind.Inner n 1 1
  unary : ∀ Γ, (parseUnaryAt n Γ).Treads Token.Kind.Inner n 1 1
  stepBefore : ∀ Γ, (parseStepBeforeAt n Γ).Treads Token.Kind.Inner n 1 1
  binary : ∀ Γ power left, (parseBinaryAt n Γ power left).Treads Token.Kind.Inner n 1 1
  assign : ∀ Γ left, (parseAssignAt n Γ left).Treads Token.Kind.Inner n 1 1
  call : ∀ Γ left, (parseCallAt n Γ left).Treads Token.Kind.Inner n 1 1
  arguments : ∀ Γ, (parseArgumentsAt n Γ).Treads (fun _ => True) n 4 0

namespace Trodden

theorem zero : Trodden 0 := by
  constructor <;> intros <;> exact .exhausted

theorem opening_succ (h : Trodden n) (Γ : Context) :
    (parseOpeningAt (n + 1) Γ).Treads (fun _ => True) (n + 1) 2 1 := by
  rw [parseOpeningAt]
  refine Treads.succ (Treads.look fun kind _ => ?_)
  cases ho : kind.opening? with
  | none => exact .refuse _
  | some o =>
    have hinner : ∀ x, x = kind → x.Inner := by
      rintro _ rfl
      exact Token.Kind.inner_of_opening ho
    cases o with
    | primary => exact (parsePrimary_treads Γ).mono (Nat.le_refl 1) (by decide) hinner
    | grouping => exact (h.grouping Γ).mono (by decide) (by decide) hinner
    | unary => exact (h.unary Γ).mono (by decide) (by decide) hinner
    | step => exact (h.stepBefore Γ).mono (by decide) (by decide) hinner

theorem rest_succ (h : Trodden n) (Γ : Context) (bound : Power) (left : Expr) :
    (parseRestAt (n + 1) Γ bound left).Treads (fun _ => True) (n + 1) 3 0 := by
  rw [parseRestAt]
  refine Treads.succ (Treads.look fun kind _ => ?_)
  cases hc : kind.continuation? with
  | none => exact .pure _
  | some x =>
    dsimp only
    split
    · have hinner : ∀ y, y = kind → y.Inner := by
        rintro _ rfl
        exact Token.Kind.inner_of_continuation hc
      refine Treads.bind ((h.continuation _ _ _ _).mono (by decide) (Nat.le_refl 1) hinner) ?_
      exact fun longer => (h.rest Γ bound longer).within (by decide)
    · exact .pure _

theorem continuation_succ (h : Trodden n) (Γ : Context) (form : Continuation) (power : Power)
    (left : Expr) :
    (parseContinuationAt (n + 1) Γ form power left).Treads Token.Kind.Inner (n + 1) 2 1 := by
  cases form with
  | binary => exact (h.binary Γ power left).succ
  | assignment => exact (h.assign Γ left).succ
  | step => exact Treads.succ (parseStepAfter_treads left)
  | call => exact (h.call Γ left).succ
  | member => exact Treads.succ (parseMember_treads Γ left)

theorem succ (h : Trodden n) : Trodden (n + 1) where
  expr Γ bound := by
    rw [parseAt]
    refine Treads.succ (Treads.bind (h.opening Γ) fun left => ?_)
    exact (h.rest Γ bound left).within (by decide)
  opening := h.opening_succ
  rest := h.rest_succ
  continuation := h.continuation_succ
  grouping Γ := by
    rw [parseGroupingAt]
    refine Treads.succ (Treads.bind (.advance fun _ h => h) fun _ => ?_)
    refine Treads.bind ((h.expr Γ _).within (by decide)) fun _ => ?_
    refine Treads.bind (.expect (by decide)) fun _ => ?_
    exact Treads.bind (.stays (.spanSince _)) fun _ => .pure _
  unary Γ := by
    rw [parseUnaryAt]
    refine Treads.succ (Treads.bind (.advance fun _ h => h) fun _ => ?_)
    split
    · exact .fail _
    · refine Treads.bind ((h.expr Γ _).within (by decide)) fun _ => ?_
      exact Treads.bind (.stays (typeUnary_stays _ _ _)) fun _ => .pure _
  stepBefore Γ := by
    rw [parseStepBeforeAt]
    refine Treads.succ (Treads.bind (.advance fun _ h => h) fun _ => ?_)
    exact Treads.bind ((h.expr Γ _).within (by decide)) fun _ => parseStep_treads _ _ _ _
  binary Γ power left := by
    rw [parseBinaryAt]
    refine Treads.succ (Treads.bind (.advance fun _ h => h) fun _ => ?_)
    split
    · exact .fail _
    · refine Treads.bind ((h.expr Γ _).within (by decide)) fun _ => ?_
      exact Treads.bind (.stays (typeBinary_stays _ _ _ _)) fun _ => .pure _
  assign Γ left := by
    rw [parseAssignAt]
    refine Treads.succ (Treads.bind (.advance fun _ h => h) fun _ => ?_)
    split
    · exact .fail _
    · refine Treads.bind ((h.expr Γ _).within (by decide)) fun _ => ?_
      exact Treads.bind (.stays (typeAssign_stays _ _)) fun _ => .pure _
  call Γ left := by
    rw [parseCallAt]
    refine Treads.succ (Treads.bind (.advance fun _ h => h) fun _ => ?_)
    refine Treads.bind ((h.arguments Γ).within (by decide)) fun _ => ?_
    refine Treads.bind (.expect (by decide)) fun _ => ?_
    refine Treads.bind (.stays (.spanSince _)) fun _ => ?_
    exact Treads.bind (.stays (typeCall_stays _ _ _)) fun _ => .pure _
  arguments Γ := by
    rw [parseArgumentsAt]
    refine Treads.succ (Treads.look fun _ _ => ?_)
    split
    · exact .pure _
    · refine Treads.bind ((h.expr Γ _).within (by decide)) fun _ => Treads.look fun _ _ => ?_
      split
      · exact .pure _
      · refine Treads.bind (.demand (by decide) _) fun _ => ?_
        exact Treads.bind ((h.arguments Γ).within (by decide)) fun _ => .pure _

theorem all (n : Nat) : Trodden n := by
  induction n with
  | zero => exact zero
  | succ n ih => exact ih.succ

end Trodden

end Expr

namespace Stmt

variable {n : Nat}

theorem parseDeclared_treads (what : String) (Γ : Context) {k : Nat} :
    (parseDeclared what Γ).Treads (fun _ => True) n k 1 := by
  refine Treads.bind (.demand (by decide) _) fun first => Treads.look fun kind _ => ?_
  split <;> rename_i hk
  · subst hk
    refine Treads.bind (.advance (by rintro _ rfl; decide)) fun _ => ?_
    refine Treads.bind (Ty.resolve_treads Γ first) fun _ => ?_
    exact Treads.bind (.demand (by decide) _) fun _ => .pure _
  · exact .pure _

theorem parseExprStmt_treads (n : Nat) (Γ : Context) :
    (parseExprStmt n Γ).Treads (fun _ => True) n 3 2 := by
  refine Treads.bind ((Expr.Trodden.all n).expr Γ _) fun _ => ?_
  refine Treads.bind (.demand (by decide) _) fun _ => ?_
  exact Treads.bind (.stays (.spanSince _)) fun _ => .pure _

theorem parseAscription_treads (n : Nat) (Γ : Context) :
    Parse.Treads (parseAscription n Γ) (fun _ => True) n 0 0 := by
  refine Treads.look fun kind _ => ?_
  split <;> rename_i hk
  · subst hk
    refine Treads.bind (.advance (by rintro _ rfl; decide)) fun _ => ?_
    exact Treads.bind (((Ty.Trodden.all n).type Γ).within (by decide)) fun _ => .pure _
  · exact .pure _

theorem parseInitial_treads (n : Nat) (annotated : Bool) (Γ : Context) :
    (parseInitial n annotated Γ).Treads (fun _ => True) n 0 0 := by
  refine Treads.look fun kind _ => ?_
  split <;> rename_i hk
  · subst hk
    refine Treads.bind (.advance (by rintro _ rfl; decide)) fun _ => ?_
    exact Treads.bind (((Expr.Trodden.all n).expr Γ _).within (by decide)) fun _ => .pure _
  · cases annotated
    · exact .error
    · exact .pure _

theorem parseDefinition_treads (n : Nat) (Γ : Context) :
    (parseDefinition n Γ).Treads Token.Kind.Inner n 0 1 := by
  refine Treads.bind (.advance fun _ h => h) fun _ => ?_
  refine Treads.bind (parseDeclared_treads _ Γ) fun (receiver, name) => ?_
  refine Treads.bind ((parseAscription_treads n Γ).within (by decide)) fun annotation => ?_
  refine Treads.bind ((parseInitial_treads n _ Γ).within (by decide)) fun _ => ?_
  refine Treads.bind (.demand (by decide) _) fun _ => ?_
  exact Treads.bind (.stays (.spanSince _)) fun _ => .pure _

theorem parseReturned_treads (n : Nat) (keyword : Token) (Γ : Context) :
    (parseReturned n keyword Γ).Treads (fun _ => True) n 3 0 := by
  refine Treads.look fun _ _ => ?_
  split
  · exact .pure _
  · exact ((Expr.Trodden.all n).expr Γ _).mono (by decide) (by decide) fun _ _ => trivial

theorem parseReturn_treads (n : Nat) (Γ : Context) :
    (parseReturn n Γ).Treads Token.Kind.Inner n 0 1 := by
  refine Treads.bind (.advance fun _ h => h) fun keyword => ?_
  refine Treads.bind ((parseReturned_treads n keyword Γ).within (by decide)) fun _ => ?_
  refine Treads.bind (.demand (by decide) _) fun _ => ?_
  refine Treads.bind (.stays (.spanSince _)) fun _ => ?_
  split
  · exact Treads.bind (.stays (.reporting _)) fun _ => .pure _
  · split
    · exact .pure _
    · exact Treads.bind (.stays (.reporting _)) fun _ => .pure _

theorem parseParametersAt_treads (n : Nat) (Γ : Context) :
    (parseParametersAt n Γ).Treads (fun _ => True) n 1 0 := by
  induction n with
  | zero => exact .exhausted
  | succ n ih =>
    rw [parseParametersAt]
    refine Treads.succ (Treads.look fun _ _ => ?_)
    split
    · exact .pure _
    · refine Treads.bind (.demand (by decide) _) fun _ => ?_
      refine Treads.bind (.expect (by decide)) fun _ => ?_
      refine Treads.bind (((Ty.Trodden.all n).type Γ).within (by decide)) fun _ => ?_
      refine Treads.look fun _ _ => ?_
      split
      · exact .pure _
      · refine Treads.bind (.demand (by decide) _) fun _ => ?_
        exact Treads.bind (ih.within (by decide)) fun _ => .pure _

theorem parseHeading_treads (n : Nat) (Γ : Context) :
    (parseHeading n Γ).Treads Token.Kind.Inner n 0 1 := by
  refine Treads.bind (.advance fun _ h => h) fun _ => ?_
  refine Treads.bind (parseDeclared_treads _ Γ) fun (receiver, name) => ?_
  refine Treads.bind (.expect (by decide)) fun _ => ?_
  refine Treads.bind ((parseParametersAt_treads n Γ).within (by decide)) fun _ => ?_
  refine Treads.bind (.expect (by decide)) fun _ => ?_
  exact Treads.bind (((Ty.Trodden.all n).result Γ).within (by decide)) fun _ => .pure _

end Stmt

end TypedScript
