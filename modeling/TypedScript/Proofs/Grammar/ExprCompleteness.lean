import TypedScript.Proofs.Grammar.ExprSoundness

namespace TypedScript

namespace Grammar

def Starts (ts : List Token) (F : Token.Kind → Prop) (k : Token.Kind) : Prop :=
  match ts with
  | [] => F k
  | t :: _ => k = t.kind

end Grammar

open Grammar

/-- Before `ts` and a token of which `F` holds, the parser passes `ts` and gives what `P` says. -/
structure Parse.Yields {α : Type} (p : Parse Cursor α) (ts : List Token) (F : Token.Kind → Prop)
    (P : α → Prop) : Prop where
  run : ∀ {c : Cursor} {next rest}, c.upcoming = ts ++ next :: rest → F next.kind →
    ∃ a d, p c = .ok a d ∧ c.Reaches ts d ∧ P a

namespace Parse.Yields

open Cursor

variable {α β : Type} {p : Parse Cursor α} {f : α → Parse Cursor β} {ts us : List Token}
  {F G : Token.Kind → Prop} {P : α → Prop} {R : β → Prop}

theorem mono {P' : α → Prop} (h : p.Yields ts F P) (hG : ∀ k, G k → F k) (hP : ∀ a, P a → P' a) :
    p.Yields ts G P' where
  run hc hk := by
    obtain ⟨a, d, hp, hd, ha⟩ := h.run hc (hG _ hk)
    exact ⟨a, d, hp, hd, hP a ha⟩

theorem pure {a : α} (h : P a) : Yields (Pure.pure a : Parse Cursor α) [] F P :=
  ⟨fun {c _ _} _ _ => ⟨a, c, rfl, .refl c, h⟩⟩

theorem bind (h : p.Yields ts G P) (hG : ∀ k, Starts us F k → G k)
    (hf : ∀ a, P a → (f a).Yields us F R) : (p >>= f).Yields (ts ++ us) F R where
  run {c next rest} hc hk := by
    rw [List.append_assoc] at hc
    obtain ⟨a, d, hp, hd, ha⟩ : ∃ a d, p c = .ok a d ∧ c.Reaches ts d ∧ P a := by
      cases us with
      | nil => exact h.run hc (hG _ hk)
      | cons u us => exact h.run hc (hG _ rfl)
    obtain ⟨b, e, hb, he, hR⟩ := (hf a ha).run (hd.rest hc) hk
    exact ⟨b, e, by rw [bind_apply, hp]; exact hb, hd.trans he, hR⟩

theorem andThen (h : p.Yields ts F P) (hf : ∀ a, P a → (f a).Yields [] F R) :
    (p >>= f).Yields ts F R := by
  simpa using h.bind (fun k (hk : Starts [] F k) => hk) hf

theorem stays (h : p.Stays) (hf : ∀ a, (f a).Yields ts F R) : (p >>= f).Yields ts F R where
  run {c next rest} hc hk := by
    obtain ⟨a, ds, hp⟩ := h c
    have hc' : { c with reported := c.reported ++ ds : Cursor }.upcoming = ts ++ next :: rest := hc
    obtain ⟨b, d, hb, hd, hR⟩ := (hf a).run hc' hk
    exact ⟨b, d, by rw [bind_apply, hp]; exact hb, ⟨hd.passed, hd.upcoming⟩, hR⟩

theorem look {f : Token.Kind → Parse Cursor β} (h : ∀ k, Starts ts F k → (f k).Yields ts F R) :
    (currentKind >>= f).Yields ts F R where
  run {c next rest} hc hk := by
    refine (h c.kind ?_).run hc hk
    cases ts with
    | nil =>
      have hcurrent : c.current = next := (List.cons.inj hc).1
      rw [Cursor.kind, hcurrent]
      exact hk
    | cons t ts => exact congrArg Token.kind (List.cons.inj hc).1

theorem advance (t : Token) : Cursor.advance.Yields [t] F (· = t) where
  run {c next rest} hc _ := by
    obtain ⟨passed, current, ahead, reported⟩ := c
    cases hc
    exact ⟨_, _, rfl, ⟨rfl, rfl⟩, rfl⟩

theorem expectOr {t : Token} {kind : Token.Kind} (ht : t.kind = kind) {d : Diagnostic} :
    (Cursor.expectOr kind d).Yields [t] F (· = t) where
  run {c next rest} hc hk := by
    have hcurrent : c.current = t := (List.cons.inj hc).1
    rw [Cursor.expectOr, if_pos (by rw [Cursor.kind, hcurrent, ht])]
    exact (advance t).run hc hk

theorem expect {t : Token} {kind : Token.Kind} (ht : t.kind = kind) :
    (Cursor.expect kind).Yields [t] F (· = t) := ⟨fun hc hk => (expectOr ht).run hc hk⟩

theorem demand {t : Token} {kind : Token.Kind} (ht : t.kind = kind) (message : String) :
    (Cursor.demand kind message).Yields [t] F (· = t) := ⟨fun hc hk => (expectOr ht).run hc hk⟩

theorem token {t : Token} {q : Parse Cursor Token} {f : Token → Parse Cursor β}
    (hq : q.Yields [t] (fun _ => True) (· = t)) (hf : (f t).Yields us F R) :
    (q >>= f).Yields (t :: us) F R :=
  hq.bind (fun _ _ => trivial) fun _ ha => ha ▸ hf

end Parse.Yields

open Parse

namespace Grammar

@[simp] theorem opening?_unaryKind (op : UnaryOp) : (unaryKind op).opening? = some .unary := by
  cases op <;> rfl

@[simp] theorem opening?_stepKind (op : StepOp) : (stepKind op).opening? = some .step := by
  cases op <;> rfl

theorem opening?_of_literal? {t : Token} {v : Literal} (h : literal? t = some v) :
    t.kind.opening? ≠ none := by
  rw [literal?] at h
  split at h <;> rename_i hk
  case h_7 => cases h
  all_goals simp [hk, Token.Kind.opening?]

def Opens (ts : List Token) : Prop := ∃ o us, ts = o :: us ∧ o.kind.opening? ≠ none

theorem Opens.append {ts : List Token} (h : Opens ts) (us : List Token) : Opens (ts ++ us) := by
  obtain ⟨o, vs, rfl, ho⟩ := h
  exact ⟨o, vs ++ us, rfl, ho⟩

def Ends (p : Power) (k : Token.Kind) : Prop :=
  ¬ p < k.power ∧ (¬ Power.assignment < p → ¬ Power.default < k.power)

theorem Ends.of_admitted {b p : Power} {k : Token.Kind} (hb : ¬ Power.unary < b)
    (hp : b < p ∨ p = .unary) (hk : ¬ b < k.power) : Ends p k := by
  have hbk : k.power.rank ≤ b.rank := Nat.le_of_not_lt hk
  have hbu : b.rank ≤ Power.unary.rank := Nat.le_of_not_lt hb
  have hbp : b.rank ≤ p.rank := by
    obtain hp | rfl := hp
    · exact Nat.le_of_lt hp
    · exact hbu
  refine ⟨Nat.not_lt.2 (Nat.le_trans hbk hbp), fun ha => Nat.not_lt.2 (Nat.le_trans hbk ?_)⟩
  obtain hp | rfl := hp
  · exact Nat.le_of_lt_succ (Nat.lt_of_lt_of_le hp (Nat.le_of_not_lt ha))
  · exact absurd (by decide) ha

theorem Ends.lift {p q : Power} {k : Token.Kind} (hpq : p < q) (h : Ends p k) : Ends q k := by
  refine ⟨fun hlt => h.1 (Nat.lt_trans hpq hlt), fun ha => h.2 fun hp => ha (Nat.lt_trans hp hpq)⟩

end Grammar

namespace Expr

/-- Read under a bound that admits the level, `ts` is the left end of what is read: the tree is
there, and reading goes on from it. Sixteen steps for each token are enough. -/
structure Runs (p : Power) (ts : List Token) (t : Tree) : Prop where
  run : ∀ {n Γ b} {c : Cursor} {next rest}, (b < p ∨ p = .unary) → ¬ Power.unary < b →
    c.upcoming = ts ++ next :: rest → Ends p next.kind → 16 * ts.length ≤ n →
    ∃ m e d, parseAt n Γ b c = parseRestAt m Γ b e d ∧ n ≤ m + 16 * ts.length ∧
      e.tree = t ∧ c.Reaches ts d

theorem parseRestAt_stop {m : Nat} {Γ : Context} {b : Power} {e : Expr} {d : Cursor}
    (h : ¬ b < d.kind.power) : parseRestAt (m + 1) Γ b e d = .ok e d := by
  rw [parseRestAt, bind_apply, Cursor.currentKind_apply]
  rw [Token.Kind.power] at h
  cases hk : d.kind.continuation? with
  | none => simp only [hk, pure_apply]
  | some pf =>
    rw [hk] at h
    simp only [hk, if_neg h, pure_apply]

theorem parseRestAt_succ {m : Nat} {Γ : Context} {b p : Power} {form : Continuation}
    {left longer : Expr} {d d' : Cursor} (hk : d.kind.continuation? = some (p, form)) (hb : b < p)
    (h : parseContinuationAt m Γ form p left d = .ok longer d') :
    parseRestAt (m + 1) Γ b left d = parseRestAt m Γ b longer d' := by
  rw [parseRestAt, bind_apply, Cursor.currentKind_apply]
  simp only [hk, if_pos hb, bind_apply, h]

namespace Runs

variable {p q : Power} {ts us : List Token} {t t' : Tree}

theorem lift (hpq : p < q) (h : Runs q ts t) : Runs p ts t where
  run {n Γ b c next rest} hb hbu hc hk hn := by
    refine h.run ?_ hbu hc (hk.lift hpq) hn
    obtain hb | rfl := hb
    · exact .inl (Nat.lt_trans hb hpq)
    · exact .inl (Nat.lt_of_le_of_lt (Nat.le_of_not_lt hbu) hpq)

theorem yields (h : Runs p ts t) {n : Nat} {Γ : Context} {b : Power} (hb : b < p ∨ p = .unary)
    (hbu : ¬ Power.unary < b) (hn : 16 * ts.length < n) :
    (parseAt n Γ b).Yields ts (fun k => ¬ b < k.power) (·.tree = t) where
  run {c next rest} hc hk := by
    obtain ⟨m, e, d, hrun, hm, he, hd⟩ :=
      h.run hb hbu hc (.of_admitted hbu hb hk) (Nat.le_of_lt hn)
    have hnext : d.current = next := (List.cons.inj (hd.rest hc)).1
    obtain ⟨m, rfl⟩ : ∃ m', m = m' + 1 := ⟨m - 1, by omega⟩
    refine ⟨e, d, ?_, hd, he⟩
    rw [hrun, parseRestAt_stop]
    rwa [Cursor.kind, hnext]

theorem of_opening (hts : ts ≠ []) (h : ∀ {n Γ}, 16 * ts.length ≤ n + 2 →
    (parseOpeningAt (n + 1) Γ).Yields ts (Ends p) (·.tree = t)) : Runs p ts t where
  run {n Γ b c next rest} hb hbu hc hk hn := by
    have hpos : 0 < ts.length := List.length_pos_iff.2 hts
    obtain ⟨n, rfl⟩ : ∃ n', n = n' + 2 := ⟨n - 2, by omega⟩
    obtain ⟨e, d, hopen, hd, he⟩ := (h hn).run hc hk
    refine ⟨n + 1, e, d, ?_, by omega, he, hd⟩
    rw [parseAt, bind_apply, hopen]

theorem extend (form : Continuation) {o : Token} (h : Runs q ts t)
    (ho : o.kind.continuation? = some (p, form)) (hq : ¬ q < p) (hqa : Power.assignment < q)
    (hcont : ∀ {m Γ left}, left.tree = t → 16 * us.length + 14 ≤ m →
      (parseContinuationAt (m + 1) Γ form p left).Yields (o :: us) (Ends p) (·.tree = t')) :
    Runs p (ts ++ o :: us) t' where
  run {n Γ b c next rest} hb hbu hc hk hn := by
    have hpower : o.kind.power = p := by rw [Token.Kind.power, ho]
    have hbp : b < p := by
      refine hb.resolve_right ?_
      rintro rfl
      cases ho' : o.kind <;> rw [ho'] at ho <;> cases ho
    have hbq : b < q := Nat.lt_of_lt_of_le hbp (Nat.le_of_not_lt hq)
    rw [List.append_assoc] at hc
    simp only [List.length_append, List.length_cons] at hn ⊢
    obtain ⟨m, e, d, hrun, hm, he, hd⟩ := h.run (.inl hbq) hbu hc
      ⟨hpower ▸ hq, fun ha => absurd hqa ha⟩ (Nat.le_trans (by omega) hn)
    obtain ⟨m, rfl⟩ : ∃ m', m = m' + 2 := ⟨m - 2, by omega⟩
    have hdu := hd.rest hc
    have hm' : 16 * us.length + 14 ≤ m := by omega
    obtain ⟨e', d', hstep, hd', he'⟩ := (@hcont m Γ e he hm').run hdu hk
    have hkind : d.kind = o.kind := congrArg Token.kind (List.cons.inj hdu).1
    refine ⟨m + 1, e', d', ?_, by omega, he', hd.trans hd'⟩
    rw [hrun, parseRestAt_succ (hkind ▸ ho) hbp hstep]

theorem of_primary {o : Token} (ho : o.kind.opening? = some .primary)
    (h : ∀ Γ, (parsePrimary Γ).Yields [o] (Ends .primary) (·.tree = t)) : Runs .primary [o] t := by
  refine of_opening (List.cons_ne_nil _ _) fun {n Γ} _ => ?_
  rw [parseOpeningAt]
  refine Yields.look fun k hk => ?_
  cases hk
  simp only [ho]
  exact h Γ

theorem name {o : Token} (ho : o.kind = .identifier) : Runs .primary [o] (.name o.value) := by
  refine of_primary (ho ▸ rfl) fun Γ => Yields.token (.advance o) ?_
  simp only [ho]
  exact Yields.stays (typeOfName_stays _ _ _) fun ty => .pure rfl

theorem literal {o : Token} {v : Literal} (ho : literal? o = some v) :
    Runs .primary [o] (.literal v) := by
  rw [literal?] at ho
  split at ho <;> rename_i hk
  case h_7 => cases ho
  all_goals
    refine of_primary (hk ▸ rfl) fun Γ => Yields.token (.advance o) ?_
    simp only [hk]
  case h_1 | h_2 =>
    obtain ⟨x, hx, rfl⟩ := Option.map_eq_some_iff.1 ho
    simp only [hx]
    exact .pure rfl
  all_goals
    cases ho
    exact .pure rfl

theorem group {o c : Token} (ho : o.kind = .openParen) (hp : Power.default < p) (h : Runs p ts t)
    (hc : c.kind = .closeParen) : Runs .primary (o :: ts ++ [c]) t := by
  refine of_opening (List.cons_ne_nil _ _) fun {n Γ} hn => ?_
  simp only [List.length_cons, List.length_append, List.length_nil] at hn
  obtain ⟨n, rfl⟩ : ∃ n', n = n' + 1 := ⟨n - 1, by omega⟩
  rw [parseOpeningAt]
  refine Yields.look fun k hk => ?_
  obtain rfl : k = .openParen := Eq.trans hk ho
  simp only [Token.Kind.opening?, parseGroupingAt]
  refine Yields.token (.advance o) (Yields.bind (h.yields (.inl hp) (by decide) (by omega)) ?_ ?_)
  · intro k hk
    obtain rfl : k = .closeParen := Eq.trans hk hc
    decide
  · intro e he
    refine Yields.token (.expect hc) (Yields.stays (Stays.spanSince _) fun span => .pure ?_)
    rw [tree_withSpan, he]

theorem unary {o : Token} {op : UnaryOp} (ho : o.kind = unaryKind op) (h : Runs .unary ts t) :
    Runs .unary (o :: ts) (.unary op t) := by
  refine of_opening (List.cons_ne_nil _ _) fun {n Γ} hn => ?_
  simp only [List.length_cons] at hn
  obtain ⟨n, rfl⟩ : ∃ n', n = n' + 1 := ⟨n - 1, by omega⟩
  have hopening : o.kind.opening? = some .unary := by rw [ho, opening?_unaryKind]
  have hop : UnaryOp.ofKind? o.kind = some op := by rw [ho]; cases op <;> rfl
  rw [parseOpeningAt]
  refine Yields.look fun k hk => ?_
  cases hk
  simp only [hopening, parseUnaryAt]
  refine Yields.token (.advance o) ?_
  simp only [hop]
  refine Yields.andThen ((h.yields (.inr rfl) (by decide) (by omega)).mono (fun _ hk => hk.1)
    fun _ => id) fun e he => ?_
  exact Yields.stays (typeUnary_stays _ _ _) fun ty => .pure (by rw [tree, he])

theorem parseStep_yields {o : Token} {op : StepOp} {target : Expr} {x : String}
    (ho : o.kind = stepKind op) (hx : target.tree = .name x) (before : Bool) (span : Span)
    {F : Token.Kind → Prop} :
    (parseStep o target before span).Yields [] F (·.tree = .step op before x) := by
  have hop : StepOp.ofKind? o.kind = some op := by rw [ho]; cases op <;> rfl
  simp only [parseStep, hop, asName?_eq_some.2 hx]
  exact Yields.stays (typeStep_stays _ _) fun ty => .pure rfl

theorem stepBefore {o : Token} {op : StepOp} {x : String} (ho : o.kind = stepKind op)
    (h : Runs .primary ts (.name x)) : Runs .unary (o :: ts) (.step op true x) := by
  refine of_opening (List.cons_ne_nil _ _) fun {n Γ} hn => ?_
  simp only [List.length_cons] at hn
  obtain ⟨n, rfl⟩ : ∃ n', n = n' + 1 := ⟨n - 1, by omega⟩
  have hopening : o.kind.opening? = some .step := by rw [ho, opening?_stepKind]
  rw [parseOpeningAt]
  refine Yields.look fun k hk => ?_
  cases hk
  simp only [hopening, parseStepBeforeAt]
  refine Yields.token (.advance o) ?_
  exact Yields.andThen ((h.yields (.inl (by decide)) (by decide) (by omega)).mono
    (fun _ hk => hk.1) fun _ => id) fun e he => parseStep_yields ho he _ _

theorem stepAfter {o : Token} {op : StepOp} {x : String} (h : Runs .primary ts (.name x))
    (ho : o.kind = stepKind op) : Runs .suffix (ts ++ [o]) (.step op false x) := by
  refine h.extend .step (by rw [ho]; cases op <;> rfl) (by decide) (by decide) ?_
  intro m Γ left hleft _
  simp only [parseContinuationAt]
  exact Yields.token (.advance o) (parseStep_yields ho hleft _ _)

theorem member {d m : Token} (h : Runs .suffix ts t) (hd : d.kind = .dot)
    (hm : m.kind = .identifier) : Runs .suffix (ts ++ [d, m]) (.member t m.value) := by
  refine h.extend .member (by rw [hd]; rfl) (by decide) (by decide) ?_
  intro n Γ left hleft _
  simp only [parseContinuationAt]
  refine Yields.token (.advance d) (Yields.token (.demand hm _) ?_)
  refine Yields.stays (Stays.spanSince _) fun span => ?_
  exact Yields.stays (typeMember_stays _ _ _ _) fun ty => .pure (by rw [tree, hleft])

theorem binary {o : Token} {op : BinaryOp} (hl : Runs (level op) ts t)
    (ho : o.kind = binaryKind op) (hq : level op < q) (hr : Runs q us t') :
    Runs (level op) (ts ++ o :: us) (.binary op t t') := by
  have hassign : Power.assignment < level op := by cases op <;> decide
  refine hl.extend .binary (by rw [ho, continuation?_binaryKind])
    (Nat.lt_irrefl _) hassign ?_
  intro m Γ left hleft hm
  obtain ⟨m, rfl⟩ : ∃ m', m = m' + 1 := ⟨m - 1, by omega⟩
  have hop : BinaryOp.ofKind? o.kind = some op := by rw [ho]; cases op <;> rfl
  simp only [parseContinuationAt, parseBinaryAt]
  refine Yields.token (.advance o) ?_
  simp only [hop]
  refine Yields.andThen ((hr.yields (.inl hq) (Nat.lt_asymm (level_lt_unary op)) (by omega)).mono
    (fun _ hk => hk.1) fun _ => id) fun e he => ?_
  exact Yields.stays (typeBinary_stays _ _ _ _) fun ty => .pure (by rw [tree, hleft, he])

theorem assign {o : Token} {x : String} (h : Runs .primary ts (.name x))
    (ho : o.kind = .assignment) (hv : Runs .assignment us t) :
    Runs .assignment (ts ++ o :: us) (.assign x t) := by
  refine h.extend .assignment (by rw [ho]; rfl) (by decide) (by decide) ?_
  intro m Γ left hleft hm
  obtain ⟨m, rfl⟩ : ∃ m', m = m' + 1 := ⟨m - 1, by omega⟩
  simp only [parseContinuationAt, parseAssignAt]
  refine Yields.token (.advance o) ?_
  simp only [asName?_eq_some.2 hleft]
  refine Yields.andThen ((hv.yields (.inl (by decide)) (by decide) (by omega)).mono
    (fun _ hk => hk.2 (by decide)) fun _ => id) fun e he => ?_
  exact Yields.stays (typeAssign_stays _ _) fun ty => .pure (by rw [tree, he])

end Runs

def Lists (us : List Token) (args : List Tree) : Prop :=
  ∀ m Γ, 16 * us.length + 2 ≤ m →
    (parseArgumentsAt m Γ).Yields us (· = .closeParen) (trees · = args)

theorem Runs.call {o c : Token} {ts us : List Token} {t : Tree} {args : List Tree}
    (h : Runs .suffix ts t) (ho : o.kind = .openParen) (hargs : Lists us args)
    (hc : c.kind = .closeParen) : Runs .suffix (ts ++ o :: us ++ [c]) (.call t args) := by
  rw [List.append_assoc, List.cons_append]
  refine h.extend .call (by rw [ho]; rfl) (by decide) (by decide) ?_
  intro m Γ left hleft hm
  rw [List.length_append, List.length_singleton] at hm
  obtain ⟨m, rfl⟩ : ∃ m', m = m' + 1 := ⟨m - 1, by omega⟩
  simp only [parseContinuationAt, parseCallAt]
  refine Yields.token (.advance o) (Yields.bind (hargs _ _ (by omega)) ?_ ?_)
  · exact fun k hk => Eq.trans hk hc
  · intro es hes
    refine Yields.token (.expect hc) (Yields.stays (Stays.spanSince _) fun span => ?_)
    exact Yields.stays (typeCall_stays _ _ _) fun ty => .pure (by rw [tree, hleft, hes])

namespace Lists

variable {ts us : List Token} {t : Tree} {args : List Tree}

theorem empty : Lists [] [] := by
  intro m Γ hm
  obtain ⟨m, rfl⟩ : ∃ m', m = m' + 1 := ⟨m - 1, by omega⟩
  rw [parseArgumentsAt]
  refine Yields.look fun k hk => ?_
  obtain rfl : k = .closeParen := hk
  exact .pure rfl

theorem last (hts : Opens ts) (h : Runs .assignment ts t) : Lists ts [t] := by
  intro m Γ hm
  obtain ⟨o, us, rfl, ho⟩ := hts
  obtain ⟨m, rfl⟩ : ∃ m', m = m' + 1 := ⟨m - 1, by omega⟩
  rw [parseArgumentsAt]
  refine Yields.look fun k hk => ?_
  rw [if_neg fun hclose => ho ((hk.symm.trans hclose).symm ▸ rfl)]
  refine Yields.andThen
    ((h.yields (.inl (by decide)) (by decide) (by omega)).mono ?_ fun _ => id) ?_
  · rintro _ rfl
    decide
  · intro e he
    refine Yields.look fun k hk => ?_
    obtain rfl : k = .closeParen := hk
    exact .pure (by rw [trees, he, trees])

theorem more {k : Token} (hts : Opens ts) (h : Runs .assignment ts t) (hk : k.kind = .comma)
    (hs : Lists us args) : Lists (ts ++ k :: us) (t :: args) := by
  intro m Γ hm
  rw [List.length_append, List.length_cons] at hm
  obtain ⟨m, rfl⟩ : ∃ m', m = m' + 1 := ⟨m - 1, by omega⟩
  obtain ⟨o, vs, hvs, ho⟩ := hts
  rw [parseArgumentsAt]
  refine Yields.look fun kind hkind => ?_
  rw [hvs] at hkind
  rw [if_neg fun hclose => ho ((hkind.symm.trans hclose).symm ▸ rfl)]
  refine Yields.bind (h.yields (.inl (by decide)) (by decide) (by omega)) ?_ ?_
  · intro kind hkind
    obtain rfl : kind = .comma := Eq.trans hkind hk
    decide
  · intro e he
    refine Yields.look fun kind hkind => ?_
    obtain rfl : kind = .comma := Eq.trans hkind hk
    refine Yields.token (.demand hk _) (Yields.andThen (hs _ _ (by omega)) fun es hes => ?_)
    exact .pure (by rw [trees, he, hes])

end Lists

end Expr

namespace Grammar

theorem Target.opens {ts : List Token} {x : String} (h : Target ts x) : Opens ts := by
  cases h with
  | name ht => exact ⟨_, _, rfl, by rw [ht]; nofun⟩
  | group ho _ _ => exact ⟨_, _, rfl, by rw [ho]; nofun⟩

theorem Derives.opens : ∀ {p : Power} {ts : List Token} {t : Tree}, Derives p ts t → Opens ts
  | _, _, _, .lift _ h => h.opens
  | _, _, _, .literal ht => ⟨_, _, rfl, opening?_of_literal? ht⟩
  | _, _, _, .name ht => ⟨_, _, rfl, by rw [ht]; nofun⟩
  | _, _, _, .group ho _ _ => ⟨_, _, rfl, by rw [ho]; nofun⟩
  | _, _, _, .unary ho _ => ⟨_, _, rfl, by simp [ho]⟩
  | _, _, _, .stepBefore ho _ => ⟨_, _, rfl, by simp [ho]⟩
  | _, _, _, .call h .. => (h.opens.append _).append _
  | _, _, _, .member h .. | _, _, _, .binary h .. | _, _, _, .stepAfter h _
  | _, _, _, .assign h .. => h.opens.append _

open TypedScript.Expr

theorem Target.runs {ts : List Token} {x : String} (h : Target ts x) :
    Runs .primary ts (.name x) := by
  induction h with
  | name ht => exact .name ht
  | group ho hc _ ih => exact .group ho (by decide) ih hc

mutual
theorem Derives.runs : ∀ {p : Power} {ts : List Token} {t : Tree}, Derives p ts t → Runs p ts t
  | _, _, _, .lift hpq h => h.runs.lift hpq
  | _, _, _, .literal ht => .literal ht
  | _, _, _, .name ht => .name ht
  | _, _, _, .group ho hc h => .group ho (by decide) h.runs hc
  | _, _, _, .call h ho hargs hc => h.runs.call ho hargs.lists hc
  | _, _, _, .member h hd hm => h.runs.member hd hm
  | _, _, _, .stepAfter h ho => h.runs.stepAfter ho
  | _, _, _, .unary ho h => h.runs.unary ho
  | _, _, _, .stepBefore ho h => h.runs.stepBefore ho
  | _, _, _, .binary hl ho hq hr => hl.runs.binary ho hq hr.runs
  | _, _, _, .assign h ho he => h.runs.assign ho he.runs

theorem Arguments.lists : ∀ {ts : List Token} {es : List Tree}, Arguments ts es → Lists ts es
  | _, _, .none => .empty
  | _, _, .last h => .last h.opens h.runs
  | _, _, .more h hk hs => .more h.opens h.runs hk hs.lists
end

theorem Admits.yields {n : Nat} {Γ : Context} {b : Power} {ts : List Token} {t : Tree}
    (hb : ¬ Power.unary < b) (h : Admits b ts t) (hn : 16 * ts.length < n) :
    (parseAt n Γ b).Yields ts (fun k => ¬ b < k.power) (·.tree = t) := by
  obtain ⟨p, hp, h⟩ := h
  exact h.runs.yields hp hb hn

end Grammar

namespace Expr

theorem admits_of_parseAt {n : Nat} {Γ : Context} {b : Power} (hb : ¬ Power.unary < b)
    {c d : Cursor} (hc : c.Closed) {e : Expr} (h : parseAt n Γ b c = .ok e d) :
    ∃ ts, c.Reaches ts d ∧ Admits b ts e.tree ∧ ¬ b < d.kind.power := by
  obtain ⟨ts, hts, hP⟩ := (((Spelled.all n).expr Γ b).ok h).2 hc
  exact ⟨ts, hts, hP hb⟩

/-- An expression is read exactly as the grammar has it: what is passed spells what is read; what
spells an expression is read as that expression, up to a token that does not bind; and the names
in view make no difference to the tree, nor to where it ends. -/
theorem parseAt_exact {b : Power} (hb : ¬ Power.unary < b) {c : Cursor} (hc : c.Closed)
    (Γ : Context) :
    (∀ n e d, parseAt n Γ b c = .ok e d → ∃ ts, c.Reaches ts d ∧ Admits b ts e.tree) ∧
    (∀ n ts next rest t, c.upcoming = ts ++ next :: rest → Admits b ts t →
      ¬ b < next.kind.power → 16 * ts.length < n →
      ∃ e d, parseAt n Γ b c = .ok e d ∧ c.Reaches ts d ∧ e.tree = t) ∧
    (∀ n e d Δ, 16 * c.ahead.length < n → parseAt n Γ b c = .ok e d →
      ∃ e' d', parseAt n Δ b c = .ok e' d' ∧ e'.tree = e.tree ∧ d'.passed = d.passed ∧
        d'.upcoming = d.upcoming) := by
  refine ⟨fun n e d h => ?_, fun n ts next rest t hts ht hk hn => ?_, fun n e d Δ hn h => ?_⟩
  · obtain ⟨ts, hts, ht, -⟩ := admits_of_parseAt hb hc h
    exact ⟨ts, hts, ht⟩
  · exact (ht.yields hb hn).run hts hk
  · obtain ⟨ts, hts, ht, hk⟩ := admits_of_parseAt hb hc h
    have hlen : ts.length ≤ c.ahead.length := by
      have := congrArg List.length hts.upcoming
      simp only [Cursor.upcoming, List.length_append, List.length_cons] at this
      omega
    obtain ⟨e', d', h', hts', ht'⟩ :=
      (ht.yields (Γ := Δ) hb (Nat.lt_of_le_of_lt (Nat.mul_le_mul_left 16 hlen) hn)).run
        hts.upcoming hk
    exact ⟨e', d', h', ht', hts.unique hts'⟩

theorem parseAt_exact_of_unknown :
    let token : Token.Kind × String → Token := fun (kind, value) =>
      ⟨kind, value, ⟨.nowhere, .nowhere⟩⟩
    let ts := [(.identifier, "x"), (.assignment, "="), (.dash, "-"), (.identifier, "f"),
      (.openParen, "("), (.identifier, "y"), (.comma, ","), (.closeParen, ")"), (.dot, "."),
      (.identifier, "m"), (.star, "*"), (.identifier, "z")].map token
    let c := Cursor.ofTokens ts
    ¬ Power.unary < .default ∧ c.Closed ∧ ∃ e d, parseAt c.fuel .initial .default c = .ok e d ∧
      c.Reaches ts d ∧ e.tree = .assign "x" (.binary .multiply
        (.unary .negate (.member (.call (.name "f") [.name "y"]) "m")) (.name "z")) := by
  intro token ts c
  have hb : ¬ Power.unary < .default := by decide
  have hc : c.Closed := Cursor.closed_ofTokens ts
  have hy : Derives .assignment [token (.identifier, "y")] (.name "y") :=
    .lift (by decide) (.name rfl)
  have hcall : Derives .suffix ((ts.drop 3).take 5) (.call (.name "f") [.name "y"]) :=
    .call (.lift (by decide) (.name rfl)) rfl (.more hy rfl .none) rfl
  have hmember : Derives .suffix ((ts.drop 3).take 7)
      (.member (.call (.name "f") [.name "y"]) "m") :=
    .member hcall rfl rfl
  have hnegated : Derives (level .multiply) ((ts.drop 2).take 8)
      (.unary .negate (.member (.call (.name "f") [.name "y"]) "m")) :=
    .lift (by decide) (.unary rfl (.lift (by decide) hmember))
  have hproduct : Derives (level .multiply) (ts.drop 2) (.binary .multiply
      (.unary .negate (.member (.call (.name "f") [.name "y"]) "m")) (.name "z")) :=
    .binary hnegated rfl (by decide : level .multiply < .primary) (.name rfl)
  have hassign : Derives .assignment ts _ := .assign (.name rfl) rfl (.lift (by decide) hproduct)
  refine ⟨hb, hc, ?_⟩
  exact (parseAt_exact hb hc .initial).2.1 _ ts (.endAt .nowhere) [] _ rfl
    ⟨_, .inl (by decide), hassign⟩ (by decide) (by decide)

end Expr

end TypedScript
