import TypedScript.Proofs.Decimal.Nearest
import TypedScript.Proofs.Static.Definitions

namespace TypedScript

namespace Decimal

theorem nearest_beq_self (negative : Bool) (num den : Nat) :
    (nearest negative num den == nearest negative num den) = true :=
  have hnan := nearest_ne_nan negative num den
  Float.beq_iff_ne_nan_and_eq.2 ⟨hnan, hnan, .inl rfl⟩

theorem scientific_beq_self (negative : Bool) (n : Nat) (place : Int) :
    (scientific negative n place == scientific negative n place) = true := by
  rw [scientific]
  split
  · exact nearest_beq_self ..
  · split <;> exact nearest_beq_self ..

theorem word_ne_of_isDigit {c d : Char} (hc : isDigit c = true) (hd : '9' < d)
    (cs ds : List Char) : String.ofList ((c :: cs).map Char.toLower) ≠ String.ofList (d :: ds) := by
  intro h
  rw [isDigit, Bool.and_eq_true, decide_eq_true_iff, decide_eq_true_iff] at hc
  have hlower : c.toLower = c := by
    rw [Char.toLower, dif_neg]
    rintro ⟨hupper, -⟩
    exact absurd (UInt32.le_trans hupper hc.2) (by decide)
  rw [String.ofList_inj, List.map_cons, List.cons.injEq, hlower] at h
  rw [h.1] at hc
  exact absurd hd (Char.not_lt.2 hc.2)

theorem splitSign_of_isDigit {c : Char} (hc : isDigit c = true) (cs : List Char) :
    splitSign (c :: cs) = (false, c :: cs) := by
  rw [splitSign.eq_def]
  split
  · rename_i heq
    cases heq
    cases hc
  · rename_i heq
    cases heq
    cases hc
  · rfl

theorem readFloat?_beq_self {c : Char} {cs : List Char} (hc : isDigit c = true) {x : Float}
    (h : readFloat? (String.ofList (c :: cs)) = some x) : (x == x) = true := by
  have hinf : ¬ (String.ofList ((c :: cs).map Char.toLower) = "inf" ∨
      String.ofList ((c :: cs).map Char.toLower) = "infinity") :=
    not_or.2 ⟨word_ne_of_isDigit hc (by decide) cs ['n', 'f'],
      word_ne_of_isDigit hc (by decide) cs ['n', 'f', 'i', 'n', 'i', 't', 'y']⟩
  have hnan : String.ofList ((c :: cs).map Char.toLower) ≠ "nan" :=
    word_ne_of_isDigit hc (by decide) cs ['a', 'n']
  rw [readFloat?, String.toList_ofList, splitSign_of_isDigit hc] at h
  dsimp only at h
  rw [if_neg hinf, if_neg hnan] at h
  obtain ⟨-, h⟩ := Option.ite_none_left_eq_some.1 h
  obtain ⟨exponent, -, rfl⟩ := Option.map_eq_some_iff.1 h
  exact scientific_beq_self ..

end Decimal

namespace Token

open Grammar (literal?)

def IsReflexive (t : Token) : Prop := ∀ v, literal? t = some v → v.beq v = true

theorem isReflexive_of_ne {t : Token} (h : t.kind ≠ .float) : t.IsReflexive := by
  intro v hv
  rw [literal?] at hv
  split at hv
  case h_2 hk => exact absurd hk h
  case h_1 =>
    obtain ⟨i, -, rfl⟩ := Option.map_eq_some_iff.1 hv
    exact beq_self_eq_true i
  all_goals
    cases hv
    try exact beq_self_eq_true _
  all_goals rfl

theorem isReflexive_of_digit {t : Token} {c : Char} {cs : List Char} (hc : Decimal.isDigit c = true)
    (hvalue : t.value = String.ofList (c :: cs)) : t.IsReflexive := by
  by_cases hk : t.kind = .float
  · intro v hv
    rw [literal?, hk] at hv
    obtain ⟨x, hx, rfl⟩ := Option.map_eq_some_iff.1 hv
    exact Decimal.readFloat?_beq_self hc (hvalue ▸ hx)
  · exact isReflexive_of_ne hk

theorem ofReserved?_ne_float (word : String) :
    (Kind.ofReserved? word).getD .identifier ≠ .float := by
  rw [Kind.ofReserved?.eq_def]
  split <;> decide

theorem fixed_float_not_mem (text : String) : Pattern.fixed .float text ∉ Pattern.table := by
  simp [Pattern.table]

theorem isReflexive_of_first? {cs lexeme : List Char} {p : Pattern} {kind : Kind} {value : String}
    (hfirst : Pattern.first? cs = some (p, lexeme))
    (h : ofLexeme? p lexeme = some (kind, value)) (span : Span) :
    (⟨kind, value, span⟩ : Token).IsReflexive := by
  obtain ⟨q, hq, hmap⟩ := List.exists_of_findSome?_eq_some hfirst
  obtain ⟨l, hl, heq⟩ := Option.map_eq_some_iff.1 hmap
  cases heq
  cases p with
  | number =>
    obtain ⟨digits, hdigits, rfl⟩ := Option.map_eq_some_iff.1 hl
    obtain ⟨rfl, hne⟩ := Pattern.someText_eq_some hdigits
    obtain ⟨c, ds, hds⟩ := List.exists_cons_of_ne_nil hne
    have hc : Pattern.isDigit c = true :=
      List.mem_takeWhile_imp (hds ▸ List.mem_cons_self : c ∈ cs.takeWhile Pattern.isDigit)
    rw [hds, List.cons_append] at h
    cases h
    exact isReflexive_of_digit hc rfl
  | name =>
    cases h
    exact isReflexive_of_ne (ofReserved?_ne_float _)
  | quoted =>
    cases h
    exact isReflexive_of_ne nofun
  | fixed k text =>
    cases h
    refine isReflexive_of_ne ?_
    rintro rfl
    exact fixed_float_not_mem _ hq
  | blank => cases h
  | comment => cases h

theorem scanFrom_isReflexive {file : String} {found ts : List Token} {offset inside : Nat}
    {cs : List Char} (hfound : ∀ t ∈ found, t.IsReflexive)
    (h : scanFrom file found offset inside cs = .ok ts) : ∀ t ∈ ts, t.IsReflexive := by
  fun_induction scanFrom file found offset inside cs with
  | case1 found offset inside =>
    cases h
    intro t ht
    obtain rfl | ht := List.mem_cons.1 (List.mem_reverse.1 ht)
    · exact isReflexive_of_ne nofun
    · exact hfound t ht
  | case2 found offset inside c cs ih => exact ih hfound h
  | case3 => cases h
  | case4 found offset c cs p lexeme hfirst found' ih =>
    refine ih ?_ h
    subst found'
    split
    · rename_i hmade
      exact List.forall_mem_cons.2 ⟨isReflexive_of_first? hfirst hmade _, hfound⟩
    · exact hfound

theorem scan_isReflexive {source : String} {file : Option String} {ts : List Token}
    (h : scan source file = .ok ts) : ∀ t ∈ ts, t.IsReflexive :=
  scanFrom_isReflexive (List.forall_mem_nil _) h

end Token

mutual
def Tree.IsReflexive : Tree → Prop
  | .literal v => v.beq v = true
  | .unary _ e | .assign _ e | .member e _ => e.IsReflexive
  | .binary _ l r => l.IsReflexive ∧ r.IsReflexive
  | .call f args => f.IsReflexive ∧ Tree.AllReflexive args
  | .name _ | .step .. => True

def Tree.AllReflexive : List Tree → Prop
  | [] => True
  | e :: es => e.IsReflexive ∧ Tree.AllReflexive es
end

mutual
theorem Expr.beq_self : ∀ e : Expr, e.tree.IsReflexive → e.beq e = true
  | .name .., _ => by simp [beq]
  | .literal _ v, h => by
    have hv : v.beq v = true := h
    simp [beq, hv]
  | .unary _ _ e, h => by simp [beq, beq_self e h]
  | .binary _ _ l r, h => by simp [beq, beq_self l h.1, beq_self r h.2]
  | .call _ f args, h => by simp [beq, beq_self f h.1, beqList_self args h.2]
  | .assign _ _ e, h => by simp [beq, beq_self e h]
  | .step .., _ => by simp [beq]
  | .member _ e _, h => by simp [beq, beq_self e h]

theorem Expr.beqList_self : ∀ es : List Expr, Tree.AllReflexive (trees es) → beqList es es = true
  | [], _ => rfl
  | e :: es, h => by simp [beqList, beq_self e h.1, beqList_self es h.2]
end

namespace Grammar

mutual
theorem Derives.isReflexive : ∀ {p : Power} {ts : List Token} {e : Tree},
    Derives p ts e → (∀ t ∈ ts, t.IsReflexive) → e.IsReflexive
  | _, _, _, .lift _ h, hts => h.isReflexive hts
  | _, _, _, .literal hv, hts => hts _ List.mem_cons_self _ hv
  | _, _, _, .name _, _ | _, _, _, .stepAfter .., _ | _, _, _, .stepBefore .., _ => trivial
  | _, _, _, .group _ _ h, hts => h.isReflexive fun t ht => hts t (by simp [ht])
  | _, _, _, .call h _ hargs _, hts =>
    ⟨h.isReflexive fun t ht => hts t (by simp [ht]),
      hargs.allReflexive fun t ht => hts t (by simp [ht])⟩
  | _, _, _, .member h _ _, hts => h.isReflexive fun t ht => hts t (by simp [ht])
  | _, _, _, .unary _ h, hts => h.isReflexive fun t ht => hts t (by simp [ht])
  | _, _, _, .binary hl _ _ hr, hts =>
    ⟨hl.isReflexive fun t ht => hts t (by simp [ht]),
      hr.isReflexive fun t ht => hts t (by simp [ht])⟩
  | _, _, _, .assign _ _ h, hts => h.isReflexive fun t ht => hts t (by simp [ht])

theorem Arguments.allReflexive : ∀ {ts : List Token} {es : List Tree},
    Arguments ts es → (∀ t ∈ ts, t.IsReflexive) → Tree.AllReflexive es
  | _, _, .none, _ => trivial
  | _, _, .last h, hts => ⟨h.isReflexive hts, trivial⟩
  | _, _, .more h _ hs, hts =>
    ⟨h.isReflexive fun t ht => hts t (by simp [ht]),
      hs.allReflexive fun t ht => hts t (by simp [ht])⟩
end

theorem Derives.beq_self {p : Power} {ts : List Token} {e : Expr} (h : Derives p ts e.tree)
    (hts : ∀ t ∈ ts, t.IsReflexive) : e.beq e = true := e.beq_self (h.isReflexive hts)

variable {T : String → Option Ty}

mutual
theorem Statement.beq_self : ∀ {ts : List Token} {s : Stmt},
    Statement T ts s → (∀ t ∈ ts, t.IsReflexive) → s.beq s = true
  | _, _, .inferred _ _ _ he _, hts => by
    have he := he.beq_self fun t ht => hts t (by simp [ht])
    simp [Stmt.beq, he]
  | _, _, .annotated _ _ _ _ _ he _, hts => by
    have he := he.beq_self fun t ht => hts t (by simp [ht])
    simp [Stmt.beq, he]
  | _, _, .unset (e := e) _ _ _ _ _ he, _ => by
    have he : e.beq e = true := e.beq_self (by rw [he]; rfl)
    simp [Stmt.beq, he]
  | _, _, .ret _ he _, hts => by
    have he := he.beq_self fun t ht => hts t (by simp [ht])
    simp [Stmt.beq, he]
  | _, _, .bare (e := e) _ _ he, _ => by
    have he : e.beq e = true := e.beq_self (by rw [he]; rfl)
    simp [Stmt.beq, he]
  | _, _, .func _ _ _ _ _ _ hb, hts => by
    have hb := hb.beq_self fun t ht => hts t (by simp [ht])
    simp [Stmt.beq, hb]
  | _, _, .block hb, hts => by
    rw [Stmt.beq]
    exact hb.beq_self hts
  | _, _, .cond _ hc hy, hts => by
    have hc := hc.beq_self fun t ht => hts t (by simp [ht])
    have hy := hy.beq_self fun t ht => hts t (by simp [ht])
    simp [Stmt.beq, Stmt.beqOption, hc, hy]
  | _, _, .condElse _ hc hy _ _ hn, hts => by
    have hc := hc.beq_self fun t ht => hts t (by simp [ht])
    have hy := hy.beq_self fun t ht => hts t (by simp [ht])
    have hn := hn.beq_self fun t ht => hts t (by simp [ht])
    simp [Stmt.beq, Stmt.beqOption, hc, hy, hn]
  | _, _, .loop _ hc hb, hts => by
    have hc := hc.beq_self fun t ht => hts t (by simp [ht])
    have hb := hb.beq_self fun t ht => hts t (by simp [ht])
    simp [Stmt.beq, hc, hb]
  | _, _, .expr he _, hts => by
    have he := he.beq_self fun t ht => hts t (by simp [ht])
    simp [Stmt.beq, he]
  | _, _, .typeDecl .., _ => by simp [Stmt.beq]

theorem Braces.beq_self : ∀ {ts : List Token} {b : Block},
    Braces T ts b → (∀ t ∈ ts, t.IsReflexive) → b.beq b = true
  | _, _, .mk _ h _, hts => by
    have h := h.beq_self fun t ht => hts t (by simp [ht])
    simp [Block.beq, h]

theorem Sequence.beq_self : ∀ {ts : List Token} {ss : List Stmt},
    Sequence T ts ss → (∀ t ∈ ts, t.IsReflexive) → Stmt.beqList ss ss = true
  | _, _, .nil, _ => by rw [Stmt.beqList]
  | _, _, .stray _ h, hts => h.beq_self fun t ht => hts t (by simp [ht])
  | _, _, .cons h hs, hts => by
    have h := h.beq_self fun t ht => hts t (by simp [ht])
    have hs := hs.beq_self fun t ht => hts t (by simp [ht])
    simp [Stmt.beqList, h, hs]
end

end Grammar

mutual
theorem Stmt.beq_bodies : ∀ s : Stmt, s.beq s = true → ∀ d ∈ s.functions, d.2.beq d.2 = true
  | .func _ body _, h => by
    simp only [Stmt.beq, Bool.and_eq_true] at h
    exact List.forall_mem_cons.2 ⟨h.1.2, Block.beq_bodies body h.1.2⟩
  | .block b, h => by
    rw [Stmt.beq] at h
    exact Block.beq_bodies b h
  | .cond _ yes no _, h => by
    simp only [Stmt.beq, Bool.and_eq_true] at h
    exact List.forall_mem_append.2
      ⟨Stmt.beq_bodies yes h.1.1.2, Stmt.beqOption_bodies no h.1.2⟩
  | .loop _ body _, h => by
    simp only [Stmt.beq, Bool.and_eq_true] at h
    exact Stmt.beq_bodies body h.1.2
  | .define .., _ | .ret .., _ | .expr .., _ | .typeDecl .., _ => List.forall_mem_nil _

theorem Stmt.beqOption_bodies : ∀ s : Option Stmt, Stmt.beqOption s s = true →
    ∀ d ∈ Stmt.functionsOption s, d.2.beq d.2 = true
  | none, _ => List.forall_mem_nil _
  | some s, h => by
    rw [Stmt.beqOption] at h
    exact Stmt.beq_bodies s h

theorem Block.beq_bodies : ∀ b : Block, b.beq b = true → ∀ d ∈ b.functions, d.2.beq d.2 = true
  | .mk ss _, h => by
    simp only [Block.beq, Bool.and_eq_true] at h
    exact Stmt.beqList_bodies ss h.1

theorem Stmt.beqList_bodies : ∀ ss : List Stmt, Stmt.beqList ss ss = true →
    ∀ d ∈ Stmt.functionsAll ss, d.2.beq d.2 = true
  | [], _ => List.forall_mem_nil _
  | s :: ss, h => by
    simp only [Stmt.beqList, Bool.and_eq_true] at h
    exact List.forall_mem_append.2 ⟨Stmt.beq_bodies s h.1, Stmt.beqList_bodies ss h.2⟩
end

theorem Program.beq_bodies {source : String} {file : Option String} {p : Program}
    (hsize : Source.byteLength source.toList < Source.offsetBound)
    (hp : parse source file = (p, [])) :
    ∀ d ∈ Stmt.functionsAll p.statements, d.2.beq d.2 = true := by
  obtain ⟨name, stop, us, hscan, -, hread⟩ := tokens_of_parse hsize hp
  obtain ⟨ts, vs, hts, hss⟩ := recounted_of_ofTokens rfl hread fun n =>
    (parseStatementsAt_recounts n).mono fun _ _ _ _ h => h.1
  have hself : ∀ t ∈ ts, t.IsReflexive := fun t ht =>
    Token.scan_isReflexive hscan t (hts ▸ List.mem_append_left vs ht)
  exact Stmt.beqList_bodies p.statements (hss.beq_self hself)

end TypedScript
