import TypedScript.Expr.Parser

/-! The grammar of expressions, in levels from assignment, which binds least, to what stands in
parentheses. It says which lists of tokens spell which trees, and knows nothing of parsers. -/

namespace TypedScript

inductive Tree
  | name (name : String)
  | literal (value : Literal)
  | unary (op : UnaryOp) (operand : Tree)
  | binary (op : BinaryOp) (left right : Tree)
  | call (callee : Tree) (arguments : List Tree)
  | assign (target : String) (value : Tree)
  | step (op : StepOp) (before : Bool) (target : String)
  | member (object : Tree) (member : String)

theorem Power.eq_of_rank {p q : Power} (h : p.rank = q.rank) : p = q := by
  cases p <;> cases q <;> first | rfl | cases h

namespace Expr

mutual
def tree : Expr → Tree
  | name _ x => .name x
  | literal _ v => .literal v
  | unary _ op e => .unary op e.tree
  | binary _ op l r => .binary op l.tree r.tree
  | call _ f args => .call f.tree (trees args)
  | assign _ x e => .assign x e.tree
  | step _ op before x => .step op before x
  | member _ e m => .member e.tree m

def trees : List Expr → List Tree
  | [] => []
  | e :: es => e.tree :: trees es
end

@[simp] theorem tree_withSpan (span : Span) (e : Expr) : (e.withSpan span).tree = e.tree := by
  cases e <;> rfl

theorem asName?_eq_some {e : Expr} {x : String} : e.asName? = some x ↔ e.tree = .name x := by
  cases e <;> simp [asName?, tree]

end Expr

namespace Grammar

def literal? (t : Token) : Option Literal :=
  match t.kind with
  | .integer => (Decimal.readInteger? t.value).map .integer
  | .float => (Decimal.readFloat? t.value).map .float
  | .string => some (.string t.value)
  | .kwTrue => some (.boolean true)
  | .kwFalse => some (.boolean false)
  | .kwNull => some .null
  | _ => none

def unaryKind : UnaryOp → Token.Kind
  | .not => .not
  | .negate => .dash

def stepKind : StepOp → Token.Kind
  | .increment => .plusPlus
  | .decrement => .minusMinus

def binaryKind : BinaryOp → Token.Kind
  | .plus => .plus
  | .minus => .dash
  | .multiply => .star
  | .divide => .slash
  | .less => .less
  | .greater => .greater
  | .lessEquals => .lessEquals
  | .greaterEquals => .greaterEquals
  | .equals => .equals
  | .notEquals => .notEquals
  | .and => .and
  | .or => .or

def level : BinaryOp → Power
  | .or => .logicalOr
  | .and => .logicalAnd
  | .equals | .notEquals => .equality
  | .less | .greater | .lessEquals | .greaterEquals => .relational
  | .plus | .minus => .additive
  | .multiply | .divide => .multiplicative

inductive Target : List Token → String → Prop
  | name {t : Token} (ht : t.kind = .identifier) : Target [t] t.value
  | group {o c : Token} {ts : List Token} {x : String} (ho : o.kind = .openParen)
      (hc : c.kind = .closeParen) (h : Target ts x) : Target (o :: ts ++ [c]) x

mutual
/-- The tokens spell the tree at a level, or at one that binds more tightly. The operands of a
binary operator are of its own level on the left and of a tighter one on the right. -/
inductive Derives : Power → List Token → Tree → Prop
  | lift {p q : Power} {ts : List Token} {e : Tree} (hpq : p < q) (h : Derives q ts e) :
      Derives p ts e
  | literal {t : Token} {v : Literal} (ht : literal? t = some v) : Derives .primary [t] (.literal v)
  | name {t : Token} (ht : t.kind = .identifier) : Derives .primary [t] (.name t.value)
  | group {o c : Token} {ts : List Token} {e : Tree} (ho : o.kind = .openParen)
      (hc : c.kind = .closeParen) (h : Derives .assignment ts e) :
      Derives .primary (o :: ts ++ [c]) e
  | call {o c : Token} {ts us : List Token} {f : Tree} {args : List Tree}
      (h : Derives .suffix ts f) (ho : o.kind = .openParen) (hargs : Arguments us args)
      (hc : c.kind = .closeParen) : Derives .suffix (ts ++ o :: us ++ [c]) (.call f args)
  | member {d m : Token} {ts : List Token} {e : Tree} (h : Derives .suffix ts e)
      (hd : d.kind = .dot) (hm : m.kind = .identifier) :
      Derives .suffix (ts ++ [d, m]) (.member e m.value)
  | stepAfter {o : Token} {ts : List Token} {x : String} {op : StepOp} (h : Target ts x)
      (ho : o.kind = stepKind op) : Derives .suffix (ts ++ [o]) (.step op false x)
  | unary {o : Token} {ts : List Token} {e : Tree} {op : UnaryOp} (ho : o.kind = unaryKind op)
      (h : Derives .unary ts e) : Derives .unary (o :: ts) (.unary op e)
  | stepBefore {o : Token} {ts : List Token} {x : String} {op : StepOp}
      (ho : o.kind = stepKind op) (h : Target ts x) : Derives .unary (o :: ts) (.step op true x)
  | binary {o : Token} {ls rs : List Token} {l r : Tree} {op : BinaryOp} {q : Power}
      (hl : Derives (level op) ls l) (ho : o.kind = binaryKind op) (hq : level op < q)
      (hr : Derives q rs r) : Derives (level op) (ls ++ o :: rs) (.binary op l r)
  | assign {o : Token} {ts us : List Token} {x : String} {e : Tree} (h : Target ts x)
      (ho : o.kind = .assignment) (he : Derives .assignment us e) :
      Derives .assignment (ts ++ o :: us) (.assign x e)

inductive Arguments : List Token → List Tree → Prop
  | none : Arguments [] []
  | last {ts : List Token} {e : Tree} (h : Derives .assignment ts e) : Arguments ts [e]
  | more {k : Token} {ts us : List Token} {e : Tree} {es : List Tree}
      (h : Derives .assignment ts e) (hk : k.kind = .comma) (hs : Arguments us es) :
      Arguments (ts ++ k :: us) (e :: es)
end

/-- The tokens spell the tree at a level above `bound`. What a unary operator begins is admitted
under every bound. -/
def Admits (bound : Power) (ts : List Token) (e : Tree) : Prop :=
  ∃ p, (bound < p ∨ p = .unary) ∧ Derives p ts e

theorem Derives.target {x : String} : ∀ {p : Power} {ts : List Token} {e : Tree},
    Derives p ts e → e = .name x → Target ts x
  | _, _, _, .lift _ h, he => h.target he
  | _, _, _, .name ht, he => by
    cases he
    exact .name ht
  | _, _, _, .group ho hc h, he => .group ho hc (h.target he)
  | _, _, _, .literal _, he | _, _, _, .call .., he | _, _, _, .member .., he
  | _, _, _, .stepAfter .., he | _, _, _, .unary .., he | _, _, _, .stepBefore .., he
  | _, _, _, .binary .., he | _, _, _, .assign .., he => nomatch he

theorem Derives.of_not_lt {p q : Power} {ts : List Token} {e : Tree} (h : Derives p ts e)
    (hpq : ¬ p < q) : Derives q ts e := by
  obtain hqp | hqp := Nat.lt_or_eq_of_le (Nat.le_of_not_lt hpq)
  · exact .lift hqp h
  · exact Power.eq_of_rank hqp ▸ h

end Grammar

end TypedScript
