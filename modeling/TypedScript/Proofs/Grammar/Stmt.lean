import TypedScript.Proofs.Grammar.Expr
import TypedScript.Stmt.Basic

namespace TypedScript

/-- An `else` behind the statement would still belong to an `if` inside it. -/
def Stmt.endsOpen : Stmt → Bool
  | .cond _ _ none _ => true
  | .cond _ _ (some no) _ => no.endsOpen
  | .loop _ body _ => body.endsOpen
  | _ => false

namespace Grammar

section

variable (T : String → Option Ty)

mutual
inductive Annotates : List Token → Ty → Prop
  | name {x : Token} {t : Ty} (hx : x.kind = .identifier) (ht : T x.value = some t) :
      Annotates [x] t
  | func {k o c : Token} {us rs : List Token} {ps : List Ty} {r : Ty} (hk : k.kind = .kwFunc)
      (ho : o.kind = .openParen) (hps : AnnotatesAll us ps) (hc : c.kind = .closeParen)
      (hr : Returns rs r) : Annotates (k :: o :: us ++ c :: rs) (.func ps r)

inductive AnnotatesAll : List Token → List Ty → Prop
  | none : AnnotatesAll [] []
  | last {us : List Token} {t : Ty} (h : Annotates us t) : AnnotatesAll us [t]
  | more {k : Token} {us vs : List Token} {t : Ty} {ts : List Ty} (h : Annotates us t)
      (hk : k.kind = .comma) (hs : AnnotatesAll vs ts) : AnnotatesAll (us ++ k :: vs) (t :: ts)

inductive Returns : List Token → Ty → Prop
  | void : Returns [] .void
  | type {k : Token} {us : List Token} {t : Ty} (hk : k.kind = .arrow) (h : Annotates us t) :
      Returns (k :: us) t
end

inductive Parameters : List Token → List Parameter → Prop
  | none : Parameters [] []
  | last {x k : Token} {us : List Token} {t : Ty} (hx : x.kind = .identifier)
      (hk : k.kind = .colon) (h : Annotates T us t) : Parameters (x :: k :: us) [⟨x.value, t⟩]
  | more {x k l : Token} {us vs : List Token} {t : Ty} {ps : List Parameter}
      (hx : x.kind = .identifier) (hk : k.kind = .colon) (h : Annotates T us t)
      (hl : l.kind = .comma) (hs : Parameters vs ps) :
      Parameters (x :: k :: us ++ l :: vs) (⟨x.value, t⟩ :: ps)

inductive Declares : List Token → Option Ty → String → Prop
  | name {x : Token} (hx : x.kind = .identifier) : Declares [x] none x.value
  | member {r d m : Token} {t : Ty} (hr : r.kind = .identifier) (ht : T r.value = some t)
      (hd : d.kind = .dot) (hm : m.kind = .identifier) : Declares [r, d, m] (some t) m.value

mutual
/-- The tokens spell the statement. An `else` belongs to the nearest `if` without one. -/
inductive Statement : List Token → Stmt → Prop
  | inferred {k a s : Token} {ds es : List Token} {receiver : Option Ty} {x : String} {e : Expr}
      {span : Span} (hk : k.kind = .kwLet) (hd : Declares T ds receiver x)
      (ha : a.kind = .assignment) (he : Derives .assignment es e.tree) (hs : s.kind = .semicolon) :
      Statement (k :: ds ++ a :: es ++ [s]) (.define x e.ty e receiver span)
  | annotated {k c a s : Token} {ds us es : List Token} {receiver : Option Ty} {x : String} {t : Ty}
      {e : Expr} {span : Span} (hk : k.kind = .kwLet) (hd : Declares T ds receiver x)
      (hc : c.kind = .colon) (ht : Annotates T us t) (ha : a.kind = .assignment)
      (he : Derives .assignment es e.tree) (hs : s.kind = .semicolon) :
      Statement (k :: ds ++ c :: us ++ a :: es ++ [s]) (.define x t e receiver span)
  | unset {k c s : Token} {ds us : List Token} {receiver : Option Ty} {x : String} {t : Ty}
      {e : Expr} {span : Span} (hk : k.kind = .kwLet) (hd : Declares T ds receiver x)
      (hc : c.kind = .colon) (ht : Annotates T us t) (hs : s.kind = .semicolon)
      (he : e.tree = .literal .null) :
      Statement (k :: ds ++ c :: us ++ [s]) (.define x t e receiver span)
  | ret {k s : Token} {es : List Token} {e : Expr} {span : Span} (hk : k.kind = .kwReturn)
      (he : Derives .assignment es e.tree) (hs : s.kind = .semicolon) :
      Statement (k :: es ++ [s]) (.ret e span)
  | bare {k s : Token} {e : Expr} {span : Span} (hk : k.kind = .kwReturn) (hs : s.kind = .semicolon)
      (he : e.tree = .literal .void) : Statement [k, s] (.ret e span)
  | func {k o c : Token} {ds us rs bs : List Token} {receiver : Option Ty} {x : String}
      {ps : List Parameter} {r : Ty} {body : Block} {span : Span} (hk : k.kind = .kwFunc)
      (hd : Declares T ds receiver x) (ho : o.kind = .openParen) (hps : Parameters T us ps)
      (hc : c.kind = .closeParen) (hr : Returns T rs r) (hb : Braces bs body) :
      Statement (k :: ds ++ o :: us ++ c :: rs ++ bs)
        (.func ⟨x, receiver, ps, ⟨ps.map Parameter.ty, r⟩⟩ body span)
  | block {bs : List Token} {b : Block} (hb : Braces bs b) : Statement bs (.block b)
  | cond {k : Token} {cs ys : List Token} {c : Expr} {yes : Stmt} {span : Span}
      (hk : k.kind = .kwIf) (hc : Derives .assignment cs c.tree) (hy : Statement ys yes) :
      Statement (k :: cs ++ ys) (.cond c yes none span)
  | condElse {k l : Token} {cs ys ns : List Token} {c : Expr} {yes no : Stmt} {span : Span}
      (hk : k.kind = .kwIf) (hc : Derives .assignment cs c.tree) (hy : Statement ys yes)
      (hopen : yes.endsOpen = false) (hl : l.kind = .kwElse) (hn : Statement ns no) :
      Statement (k :: cs ++ ys ++ l :: ns) (.cond c yes (some no) span)
  | loop {k : Token} {cs bs : List Token} {c : Expr} {body : Stmt} {span : Span}
      (hk : k.kind = .kwWhile) (hc : Derives .assignment cs c.tree) (hb : Statement bs body) :
      Statement (k :: cs ++ bs) (.loop c body span)
  | expr {s : Token} {es : List Token} {e : Expr} {span : Span}
      (he : Derives .assignment es e.tree) (hs : s.kind = .semicolon) :
      Statement (es ++ [s]) (.expr e span)
  | typeDecl {k x s : Token} {span : Span} (hk : k.kind = .kwType) (hx : x.kind = .identifier)
      (hs : s.kind = .semicolon) : Statement [k, x, s] (.typeDecl x.value span)

inductive Braces : List Token → Block → Prop
  | mk {o c : Token} {us : List Token} {ss : List Stmt} {span : Span} (ho : o.kind = .openCurly)
      (h : Sequence us ss) (hc : c.kind = .closeCurly) : Braces (o :: us ++ [c]) (.mk ss span)

inductive Sequence : List Token → List Stmt → Prop
  | nil : Sequence [] []
  | stray {s : Token} {us : List Token} {ss : List Stmt} (hs : s.kind = .semicolon)
      (h : Sequence us ss) : Sequence (s :: us) ss
  | cons {us vs : List Token} {s : Stmt} {ss : List Stmt} (h : Statement us s)
      (hs : Sequence vs ss) : Sequence (us ++ vs) (s :: ss)
end

end

end Grammar

end TypedScript
