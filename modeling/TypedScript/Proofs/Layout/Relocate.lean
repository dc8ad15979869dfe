import TypedScript.Stmt.Parser

namespace TypedScript

/-- Where things come to stand: what starts at `p` then starts at `starts p`, and what stops
there at `stops p`. -/
structure Relocation where
  starts : Position → Position
  stops : Position → Position

def Relocation.refl : Relocation := ⟨id, id⟩

class Placed (α : Type) where
  relocate : Relocation → α → α

open Placed (relocate)

instance {α : Type} [Placed α] : Placed (List α) := ⟨fun ρ => List.map (relocate ρ)⟩

instance {α : Type} [Placed α] : Placed (Option α) := ⟨fun ρ => Option.map (relocate ρ)⟩

instance {α β : Type} [Placed α] [Placed β] : Placed (α × β) :=
  ⟨fun ρ x => (relocate ρ x.1, relocate ρ x.2)⟩

instance : Placed Unit := ⟨fun _ x => x⟩

instance : Placed Bool := ⟨fun _ x => x⟩

instance : Placed Token.Kind := ⟨fun _ x => x⟩

instance : Placed Ty := ⟨fun _ x => x⟩

instance : Placed Parameter := ⟨fun _ x => x⟩

instance : Placed Heading := ⟨fun _ x => x⟩

def Span.relocate (ρ : Relocation) (s : Span) : Span := ⟨ρ.starts s.start, ρ.stops s.stop⟩

instance : Placed Span := ⟨Span.relocate⟩

def Token.relocate (ρ : Relocation) (t : Token) : Token := { t with span := t.span.relocate ρ }

instance : Placed Token := ⟨Token.relocate⟩

def Diagnostic.relocate (ρ : Relocation) (d : Diagnostic) : Diagnostic :=
  ⟨d.fault, ρ.starts d.position⟩

def Ann.relocate (ρ : Relocation) (a : Ann) : Ann := ⟨a.ty, a.span.relocate ρ⟩

mutual
def Expr.relocate (ρ : Relocation) : Expr → Expr
  | .name a x => .name (a.relocate ρ) x
  | .literal a v => .literal (a.relocate ρ) v
  | .unary a op e => .unary (a.relocate ρ) op (e.relocate ρ)
  | .binary a op l r => .binary (a.relocate ρ) op (l.relocate ρ) (r.relocate ρ)
  | .call a f args => .call (a.relocate ρ) (f.relocate ρ) (Expr.relocateAll ρ args)
  | .assign a x e => .assign (a.relocate ρ) x (e.relocate ρ)
  | .step a op before x => .step (a.relocate ρ) op before x
  | .member a e m => .member (a.relocate ρ) (e.relocate ρ) m

def Expr.relocateAll (ρ : Relocation) : List Expr → List Expr
  | [] => []
  | e :: es => e.relocate ρ :: Expr.relocateAll ρ es
end

instance : Placed Expr := ⟨Expr.relocate⟩

mutual
def Stmt.relocate (ρ : Relocation) : Stmt → Stmt
  | .define x t e r p => .define x t (e.relocate ρ) r (p.relocate ρ)
  | .ret e p => .ret (e.relocate ρ) (p.relocate ρ)
  | .func h b p => .func h (b.relocate ρ) (p.relocate ρ)
  | .block b => .block (b.relocate ρ)
  | .cond c y n p =>
    .cond (c.relocate ρ) (y.relocate ρ) (Stmt.relocateOption ρ n) (p.relocate ρ)
  | .loop c b p => .loop (c.relocate ρ) (b.relocate ρ) (p.relocate ρ)
  | .expr e p => .expr (e.relocate ρ) (p.relocate ρ)
  | .typeDecl x p => .typeDecl x (p.relocate ρ)

def Stmt.relocateOption (ρ : Relocation) : Option Stmt → Option Stmt
  | none => none
  | some s => some (s.relocate ρ)

def Block.relocate (ρ : Relocation) : Block → Block
  | .mk ss p => .mk (Stmt.relocateAll ρ ss) (p.relocate ρ)

def Stmt.relocateAll (ρ : Relocation) : List Stmt → List Stmt
  | [] => []
  | s :: ss => s.relocate ρ :: Stmt.relocateAll ρ ss
end

instance : Placed Stmt := ⟨Stmt.relocate⟩

instance : Placed Block := ⟨Block.relocate⟩

def Stmt.Definition.relocate (ρ : Relocation) (d : Stmt.Definition) : Stmt.Definition :=
  ⟨d.receiver, d.name.relocate ρ, d.annotation, d.value.relocate ρ, d.span.relocate ρ⟩

instance : Placed Stmt.Definition := ⟨Stmt.Definition.relocate⟩

theorem Placed.relocate_option {α : Type} [Placed α] {ρ : Relocation}
    (h : ∀ a : α, relocate ρ a = a) (x : Option α) : relocate ρ x = x := by
  cases x with
  | none => rfl
  | some a => exact congrArg some (h a)

section Token

variable (ρ : Relocation) (t : Token)

@[simp] theorem Token.relocate_kind : (t.relocate ρ).kind = t.kind := rfl

@[simp] theorem Token.relocate_value : (t.relocate ρ).value = t.value := rfl

@[simp] theorem Token.relocate_refl : t.relocate .refl = t := rfl

end Token

namespace Expr

variable (ρ : Relocation) (e : Expr)

theorem relocateAll_eq (es : List Expr) : relocateAll ρ es = es.map (relocate ρ) := by
  induction es with
  | nil => rfl
  | cons e es ih => rw [relocateAll, ih, List.map_cons]

@[simp] theorem ann_relocate : (e.relocate ρ).ann = e.ann.relocate ρ := by
  cases e <;> simp [relocate, ann]

@[simp] theorem ty_relocate : (e.relocate ρ).ty = e.ty := by simp [ty, Ann.relocate]

@[simp] theorem span_relocate : (e.relocate ρ).span = e.span.relocate ρ := by
  simp [span, Ann.relocate]

@[simp] theorem isNull_relocate : (e.relocate ρ).isNull = e.isNull := by
  cases e <;> simp [relocate, isNull]
  rename_i v
  cases v <;> rfl

@[simp] theorem tyName_relocate : (e.relocate ρ).tyName = e.tyName := by simp [tyName]

@[simp] theorem isFaulty_relocate : (e.relocate ρ).isFaulty = e.isFaulty := by simp [isFaulty]

@[simp] theorem asName?_relocate : (e.relocate ρ).asName? = e.asName? := by
  cases e <;> simp [relocate, asName?]

theorem relocate_withSpan (span : Span) :
    (e.withSpan span).relocate ρ = (e.relocate ρ).withSpan (span.relocate ρ) := by
  cases e <;> simp [relocate, withSpan, Ann.relocate]

end Expr

namespace Stmt

variable (ρ : Relocation)

theorem relocateAll_eq (ss : List Stmt) : relocateAll ρ ss = ss.map (relocate ρ) := by
  induction ss with
  | nil => rfl
  | cons s ss ih => rw [relocateAll, ih, List.map_cons]

end Stmt

mutual
@[simp] theorem Stmt.alwaysReturns_relocate (ρ : Relocation) :
    ∀ s : Stmt, (s.relocate ρ).alwaysReturns = s.alwaysReturns
  | .define .. | .ret .. | .func .. | .loop .. | .expr .. | .typeDecl .. => by
    simp [Stmt.relocate, Stmt.alwaysReturns]
  | .block b => by
    rw [Stmt.relocate, Stmt.alwaysReturns, Stmt.alwaysReturns, Block.alwaysReturns_relocate ρ b]
  | .cond c yes none p => by
    simp [Stmt.relocate, Stmt.relocateOption, Stmt.alwaysReturns]
  | .cond c yes (some no) p => by
    rw [Stmt.relocate, Stmt.relocateOption, Stmt.alwaysReturns, Stmt.alwaysReturns,
      Stmt.alwaysReturns_relocate ρ yes, Stmt.alwaysReturns_relocate ρ no]

@[simp] theorem Block.alwaysReturns_relocate (ρ : Relocation) :
    ∀ b : Block, (b.relocate ρ).alwaysReturns = b.alwaysReturns
  | .mk ss p => by
    rw [Block.relocate, Block.alwaysReturns, Block.alwaysReturns, Stmt.someReturns_relocate ρ ss]

theorem Stmt.someReturns_relocate (ρ : Relocation) :
    ∀ ss : List Stmt, Stmt.someReturns (Stmt.relocateAll ρ ss) = Stmt.someReturns ss
  | [] => rfl
  | s :: ss => by
    rw [Stmt.relocateAll, Stmt.someReturns, Stmt.someReturns, Stmt.alwaysReturns_relocate ρ s,
      Stmt.someReturns_relocate ρ ss]
end

mutual
theorem Expr.relocate_refl : ∀ e : Expr, e.relocate .refl = e
  | .name .. | .literal .. | .step .. => rfl
  | .unary a op e => by rw [relocate, relocate_refl e]; rfl
  | .binary a op l r => by rw [relocate, relocate_refl l, relocate_refl r]; rfl
  | .call a f args => by rw [relocate, relocate_refl f, relocateAll_refl args]; rfl
  | .assign a x e => by rw [relocate, relocate_refl e]; rfl
  | .member a e m => by rw [relocate, relocate_refl e]; rfl

theorem Expr.relocateAll_refl : ∀ es : List Expr, relocateAll .refl es = es
  | [] => rfl
  | e :: es => by rw [relocateAll, relocate_refl e, relocateAll_refl es]
end

mutual
theorem Stmt.relocate_refl : ∀ s : Stmt, s.relocate .refl = s
  | .define x t e r p => by rw [Stmt.relocate, Expr.relocate_refl]; rfl
  | .ret e p => by rw [Stmt.relocate, Expr.relocate_refl]; rfl
  | .func h b p => by rw [Stmt.relocate, Block.relocate_refl b]; rfl
  | .block b => by rw [Stmt.relocate, Block.relocate_refl b]
  | .cond c y n p => by
    rw [Stmt.relocate, Expr.relocate_refl, Stmt.relocate_refl y, Stmt.relocateOption_refl n]
    rfl
  | .loop c b p => by rw [Stmt.relocate, Expr.relocate_refl, Stmt.relocate_refl b]; rfl
  | .expr e p => by rw [Stmt.relocate, Expr.relocate_refl]; rfl
  | .typeDecl .. => rfl

theorem Stmt.relocateOption_refl : ∀ s : Option Stmt, Stmt.relocateOption .refl s = s
  | none => rfl
  | some s => by rw [Stmt.relocateOption, Stmt.relocate_refl s]

theorem Block.relocate_refl : ∀ b : Block, b.relocate .refl = b
  | .mk ss p => by rw [Block.relocate, Stmt.relocateAll_refl ss]; rfl

theorem Stmt.relocateAll_refl : ∀ ss : List Stmt, Stmt.relocateAll .refl ss = ss
  | [] => rfl
  | s :: ss => by rw [Stmt.relocateAll, Stmt.relocate_refl s, Stmt.relocateAll_refl ss]
end

end TypedScript
