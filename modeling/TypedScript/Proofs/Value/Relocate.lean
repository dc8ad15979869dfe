import TypedScript.Proofs.Layout.Faithful
import TypedScript.Value.Operation

namespace TypedScript

def Closure.relocate (ρ : Relocation) (f : Closure) : Closure :=
  { f with body := f.body.relocate ρ }

instance : Placed Closure := ⟨Closure.relocate⟩

theorem Closure.agrees_relocate {ρ : Relocation} (h : ρ.Faithful) (f g : Closure) :
    (f.relocate ρ).agrees (g.relocate ρ) = f.agrees g := by
  simp only [agrees, relocate, h.block_beq]

namespace Value

def relocate (ρ : Relocation) : Value → Value
  | .function f => .function (f.relocate ρ)
  | .bound f receiver => .bound (f.relocate ρ) (receiver.relocate ρ)
  | v => v

instance : Placed Value := ⟨relocate⟩

section relocate

variable (ρ : Relocation) (v w : Value) (cells : Cells)

@[simp] theorem ty_relocate : (v.relocate ρ).ty = v.ty := by cases v <;> rfl

@[simp] theorem truthy_relocate : (v.relocate ρ).truthy cells = v.truthy cells := by cases v <;> rfl

@[simp] theorem text_relocate : (v.relocate ρ).text cells = v.text cells := by cases v <;> rfl

@[simp] theorem isString_relocate : (v.relocate ρ).isString = v.isString := by cases v <;> rfl

@[simp] theorem unary_relocate (op : UnaryOp) :
    (v.relocate ρ).unary cells op = v.unary cells op := by
  cases op <;> cases v <;> rfl

@[simp] theorem arithmetic_relocate (op : BinaryOp) :
    arithmetic cells op (v.relocate ρ) (w.relocate ρ) = arithmetic cells op v w := by
  cases v <;> cases w <;> rfl

theorem asFunction?_relocate : (v.relocate ρ).asFunction? = Placed.relocate ρ v.asFunction? := by
  cases v <;> rfl

end relocate

variable {ρ : Relocation} (cells : Cells)

theorem equal_relocate (h : ρ.Faithful) (v w : Value) :
    (v.relocate ρ).equal cells (w.relocate ρ) = v.equal cells w := by
  induction v generalizing w with
  | function f =>
    cases w with
    | function g => exact Closure.agrees_relocate h f g
    | _ => rfl
  | bound f r ih =>
    cases w with
    | bound g s => simp only [relocate, equal, Closure.agrees_relocate h, ih]
    | _ => rfl
  | _ => cases w <;> rfl

theorem binary_relocate (h : ρ.Faithful) (op : BinaryOp) (v w : Value) :
    binary cells op (v.relocate ρ) (w.relocate ρ) = binary cells op v w := by
  simp only [binary, equal_relocate cells h, isString_relocate, text_relocate, arithmetic_relocate,
    ty_relocate]

end Value

end TypedScript
