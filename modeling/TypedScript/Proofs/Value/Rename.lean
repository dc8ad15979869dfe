import TypedScript.Proofs.Store.Intact

/-! Values with their scopes renamed. Nothing that a program can see of a value depends on which
slot a scope is in, but for the equality of functions, which tells scopes apart by it. -/

namespace TypedScript

def Closure.mapHome (g : Handle → Handle) (f : Closure) : Closure := { f with home := g f.home }

namespace Value

def mapHomes (g : Handle → Handle) : Value → Value
  | .function f => .function (f.mapHome g)
  | .bound f receiver => .bound (f.mapHome g) (receiver.mapHomes g)
  | v => v

section mapHomes

variable (g : Handle → Handle) (v w : Value) (cells : Cells)

@[simp] theorem ty_mapHomes : (v.mapHomes g).ty = v.ty := by cases v <;> rfl

@[simp] theorem truthy_mapHomes : (v.mapHomes g).truthy cells = v.truthy cells := by
  cases v <;> rfl

@[simp] theorem text_mapHomes : (v.mapHomes g).text cells = v.text cells := by cases v <;> rfl

@[simp] theorem isString_mapHomes : (v.mapHomes g).isString = v.isString := by cases v <;> rfl

@[simp] theorem unary_mapHomes (op : UnaryOp) : (v.mapHomes g).unary cells op =
    v.unary cells op := by
  cases op <;> cases v <;> rfl

@[simp] theorem arithmetic_mapHomes (op : BinaryOp) :
    arithmetic cells op (v.mapHomes g) (w.mapHomes g) = arithmetic cells op v w := by
  cases v <;> cases w <;> rfl

theorem asFunction?_mapHomes : (v.mapHomes g).asFunction? =
    v.asFunction?.map fun e => (e.1.mapHome g, e.2.map (mapHomes g)) := by cases v <;> rfl

end mapHomes

def rename (ρ : Slot → Slot) (v : Value) : Value := v.mapHomes fun h => ⟨ρ h.slot, h.stamp⟩

/-- A value with every scope in the slot that its stamp numbers. -/
def placeless (v : Value) : Value := v.mapHomes fun h => ⟨⟨h.stamp⟩, h.stamp⟩

section placeless

variable {v v' w w' : Value} (cells : Cells)

theorem ty_eq_of_placeless (h : v.placeless = v'.placeless) : v.ty = v'.ty := by
  simpa [placeless] using congrArg ty h

theorem truthy_eq_of_placeless (h : v.placeless = v'.placeless) :
    v.truthy cells = v'.truthy cells := by
  simpa [placeless] using congrArg (truthy cells) h

theorem unary_eq_of_placeless (h : v.placeless = v'.placeless) (op : UnaryOp) :
    v.unary cells op = v'.unary cells op := by
  simpa [placeless] using congrArg (unary cells op) h

def SlotsTell (v w : Value) : Prop :=
  ∀ f ∈ v.closures, ∀ g ∈ w.closures, f.home.slot = g.home.slot ↔ f.home.stamp = g.home.stamp

theorem equal_placeless (h : SlotsTell v w) :
    v.placeless.equal cells w.placeless = v.equal cells w := by
  have hagrees : ∀ {f g : Closure}, (f.home.slot = g.home.slot ↔ f.home.stamp = g.home.stamp) →
      (f.mapHome fun h => ⟨⟨h.stamp⟩, h.stamp⟩).agrees (g.mapHome fun h => ⟨⟨h.stamp⟩, h.stamp⟩) =
        f.agrees g := by
    intro f g hfg
    have hb : ((⟨f.home.stamp⟩ : Slot) == ⟨g.home.stamp⟩) = (f.home.slot == g.home.slot) := by
      rw [Bool.eq_iff_iff, beq_iff_eq, beq_iff_eq, hfg, Slot.mk.injEq]
    simp only [Closure.agrees, Closure.mapHome, hb]
  induction v generalizing w with
  | function f =>
    cases w with
    | function g => exact hagrees (h f (by simp [closures]) g (by simp [closures]))
    | _ => rfl
  | bound f r ih =>
    cases w with
    | bound g s =>
      have hr : r.placeless.equal cells s.placeless = r.equal cells s :=
        ih fun a ha b hb => h a (by simp [closures, ha]) b (by simp [closures, hb])
      have hf := hagrees (h f (by simp [closures]) g (by simp [closures]))
      simp only [placeless, mapHomes, equal] at hr ⊢
      rw [hf, hr]
    | _ => rfl
  | _ => cases w <;> rfl

theorem binary_eq_of_placeless (hv : v.placeless = v'.placeless) (hw : w.placeless = w'.placeless)
    (h : SlotsTell v w) (h' : SlotsTell v' w') (op : BinaryOp) :
    binary cells op v w = binary cells op v' w' := by
  have hequal : v.equal cells w = v'.equal cells w' := by
    rw [← equal_placeless cells h, ← equal_placeless cells h', hv, hw]
  have htext : ∀ {a b : Value}, a.placeless = b.placeless → a.text cells = b.text cells :=
    fun hab => by simpa [placeless] using congrArg (text cells) hab
  have hstring : ∀ {a b : Value}, a.placeless = b.placeless → a.isString = b.isString :=
    fun hab => by simpa [placeless] using congrArg isString hab
  have harith : arithmetic cells op v w = arithmetic cells op v' w' := by
    have h : arithmetic cells op v.placeless w.placeless =
        arithmetic cells op v'.placeless w'.placeless := by rw [hv, hw]
    simpa [placeless] using h
  rw [binary, binary, hequal, htext hv, htext hw, hstring hv, hstring hw, harith,
    ty_eq_of_placeless hv, ty_eq_of_placeless hw]

end placeless

end Value

def Member.placeless : Member → Member
  | .field v => .field v.placeless
  | .method f receiver =>
    .method (f.mapHome fun h => ⟨⟨h.stamp⟩, h.stamp⟩) (receiver.map Value.placeless)

def Member.rename (ρ : Slot → Slot) : Member → Member
  | .field v => .field (v.rename ρ)
  | .method f receiver =>
    .method (f.mapHome fun h => ⟨ρ h.slot, h.stamp⟩) (receiver.map (Value.rename ρ))

end TypedScript
