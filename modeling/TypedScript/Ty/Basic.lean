namespace TypedScript

/-- `never` is the type of what failed to type and of `null`. -/
inductive Ty
  | int
  | float
  | string
  | bool
  | void
  | never
  | func (parameters : List Ty) (result : Ty)
  | named (name : String)
  deriving Inhabited

namespace Ty

mutual
def beq : Ty → Ty → Bool
  | int, int => true
  | float, float => true
  | string, string => true
  | bool, bool => true
  | void, void => true
  | never, never => true
  | func ps r, func qs s => beqList ps qs && beq r s
  | named m, named n => m == n
  | _, _ => false

def beqList : List Ty → List Ty → Bool
  | [], [] => true
  | a :: as, b :: bs => beq a b && beqList as bs
  | _, _ => false
end

mutual
theorem beq_refl : ∀ a : Ty, beq a a = true
  | int | float | string | bool | void | never => rfl
  | func ps r => by simp [beq, beqList_refl ps, beq_refl r]
  | named n => by simp [beq]

theorem beqList_refl : ∀ as : List Ty, beqList as as = true
  | [] => rfl
  | a :: as => by simp [beqList, beq_refl a, beqList_refl as]
end

mutual
theorem eq_of_beq : ∀ {a b : Ty}, beq a b = true → a = b
  | int, b, h | float, b, h | string, b, h | bool, b, h | void, b, h | never, b, h => by
    cases b <;> first | rfl | simp [beq] at h
  | func ps r, b, h => by
    cases b with
    | func qs s =>
      simp only [beq, Bool.and_eq_true] at h
      rw [eq_of_beqList h.1, eq_of_beq h.2]
    | _ => simp [beq] at h
  | named n, b, h => by
    cases b with
    | named m => simpa [beq] using h
    | _ => simp [beq] at h

theorem eq_of_beqList : ∀ {as bs : List Ty}, beqList as bs = true → as = bs
  | [], bs, h => by
    cases bs with
    | nil => rfl
    | cons b bs => simp [beqList] at h
  | a :: as, bs, h => by
    cases bs with
    | nil => simp [beqList] at h
    | cons b bs =>
      simp only [beqList, Bool.and_eq_true] at h
      rw [eq_of_beq h.1, eq_of_beqList h.2]
end

theorem beq_iff_eq {a b : Ty} : beq a b = true ↔ a = b :=
  ⟨eq_of_beq, fun h => h ▸ beq_refl a⟩

instance : DecidableEq Ty := fun _ _ => decidable_of_iff _ beq_iff_eq

def isNumeric : Ty → Bool
  | int | float => true
  | _ => false

def isNever : Ty → Bool
  | never => true
  | _ => false

def assignable (source target : Ty) : Bool := source.isNever || source = target

def builtin? : String → Option Ty
  | "int" => some int
  | "float" => some float
  | "string" => some string
  | "bool" => some bool
  | "void" => some void
  | _ => none

mutual
def text : Ty → String
  | int => "int"
  | float => "float"
  | string => "string"
  | bool => "bool"
  | void => "void"
  | never => "never"
  | func ps r => "func(" ++ listText ps ++ ") -> " ++ text r
  | named n => n

def listText : List Ty → String
  | [] => ""
  | [a] => text a
  | a :: b :: as => text a ++ ", " ++ listText (b :: as)
end

end Ty

structure Signature where
  parameters : List Ty
  result : Ty
  deriving DecidableEq

def Signature.toTy (s : Signature) : Ty := .func s.parameters s.result

end TypedScript
