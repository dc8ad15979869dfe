import Mathlib.Data.Int.ModEq
import TypedScript.Eval.Walk
import TypedScript.Proofs.Store.Assignment
import TypedScript.Proofs.Value.Cells

/-! Arithmetic on whole numbers is exact but for multiples of `2 ^ 64`. Words wrap around at every
operator; what comes out is the number that unbounded arithmetic gives, wrapped around once. -/

namespace TypedScript

def BinaryOp.exactly? : BinaryOp → Option (Int → Int → Int)
  | .plus => some (· + ·)
  | .minus => some (· - ·)
  | .multiply => some (· * ·)
  | _ => none

def Store.word? (σ : Store) (scope : Slot) (name : String) : Option Int64 :=
  match σ.lookup? scope name with
  | some (.integer cell) => σ.cells.integers[cell]?
  | _ => none

namespace Expr

/-- The number that a tree of literals, names, `+`, `-`, `*` and unary minus stands for, without
bound. There is none for other expressions, nor if a name stands for no whole number. -/
def amount? (word? : String → Option Int64) : Expr → Option Int
  | name _ x => (word? x).map Int64.toInt
  | literal _ (.integer i) => some i.toInt
  | unary _ .negate e => (e.amount? word?).map (-·)
  | binary _ op l r => do
    let f ← op.exactly?
    let a ← l.amount? word?
    let b ← r.amount? word?
    return f a b
  | _ => none

def height : Expr → Nat
  | unary _ _ e => e.height + 1
  | binary _ _ l r => max l.height r.height + 1
  | _ => 0

end Expr

structure WrapsTo (m : Int) (i : Int64) : Prop where
  lower : -2 ^ 63 ≤ i.toInt
  upper : i.toInt < 2 ^ 63
  modEq : i.toInt ≡ m [ZMOD 2 ^ 64]

theorem WrapsTo.toInt_eq {m k : Int} {i : Int64} (h : WrapsTo m i) (hk : m ≡ k [ZMOD 2 ^ 64])
    (hlower : -2 ^ 63 ≤ k) (hupper : k < 2 ^ 63) : i.toInt = k := by
  have hmod : i.toInt % 2 ^ 64 = k % 2 ^ 64 := h.modEq.trans hk
  have := h.lower
  have := h.upper
  omega

theorem wrapsTo_of_toInt_eq {m : Int} {i : Int64} (h : i.toInt = m.bmod (2 ^ 64)) :
    WrapsTo m i where
  lower := i.le_toInt
  upper := i.toInt_lt
  modEq := by
    rw [h]
    exact Int.bmod_emod

theorem wrapsTo_ofInt (m : Int) : WrapsTo m (.ofInt m) := wrapsTo_of_toInt_eq Int64.toInt_ofInt

/-- The one quotient that is no word, of the least one by `-1`, wraps around like the rest. -/
theorem wrapsTo_div (i j : Int64) : WrapsTo (i.toInt.tdiv j.toInt) (i / j) :=
  wrapsTo_of_toInt_eq (Int64.toInt_div i j)

theorem Scalar.ofIntegers_exactly {op : BinaryOp} {f : Int → Int → Int}
    (h : op.exactly? = some f) (a b : Int) :
    ofIntegers op (.ofInt a) (.ofInt b) = .ok (some (.integer (.ofInt (f a b)))) := by
  cases op with
  | plus =>
    cases h
    rw [Int64.ofInt_add]
    rfl
  | minus =>
    cases h
    rw [Int64.ofInt_sub]
    rfl
  | multiply =>
    cases h
    rw [Int64.ofInt_mul]
    rfl
  | _ => cases h

theorem BinaryOp.of_ofIntegers {op : BinaryOp} {i j : Int64} {r : Except EvalError Scalar}
    (h : Scalar.ofIntegers op i j = r.map some) :
    op.isLogical = false ∧ op ≠ .equals ∧ op ≠ .notEquals := by
  cases op with
  | equals | notEquals | and | or => cases r <;> cases h
  | _ => exact ⟨rfl, nofun, nofun⟩

@[simp] theorem Ref.read_eq_integer {cells : Cells} {cell : Nat} {i : Int64} :
    Ref.read cells (.integer cell) = some (.integer i) ↔ cells.integers[cell]? = some i := by
  simp [Ref.read]

theorem Cells.integer_of_getElem? {cells : Cells} {cell : Nat} {i : Int64}
    (h : cells.integers[cell]? = some i) : cells.integer cell = i := by
  rw [Cells.integer, Array.getD_eq_getD_getElem?, h, Option.getD_some]

theorem Value.binary_integers {cells : Cells} {op : BinaryOp} {a b : Nat} {i j : Int64}
    {r : Except EvalError Scalar} (hr : Scalar.ofIntegers op i j = r.map some)
    (ha : cells.integers[a]? = some i) (hb : cells.integers[b]? = some j) :
    Value.binary cells op (.integer a) (.integer b) = r := by
  obtain ⟨-, hne, hne'⟩ := BinaryOp.of_ofIntegers hr
  rw [Value.binary, if_neg hne, if_neg hne', if_neg (by simp [Value.isString]), Value.arithmetic,
    Cells.integer_of_getElem? ha, Cells.integer_of_getElem? hb, hr]
  cases r <;> rfl

namespace Eval

variable {reclaimer : Reclaimer} {fuel : Nat} {roots : Roots} {scope : Slot} {σ : Store}
  {e d : Expr} {i j : Int64} {m : Int}

def Gives (reclaimer : Reclaimer) (fuel : Nat) (roots : Roots) (scope : Slot) (σ : Store)
    (e : Expr) (i : Int64) : Prop :=
  ∃ cell cells, expr reclaimer fuel roots scope e σ = (.ok (.integer cell), { σ with cells }) ∧
    cells.integers[cell]? = some i ∧ σ.cells.Keeps cells

theorem ofScalar_integer (σ : Store) (i : Int64) : ∃ cell cells,
    ofScalar (.ok (.integer i)) σ = (.ok (.integer cell), { σ with cells }) ∧
      cells.integers[cell]? = some i ∧ σ.cells.Keeps cells := by
  refine ⟨_, _, rfl, ?_, σ.cells.keeps_alloc (.integer i)⟩
  exact Ref.read_eq_integer.1 (σ.cells.read_alloc (.integer i) (List.mem_singleton_self _)).2

theorem gives_of_ofScalar {cells : Cells} (hkeeps : σ.cells.Keeps cells)
    (h : expr reclaimer fuel roots scope e σ = ofScalar (.ok (.integer i)) { σ with cells }) :
    Gives reclaimer fuel roots scope σ e i := by
  obtain ⟨cell, cells', hval, hcell, hkeeps'⟩ := ofScalar_integer { σ with cells } i
  exact ⟨cell, cells', h.trans hval, hcell, hkeeps.trans hkeeps'⟩

theorem expr_binary_of_gives {op : BinaryOp} {r : Except EvalError Scalar}
    (hr : Scalar.ofIntegers op i j = r.map some) (hd : Gives reclaimer fuel roots scope σ d i)
    (he : ∀ roots cells, σ.cells.Keeps cells →
      Gives reclaimer fuel roots scope { σ with cells } e j) (ann : Ann) :
    ∃ cells, σ.cells.Keeps cells ∧
      expr reclaimer (fuel + 1) roots scope (.binary ann op d e) σ =
        ofScalar r { σ with cells } := by
  obtain ⟨a, cells, hval, ha, hkeeps⟩ := hd
  obtain ⟨b, cells', hval', hb, hkeeps'⟩ := he (roots.hold (.integer a)) cells hkeeps
  have ha' := Ref.read_eq_integer.1 (hkeeps' (Ref.read_eq_integer.2 ha))
  refine ⟨cells', hkeeps.trans hkeeps', ?_⟩
  rw [expr, if_neg (by simp [(BinaryOp.of_ofIntegers hr).1]), bind_apply, hval]
  dsimp only
  rw [bind_apply, hval']
  dsimp only
  rw [binary, bind_apply, gets_apply, Value.binary_integers hr ha' hb]

theorem lookup?_withCells (σ : Store) (cells : Cells) (id : Slot) (name : String) :
    ({ σ with cells } : Store).lookup? id name = σ.lookup? id name := by
  have hsame : σ.SameOutline { σ with cells } := fun _ => rfl
  rw [Store.lookup?, Store.lookup?, hsame.binder?_eq rfl]
  rfl

theorem gives_of_amount? (reclaimer : Reclaimer) (roots : Roots)
    (h : e.amount? (σ.word? scope) = some m) {cells : Cells} (hkeeps : σ.cells.Keeps cells)
    (hfuel : e.height < fuel) :
    Gives reclaimer fuel roots scope { σ with cells } e (.ofInt m) := by
  induction fuel generalizing e m cells roots with
  | zero => cases hfuel
  | succ fuel ih =>
    -- The cases are those in which there is an exact number.
    unfold Expr.amount? at h
    split at h
    · rename_i x
      obtain ⟨i, hi, rfl⟩ := Option.map_eq_some_iff.1 h
      rw [Store.word?] at hi
      split at hi
      · rename_i cell hcell
        refine ⟨cell, cells, ?_, ?_, .refl _⟩
        · rw [expr, lookup, bind_apply, gets_apply, lookup?_withCells, hcell]
          rfl
        · rw [Int64.ofInt_toInt]
          exact Ref.read_eq_integer.1 (hkeeps (Ref.read_eq_integer.2 hi))
      · cases hi
    · cases h
      rw [Int64.ofInt_toInt]
      exact gives_of_ofScalar (.refl _) rfl
    · rename_i ann e
      obtain ⟨k, hk, rfl⟩ := Option.map_eq_some_iff.1 h
      obtain ⟨a, cells', hval, ha, hkeeps'⟩ := ih roots hk hkeeps (Nat.lt_of_succ_lt_succ hfuel)
      refine gives_of_ofScalar hkeeps' ?_
      rw [expr, bind_apply, hval]
      dsimp only
      rw [unary, bind_apply, gets_apply, Value.unary, Cells.integer_of_getElem? ha,
        Int64.ofInt_neg]
    · rename_i ann op l r
      obtain ⟨f, hf, h⟩ := Option.bind_eq_some_iff.1 h
      obtain ⟨a, hl, h⟩ := Option.bind_eq_some_iff.1 h
      obtain ⟨b, hr, h⟩ := Option.bind_eq_some_iff.1 h
      cases h
      obtain ⟨hfuel, hfuel'⟩ := Nat.max_lt.1 (Nat.lt_of_succ_lt_succ hfuel)
      obtain ⟨cells', hkeeps', hval⟩ := expr_binary_of_gives
        (r := .ok (.integer (.ofInt (f a b)))) (Scalar.ofIntegers_exactly hf a b)
        (ih roots hl hkeeps hfuel)
        (fun roots _ hkeeps' => ih roots hr (hkeeps.trans hkeeps') hfuel') ann
      exact gives_of_ofScalar hkeeps' hval
    · cases h

/-- Evaluation gives a word to every tree of whole numbers, and the word is the exact number but
for a multiple of `2 ^ 64`. A division of two trees fails for its divisor exactly if the divisor
is given zero; else it gives the quotient rounded towards zero, again but for a multiple of
`2 ^ 64`. -/
theorem expr_exact_modulo (reclaimer : Reclaimer) (scope : Slot) (σ : Store) :
    (∀ e m, e.amount? (σ.word? scope) = some m → ∀ roots fuel, e.height < fuel →
      ∃ i, Gives reclaimer fuel roots scope σ e i ∧ WrapsTo m i) ∧
    ∀ d e m k, d.amount? (σ.word? scope) = some m → e.amount? (σ.word? scope) = some k →
      ∀ ann roots fuel, (Expr.binary ann .divide d e).height < fuel →
        ∃ i j, Gives reclaimer fuel roots scope σ d i ∧ WrapsTo m i ∧
          Gives reclaimer fuel roots scope σ e j ∧ WrapsTo k j ∧
          ((∃ τ, expr reclaimer fuel roots scope (.binary ann .divide d e) σ =
            (.error (.failed .divisionByZero), τ)) ↔ j = 0) ∧
          (j ≠ 0 → ∃ q, Gives reclaimer fuel roots scope σ (.binary ann .divide d e) q ∧
            WrapsTo (i.toInt.tdiv j.toInt) q) := by
  refine ⟨fun e m h roots fuel hfuel =>
    ⟨_, gives_of_amount? reclaimer roots h (.refl _) hfuel, wrapsTo_ofInt m⟩, ?_⟩
  intro d e m k hd he ann roots fuel hfuel
  cases fuel with
  | zero => cases hfuel
  | succ fuel =>
    obtain ⟨hfuel, hfuel'⟩ := Nat.max_lt.1 (Nat.lt_of_succ_lt_succ hfuel)
    refine ⟨.ofInt m, .ofInt k,
      gives_of_amount? reclaimer roots hd (.refl _) (Nat.lt_succ_of_lt hfuel), wrapsTo_ofInt m,
      gives_of_amount? reclaimer roots he (.refl _) (Nat.lt_succ_of_lt hfuel'), wrapsTo_ofInt k,
      ?_⟩
    have hd' := gives_of_amount? reclaimer roots hd (.refl _) hfuel
    have he' roots cells (hkeeps : σ.cells.Keeps cells) :=
      gives_of_amount? reclaimer roots he hkeeps hfuel'
    by_cases hk : Int64.ofInt k = 0
    · have hzero : Scalar.ofIntegers .divide (.ofInt m) (.ofInt k) =
          Except.map some (.error .divisionByZero) := if_pos hk
      obtain ⟨cells, -, hval⟩ := expr_binary_of_gives hzero hd' he' ann
      exact ⟨iff_of_true ⟨_, hval⟩ hk, fun hne => absurd hk hne⟩
    · have hquotient : Scalar.ofIntegers .divide (.ofInt m) (.ofInt k) =
          Except.map some (.ok (.integer (.ofInt m / .ofInt k))) := if_neg hk
      obtain ⟨cells, hkeeps, hval⟩ := expr_binary_of_gives hquotient hd' he' ann
      have hgives := gives_of_ofScalar hkeeps hval
      refine ⟨iff_of_false ?_ hk, fun _ => ⟨_, hgives, wrapsTo_div _ _⟩⟩
      rintro ⟨τ, hτ⟩
      obtain ⟨_, _, hval', -⟩ := hgives
      rw [hval'] at hτ
      cases hτ

def least : Store :=
  { Store.initial with cells := ⟨#[.minValue], #[]⟩ }.bind Store.global "x" (.integer 0)

theorem expr_exact_modulo_of_least : ∃ (x divisor : Expr) (ann : Ann) (q : Int64),
    x.amount? (least.word? Store.global) = some (-2 ^ 63) ∧
      divisor.amount? (least.word? Store.global) = some (-1) ∧
      Gives .standard 3 .none Store.global least (.binary ann .divide x divisor) q ∧
      q.toInt = -2 ^ 63 := by
  let ann : Ann := ⟨.int, default⟩
  have hx : (Expr.name ann "x").amount? (least.word? Store.global) = some (-2 ^ 63) := rfl
  have hdivisor : (Expr.unary ann .negate (.literal ann (.integer 1))).amount?
      (least.word? Store.global) = some (-1) := rfl
  obtain ⟨i, j, -, hi, -, hj, -, hq⟩ :=
    (expr_exact_modulo .standard Store.global least).2 _ _ _ _ hx hdivisor ann .none 3 (by decide)
  have hi' : i.toInt = -2 ^ 63 := hi.toInt_eq rfl (by decide) (by decide)
  have hj' : j.toInt = -1 := hj.toInt_eq rfl (by decide) (by decide)
  obtain ⟨q, hgives, hwraps⟩ := hq fun hzero => by rw [hzero] at hj'; cases hj'
  rw [hi', hj'] at hwraps
  exact ⟨_, _, ann, q, hx, hdivisor, hgives, hwraps.toInt_eq rfl (by decide) (by decide)⟩

end Eval

end TypedScript
