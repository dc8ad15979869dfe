import TypedScript.Proofs.Eval.Reclamation
import TypedScript.Proofs.Eval.Relocate
import TypedScript.Proofs.Layout.Split

namespace TypedScript

open Placed (relocate)

inductive Value.Kind
  | integer
  | float
  | string
  | boolean
  | null
  | void
  | function
  deriving DecidableEq

namespace Value

def kind : Value → Kind
  | .integer _ => .integer
  | .float _ => .float
  | .string _ => .string
  | .boolean _ => .boolean
  | .null => .null
  | .void => .void
  | .function _ | .bound _ _ => .function

@[simp] theorem kind_mapHomes (g : Handle → Handle) (v : Value) : (v.mapHomes g).kind = v.kind := by
  cases v <;> rfl

@[simp] theorem kind_relocate (ρ : Relocation) (v : Value) : (v.relocate ρ).kind = v.kind := by
  cases v <;> rfl

end Value

namespace Tandem

variable {ρ : Relocation} {last last' : Token}

def moved (ρ : Relocation) (hlast : last.kind = .eof) (hbare : last'.bare = last.bare)
    (hstart : last'.span.start = ρ.starts last.span.start) : Tandem where
  places := ρ
  base := []
  last := last
  rest := [last']
  cut := false
  last_eof := hlast
  rest_ne_nil := List.cons_ne_nil _ _
  rest_eq _ := ⟨last', rfl, (congrArg Prod.fst hbare).trans hlast, congrArg Prod.snd hbare, hstart⟩
  rest_ne_else h := by cases h

theorem like_moved (ts : List Token) (hlast : last.kind = .eof) (hbare : last'.bare = last.bare)
    (hstart : last'.span.start = ρ.starts last.span.start) :
    (moved ρ hlast hbare hstart).Like (.ofTokens (ts ++ [last]))
      (.ofTokens (ts.map (Token.relocate ρ) ++ [last'])) := by
  have hlast' : last'.kind = .eof := (congrArg Prod.fst hbare).trans hlast
  obtain ⟨hpassed, hreported⟩ := Cursor.ofTokens_fresh (ts ++ [last])
  obtain ⟨hpassed', hreported'⟩ := Cursor.ofTokens_fresh (ts.map (Token.relocate ρ) ++ [last'])
  refine ⟨⟨ts, ?_, ?_⟩, ?_, ?_, fun h => by cases h⟩
  · rw [Cursor.ofTokens_append hlast, Cursor.upcoming_start]
    rfl
  · rw [Cursor.ofTokens_append hlast', Cursor.upcoming_start]
    rfl
  · rw [hpassed, hpassed']
    rfl
  · rw [hreported, hreported']
    rfl

end Tandem

namespace Program

def moved (ρ : Relocation) (p : Program) : Program :=
  ⟨p.statements.map (Stmt.relocate ρ), p.context⟩

theorem ofTokens_relocate {ρ : Relocation} (ts : List Token) (last last' : Token)
    (hlast : last.kind = .eof) (hbare : last'.bare = last.bare)
    (hstart : last'.span.start = ρ.starts last.span.start) (Γ : Context) :
    ofTokens (ts.map (Token.relocate ρ) ++ [last']) Γ =
      ((ofTokens (ts ++ [last]) Γ).1.moved ρ,
        (ofTokens (ts ++ [last]) Γ).2.map (Diagnostic.relocate ρ)) := by
  obtain ⟨ss, -, s, hs, -, -, hof⟩ := ofTokens_ends (ts ++ [last]) Γ
  generalize Reader.fuel ⟨.ofTokens (ts ++ [last]), Γ⟩ = n at hs
  have hmimics := parseStatementsAt_mimics (Tandem.moved ρ hlast hbare hstart) (Nat.le_refl n)
  obtain hlost | ⟨t, ht, hl, -⟩ := hmimics.ok (s := ⟨.ofTokens (ts ++ [last]), Γ⟩)
    (t := ⟨.ofTokens (ts.map (Token.relocate ρ) ++ [last']), Γ⟩)
    ⟨Tandem.like_moved ts hlast hbare hstart, rfl⟩ hs
  · cases hlost.1
  · rw [ofTokens_of_run ht, hof]
    exact congrArg₂ (fun Γ ds => ((⟨_, Γ⟩ : Program), ds)) hl.2 hl.1.reported

/-- What can be seen of how a run ends. A fault has its name, its message and its tip. -/
inductive Shown
  | diagnosed (faults : List Fault)
  | failed (error : EvalError)
  | outOfFuel
  | value (kind : Value.Kind) (text : String) (ty : Ty)

def shown : Except NoAnswer Answer → Shown
  | .error (.diagnosed ds) => .diagnosed (ds.map Diagnostic.fault)
  | .error (.failed e) => .failed e
  | .error .outOfFuel => .outOfFuel
  | .ok a => .value a.value.kind a.text a.value.ty

namespace Shown

def ofOutcome : Except Exit Value × Store → Shown
  | (.ok v, σ) | (.error (.returned v), σ) => .value v.kind (v.text σ.cells) v.ty
  | (.error (.failed e), _) => .failed e
  | (.error .outOfFuel, _) => .outOfFuel

theorem shown_start (n : Nat) (p : Program) :
    shown (start n p) = ofOutcome (evaluateFrom .standard n .none .void p.statements .initial) := by
  rw [start, evaluate]
  rcases evaluateFrom .standard n .none .void p.statements .initial with ⟨(_ | _ | _) | _, _⟩ <;>
    rfl

theorem ofOutcome_eq {x y : Except Exit Value × Store} (h : SameOutcome x y) :
    ofOutcome x = ofOutcome y := by
  obtain ⟨ρ, -, h⟩ := h
  rcases x with ⟨(v | e | _) | v, σ⟩ <;> rcases y with ⟨(w | e' | _) | w, τ⟩
  case ok.ok =>
    obtain ⟨rfl, htext, hty, -⟩ := h
    have hkind : (v.rename ρ).kind = v.kind := Value.kind_mapHomes _ v
    simp only [ofOutcome, htext, hty, hkind]
  case error.failed.error.failed => rw [ofOutcome, ofOutcome, h]
  case error.outOfFuel.error.outOfFuel => rfl
  all_goals exact h.elim

theorem ofOutcome_relocate (ρ : Relocation) (x : Except Exit Value × Store) :
    ofOutcome (relocate ρ x) = ofOutcome x := by
  have hv (v : Value) (σ : Store) : Shown.value (v.relocate ρ).kind
      ((v.relocate ρ).text (σ.relocate ρ).cells) (v.relocate ρ).ty =
        .value v.kind (v.text σ.cells) v.ty := by
    rw [Value.kind_relocate, Store.cells_relocate, Value.text_relocate, Value.ty_relocate]
  rcases x with ⟨(v | e | _) | v, σ⟩
  · exact hv v σ
  · rfl
  · rfl
  · exact hv v σ

end Shown

/-- A program shows the same at other places. Both runs are compared with those that give nothing
back, which can be compared step by step. -/
theorem shown_start_moved {ρ : Relocation} (hρ : ρ.Faithful) (n : Nat) (p : Program) :
    shown (start n (p.moved ρ)) = shown (start n p) := by
  have hmoves : evaluateFrom .never n .none .void (p.moved ρ).statements .initial =
      relocate ρ (evaluateFrom .never n .none .void p.statements .initial) := by
    have h := Eval.evaluateFrom_moves hρ n .none .none .void p.statements .initial
    rwa [Store.relocate_initial] at h
  calc shown (start n (p.moved ρ))
    _ = Shown.ofOutcome (evaluateFrom .never n .none .void (p.moved ρ).statements .initial) := by
      rw [Shown.shown_start, Shown.ofOutcome_eq (sameOutcome Reclaimer.standard_sound n _)]
    _ = Shown.ofOutcome (evaluateFrom .never n .none .void p.statements .initial) := by
      rw [hmoves]
      exact Shown.ofOutcome_relocate ρ _
    _ = shown (start n p) := by
      rw [Shown.shown_start, Shown.ofOutcome_eq (sameOutcome Reclaimer.standard_sound n _)]

/-- Two texts with the same tokens show the same at every depth of evaluation. -/
theorem layout_unobservable {a b : String} {file file' : Option String} {ts us : List Token}
    (ha : Source.byteLength a.toList < Source.offsetBound)
    (hb : Source.byteLength b.toList < Source.offsetBound)
    (hts : Token.scan a file = .ok ts) (hus : Token.scan b file' = .ok us)
    (h : ts.map Token.bare = us.map Token.bare) (n : Nat) :
    shown (run n a file) = shown (run n b file') := by
  obtain ⟨vs, stop, rfl, hvs⟩ := Token.scan_laid ha hts
  obtain ⟨ws, stop', rfl, hws⟩ := Token.scan_laid hb hus
  rw [List.map_append, List.map_append] at h
  obtain ⟨ρ, hρ, rfl, hend⟩ := Token.exists_faithful hvs hws (List.append_inj_left' h rfl)
  have hread := ofTokens_relocate vs (Token.endAt ⟨stop, _⟩) (Token.endAt ⟨stop', _⟩) rfl rfl
    hend.symm .initial
  rw [run, run, parse, parse, hts, hus]
  dsimp only
  rw [hread]
  rcases ofTokens (vs ++ _) .initial with ⟨p, _ | ⟨d, ds⟩⟩
  · exact (shown_start_moved hρ n p).symm
  · simp only [shown, List.map_cons, List.map_map]
    rfl

def oneLine : String := "func f() -> void \x7b\x7d f == f;"

def threeLines : String := "func f()->void \x7b // nothing\n\x7d\nf==f;"

theorem layout_unobservable_of_comment : ∃ ts us, Token.scan oneLine none = .ok ts ∧
    Token.scan threeLines (some "f.txt") = .ok us ∧ ts.map Token.bare = us.map Token.bare ∧
      ∀ n, shown (run n oneLine none) = shown (run n threeLines (some "f.txt")) := by
  have hok : (Token.scan oneLine none).isOk := by decide +kernel
  have hbare : (Token.scan oneLine none).map (List.map Token.bare) =
      (Token.scan threeLines (some "f.txt")).map (List.map Token.bare) := by decide +kernel
  cases hts : Token.scan oneLine none with
  | error d =>
    rw [hts] at hok
    cases hok
  | ok ts =>
    cases hus : Token.scan threeLines (some "f.txt") with
    | error d =>
      rw [hts, hus] at hbare
      cases hbare
    | ok us =>
      rw [hts, hus] at hbare
      have h := Except.ok.inj hbare
      exact ⟨ts, us, rfl, rfl, h, layout_unobservable (by decide) (by decide) hts hus h⟩

end Program

end TypedScript
