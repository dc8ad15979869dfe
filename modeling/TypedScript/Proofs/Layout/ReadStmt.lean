import TypedScript.Proofs.Layout.ReadExpr

/-! Statements are read in tandem. Behind a statement nothing has been seen of the end: only
`else` is looked for there, and that is no end. -/

namespace TypedScript.Stmt

open Parse Tandem Reader
open Parse.Mimics (look advance expect demand spanSince reporting refuse failHere reading onCursor
  inScope declaring recovering)

variable {w : Tandem} {X : Stage w}

section definitions

theorem bind_relocate (ρ : Relocation) (Γ : Context) (x : String) (ty : Ty) (p : Position) :
    Γ.bind x ty (ρ.starts p) = (Γ.bind x ty p).mapError (Diagnostic.relocate ρ) := by
  rw [Context.bind, Context.bind]
  by_cases h : (Γ.local? x).isSome
  · rw [if_pos h, if_pos h]
    rfl
  · rw [if_neg h, if_neg h]
    rfl

theorem declare_relocate (ρ : Relocation) (receiver : Option Ty) (name : Token) (ty : Ty)
    (Γ : Context) : declare receiver (name.relocate ρ) ty Γ =
      (declare receiver name ty Γ).mapError (Diagnostic.relocate ρ) := by
  cases receiver with
  | none => exact bind_relocate ρ Γ name.value ty name.span.start
  | some r =>
    rw [declare, declare, Context.bindMember, Context.bindMember, Token.relocate_value]
    by_cases h : Γ.members.contains (r, name.value)
    · rw [if_pos h, if_pos h]
      rfl
    · rw [if_neg h, if_neg h]
      rfl

theorem declareType_relocate (ρ : Relocation) (Γ : Context) (x : String) (p : Position) :
    (Γ.declareType x (ρ.starts p)).map Prod.snd =
      ((Γ.declareType x p).map Prod.snd).mapError (Diagnostic.relocate ρ) := by
  rw [Context.declareType, Context.declareType]
  by_cases h : Γ.types.contains x
  · rw [if_pos h, if_pos h]
    rfl
  · rw [if_neg h, if_neg h]
    rfl

theorem parseDeclared_mimics (what : String) (Γ : Context) :
    Mimics (.loose w) (Stage.loose w).moved (parseDeclared what Γ) (parseDeclared what Γ) := by
  simp only [parseDeclared]
  refine ((demand (by decide) _).after (.moved_mono .firm_loose)).bind fun first => ?_
  refine look (fun _ => rfl) (.moved _) fun k => ?_
  split
  · rename_i hk
    subst hk
    refine (advance.before (.seeing_inside (.moved _) (by decide))).bind fun _ => ?_
    refine (Ty.resolve_mimics Γ first).bind fun receiver => ?_
    refine ((demand (by decide) _).weaken (.moved _) (.moved_mono .firm_loose)).bind
      fun member => ?_
    exact .pure rfl
  · exact (Mimics.pure rfl).before (.seeing_moved _)

theorem parseExprStmt_mimics {n m : Nat} (h : n ≤ m) (Γ : Context) :
    Mimics (.loose w) (Stage.firm w).moved (parseExprStmt n Γ) (parseExprStmt m Γ) := by
  simp only [parseExprStmt]
  refine (((Expr.InTandem.all w h).expr Γ .default).after (.moved _)).bind fun e => ?_
  refine (demand (by decide) _).bind fun _ => ?_
  simp only [Placed.relocate, Expr.span_relocate]
  exact (spanSince _ e.span.start).bind fun span => .pure rfl

theorem parseAscription_mimics {n m : Nat} (h : n ≤ m) (Γ : Context) :
    Mimics (.loose w) (.loose w) (parseAscription n Γ) (parseAscription m Γ) := by
  simp only [parseAscription]
  refine look (fun _ => rfl) (.refl _) fun k => ?_
  split
  · rename_i hk
    subst hk
    refine (advance.before (.seeing_inside (.refl _) (by decide))).bind fun _ => ?_
    exact (((Ty.InTandem.all w h).type Γ).before (.moved _)).bind fun ty => .pure rfl
  · exact (Mimics.pure rfl).before (.seeing (.refl _) _)

theorem parseInitial_mimics {n m : Nat} (h : n ≤ m) (annotated : Bool) (Γ : Context) :
    Mimics (.loose w) (.loose w) (parseInitial n annotated Γ) (parseInitial m annotated Γ) := by
  simp only [parseInitial]
  refine look (fun _ => rfl) (.refl _) fun k => ?_
  split
  · rename_i hk
    subst hk
    refine (advance.before (.seeing_inside (.refl _) (by decide))).bind fun _ => ?_
    exact (((Expr.InTandem.all w h).expr Γ .default).weaken (.moved _) (.moved _)).bind
      fun e => .pure rfl
  · cases annotated with
    | true => exact (Mimics.pure rfl).before (.seeing (.refl _) _)
    | false => exact failHere fun hc => congrArg (Diagnostic.mk _) hc.start

theorem parseDefinition_mimics {n m : Nat} (h : n ≤ m) (Γ : Context) :
    Mimics (.inside w) (Stage.firm w).moved (parseDefinition n Γ) (parseDefinition m Γ) := by
  simp only [parseDefinition]
  refine advance.bind fun keyword => ?_
  refine ((parseDeclared_mimics _ Γ).weaken (.moved _) (.moved _)).bind fun declared => ?_
  refine (parseAscription_mimics h Γ).bind fun annotation => ?_
  rw [Placed.relocate_option (fun _ => rfl) annotation]
  refine (parseInitial_mimics h annotation.isSome Γ).bind fun value => ?_
  refine (demand (by decide) _).bind fun _ => ?_
  refine (spanSince _ keyword.span.start).bind fun span => .pure ?_
  have hreceiver := Placed.relocate_option (ρ := w.places) (fun _ => rfl) declared.1
  cases value with
  | none => exact congrArg (Definition.mk · _ _ _ _) hreceiver
  | some e => exact congrArg (Definition.mk · _ _ _ _) hreceiver

theorem Definition.check_relocate (ρ : Relocation) (d : Definition) :
    (d.relocate ρ).check = (d.check.1, d.check.2.map (Diagnostic.relocate ρ)) := by
  obtain ⟨receiver, name, annotation, value, span⟩ := d
  cases annotation with
  | some ty =>
    by_cases h : value.ty.assignable ty <;>
      simp [Definition.check, Definition.relocate, h, Diagnostic.relocate, Span.relocate]
  | none =>
    by_cases h : value.isNull <;>
      simp [Definition.check, Definition.relocate, h, Diagnostic.relocate, Token.relocate,
        Span.relocate]

theorem report_mimics (hX : X.Free) {d d' : Diagnostic} (h : d' = d.relocate w.places) :
    Mimics X X (report d) (report d') := onCursor (reporting hX h)

theorem reportSome_mimics (hX : X.Free) {d d' : Option Diagnostic}
    (h : d' = d.map (Diagnostic.relocate w.places)) :
    Mimics X X (reportSome d) (reportSome d') := by
  subst h
  cases d with
  | none => exact .pure rfl
  | some d => exact report_mimics hX rfl

theorem parseLet_mimics {n m : Nat} (h : n ≤ m) :
    Mimics (.inside w) (.firm w) (parseLet n) (parseLet m) := by
  simp only [parseLet]
  refine ((reading fun Γ => parseDefinition_mimics h Γ).after (.moved _)).bind fun d => ?_
  simp only [Placed.relocate, Definition.check_relocate]
  refine (reportSome_mimics Stage.firm_free rfl).bind fun _ => ?_
  refine (declaring Stage.firm_free (declare_relocate w.places d.receiver d.name d.check.1)).bind
    fun declared => .pure ?_
  cases d.check.2 <;> cases declared <;> rfl

theorem parseReturned_mimics {n m : Nat} (h : n ≤ m) (keyword : Token) (Γ : Context) :
    Mimics (.loose w) (.loose w) (parseReturned n keyword Γ)
      (parseReturned m (keyword.relocate w.places) Γ) := by
  simp only [parseReturned]
  refine look (fun _ => rfl) (.refl _) fun k => ?_
  split
  · exact (Mimics.pure rfl).before (.seeing (.refl _) _)
  · exact ((Expr.InTandem.all w h).expr Γ .default).weaken (.seeing (.refl _) _) (.moved _)

theorem parseReturn_mimics {n m : Nat} (h : n ≤ m) (Γ : Context) :
    Mimics (.inside w) (.firm w) (parseReturn n Γ) (parseReturn m Γ) := by
  simp only [parseReturn]
  refine advance.bind fun keyword => ?_
  refine ((parseReturned_mimics h keyword Γ).before (.moved _)).bind fun value => ?_
  refine (demand (by decide) _).bind fun _ => ?_
  refine ((spanSince _ keyword.span.start).after (.moved _)).bind fun span => ?_
  simp only [Placed.relocate, Expr.ty_relocate, Expr.span_relocate]
  cases Γ.returning? with
  | none => exact (reporting Stage.firm_free rfl).bind fun _ => .pure rfl
  | some expected =>
    dsimp only
    split
    · exact .pure rfl
    · exact (reporting Stage.firm_free rfl).bind fun _ => .pure rfl

theorem parseParametersAt_mimics {n m : Nat} (h : n ≤ m) (Γ : Context) :
    Mimics (.loose w) (.loose w) (parseParametersAt n Γ) (parseParametersAt m Γ) := by
  induction n generalizing m with
  | zero => simpa only [parseParametersAt] using .exhausted _
  | succ n ih =>
    obtain ⟨m, rfl⟩ : ∃ k, m = k + 1 := ⟨m - 1, by omega⟩
    have hle : n ≤ m := Nat.le_of_succ_le_succ h
    simp only [parseParametersAt]
    refine look (fun _ => rfl) (.refl _) fun k => ?_
    split
    · exact (Mimics.pure rfl).before (.seeing (.refl _) _)
    · refine ((demand (by decide) _).weaken (.seeing (.refl _) _) .firm_moved_loose).bind
        fun name => ?_
      refine ((expect (by decide)).after .firm_moved_loose).bind fun _ => ?_
      refine ((Ty.InTandem.all w hle).type Γ).bind fun ty => ?_
      refine look (fun _ => rfl) (.refl _) fun k => ?_
      split
      · exact (Mimics.pure rfl).before (.seeing (.refl _) _)
      · refine ((demand (by decide) _).weaken (.seeing (.refl _) _) .firm_moved_loose).bind
          fun _ => ?_
        exact (ih hle).bind fun rest => .pure rfl

theorem parseHeading_mimics {n m : Nat} (h : n ≤ m) (Γ : Context) :
    Mimics (.inside w) (.loose w) (parseHeading n Γ) (parseHeading m Γ) := by
  simp only [parseHeading]
  refine (advance.after (.moved _)).bind fun keyword => ?_
  refine ((parseDeclared_mimics _ Γ).after (.moved _)).bind fun declared => ?_
  refine ((expect (by decide)).after .firm_moved_loose).bind fun _ => ?_
  refine (parseParametersAt_mimics h Γ).bind fun parameters => ?_
  refine ((expect (by decide)).after .firm_moved_loose).bind fun _ => ?_
  refine ((Ty.InTandem.all w h).result Γ).bind fun result => .pure ?_
  have hreceiver : Placed.relocate w.places declared.1 = declared.1 :=
    Placed.relocate_option (fun _ => rfl) declared.1
  have hparameters : Placed.relocate w.places parameters = parameters := List.map_id parameters
  rw [hparameters]
  exact congrArg (fun r => (_, _, Heading.mk _ r _ _)) hreceiver

theorem bindHere_mimics (x : String) (ty : Ty) :
    Mimics (.loose w) (.loose w) (fun s => declaring (·.bind x ty s.cursor.place) s)
      (fun s => declaring (·.bind x ty s.cursor.place) s) := by
  have hbind (p : Position) := declaring (Stage.loose_free (w := w)) (g := fun Γ : Context =>
    Γ.bind x ty (w.places.starts p)) fun Γ => bind_relocate w.places Γ x ty p
  refine ⟨fun hs hp => (hbind _).gone hs hp, fun {s t a s'} hs hp => ?_, fun hs hp => ?_⟩
  · obtain hlost | halike := (Stage.like _ hs.1).alike
    · exact .inl ((hbind _).gone hlost hp)
    · have hplace : t.cursor.place = w.places.starts s.cursor.place := halike.start
      rw [hplace]
      exact (hbind _).ok hs hp
  · rw [Reader.declaring] at hp
    split at hp <;> cases hp

theorem bindAll_mimics (xs : List (String × Ty)) :
    Mimics (.loose w) (.loose w) (bindAll xs) (bindAll xs) := by
  induction xs with
  | nil => exact .pure rfl
  | cons x xs ih => exact (bindHere_mimics x.1 x.2).bind fun _ => ih

theorem parseTypeDecl_mimics : Mimics (.inside w) (.firm w) parseTypeDecl parseTypeDecl := by
  simp only [parseTypeDecl]
  refine ((onCursor advance).after (.moved _)).bind fun keyword => ?_
  refine ((onCursor (demand (by decide) _)).after .firm_moved_loose).bind fun name => ?_
  refine (onCursor (demand (by decide) _)).bind fun _ => ?_
  refine (declaring Stage.firm_free fun Γ =>
    declareType_relocate w.places Γ name.value name.span.start).moved.bind fun declared => ?_
  refine ((onCursor (spanSince _ keyword.span.start)).after (.moved _)).bind fun span => .pure ?_
  cases declared <;> rfl

end definitions

theorem cons_mimics {Y Z : Stage w} {p q : Parse Reader (Option Stmt)}
    {ps qs : Parse Reader (List Stmt)} (h : Mimics X Y p q) (hs : Mimics Y Z ps qs) :
    Mimics X Z (do let statement ← p; let rest ← ps; return statement.toList ++ rest)
      (do let statement ← q; let rest ← qs; return statement.toList ++ rest) := by
  refine h.bind fun statement => hs.bind fun rest => .pure ?_
  cases statement <;> rfl

structure InTandem (w : Tandem) (n m : Nat) : Prop where
  statement : Mimics (.loose w) (.firm w) (parseAt n) (parseAt m)
  form : ∀ k, Mimics ((Stage.loose w).seeing k) (.firm w) (parseFormAt n (.ofKind k))
    (parseFormAt m (.ofKind k))
  func : Mimics (.inside w) (.firm w) (parseFuncAt n) (parseFuncAt m)
  body : ∀ heading, Mimics (.loose w) (Stage.firm w).moved (parseBodyAt n heading)
    (parseBodyAt m heading)
  block : Mimics (.loose w) (Stage.firm w).moved (parseBlockAt n) (parseBlockAt m)
  statements : Mimics (.loose w) (.firm w) (parseStatementsAt n) (parseStatementsAt m)
  branch : Mimics (.loose w) (.firm w) (parseBranchAt n) (parseBranchAt m)
  otherwise : Mimics (.firm w) (.firm w) (parseElseAt n) (parseElseAt m)
  cond : Mimics (.inside w) (.firm w) (parseCondAt n) (parseCondAt m)
  loop : Mimics (.inside w) (.firm w) (parseLoopAt n) (parseLoopAt m)

namespace InTandem

variable {n m : Nat}

theorem zero (m : Nat) : InTandem w 0 m where
  statement := by simpa only [parseAt] using .exhausted _
  form _ := by simpa only [parseFormAt] using .exhausted _
  func := by simpa only [parseFuncAt] using .exhausted _
  body _ := by simpa only [parseBodyAt] using .exhausted _
  block := by simpa only [parseBlockAt] using .exhausted _
  statements := by simpa only [parseStatementsAt] using .exhausted _
  branch := by simpa only [parseBranchAt] using .exhausted _
  otherwise := by simpa only [parseElseAt] using .exhausted _
  cond := by simpa only [parseCondAt] using .exhausted _
  loop := by simpa only [parseLoopAt] using .exhausted _

theorem statement_succ (h : InTandem w n m) :
    Mimics (.loose w) (.firm w) (parseAt (n + 1)) (parseAt (m + 1)) := by
  simp only [parseAt]
  exact Mimics.recovering (look (κ := onCursor Cursor.currentKind) (fun _ => rfl) (.refl _) h.form)

theorem form_succ (h : InTandem w n m) (hle : n ≤ m) (k : Token.Kind) :
    Mimics ((Stage.loose w).seeing k) (.firm w) (parseFormAt (n + 1) (.ofKind k))
      (parseFormAt (m + 1) (.ofKind k)) := by
  have hloose := Stage.Within.seeing (.refl (.loose w)) k
  have hinside : Form.ofKind k ≠ .expression → ((Stage.loose w).seeing k).Within (.inside w) :=
    fun hk => .seeing_inside (.refl _) fun he => by simp [he, Form.ofKind] at hk
  simp only [parseFormAt]
  cases hk : Form.ofKind k with
  | expression =>
    exact ((reading fun Γ => parseExprStmt_mimics hle Γ).map (g := some) fun _ => rfl).weaken hloose
      (.moved _)
  | define => exact (parseLet_mimics hle).before (hinside (by simp [hk]))
  | ret => exact (reading fun Γ => parseReturn_mimics hle Γ).before (hinside (by simp [hk]))
  | func => exact h.func.before (hinside (by simp [hk]))
  | block => exact (h.block.map (g := some ∘ Stmt.block) fun _ => rfl).weaken hloose (.moved _)
  | cond => exact h.cond.before (hinside (by simp [hk]))
  | loop => exact h.loop.before (hinside (by simp [hk]))
  | typeDecl => exact parseTypeDecl_mimics.before (hinside (by simp [hk]))

theorem func_succ (h : InTandem w n m) (hle : n ≤ m) :
    Mimics (.inside w) (.firm w) (parseFuncAt (n + 1)) (parseFuncAt (m + 1)) := by
  simp only [parseFuncAt]
  refine (reading fun Γ => parseHeading_mimics hle Γ).bind fun r => ?_
  obtain ⟨keyword, name, heading⟩ := r
  refine (declaring Stage.loose_free
    (declare_relocate w.places heading.receiver name heading.signature.toTy)).bind
      fun declared => ?_
  refine (inScope _ (h.body heading)).bind fun body => ?_
  refine (reportSome_mimics Stage.firm_free ?_).moved.bind fun _ => ?_
  · simp only [Placed.relocate, Block.alwaysReturns_relocate]
    split <;> rfl
  · refine ((onCursor (spanSince _ keyword.span.start)).after (.moved _)).bind fun span => .pure ?_
    cases declared <;> rfl

theorem body_succ (h : InTandem w n m) (heading : Heading) :
    Mimics (.loose w) (Stage.firm w).moved (parseBodyAt (n + 1) heading)
      (parseBodyAt (m + 1) heading) := by
  simp only [parseBodyAt]
  exact (bindAll_mimics heading.bindings).bind fun _ => h.block

theorem block_succ (h : InTandem w n m) :
    Mimics (.loose w) (Stage.firm w).moved (parseBlockAt (n + 1)) (parseBlockAt (m + 1)) := by
  simp only [parseBlockAt]
  refine (onCursor (demand (by decide) _)).bind fun opening => ?_
  refine (inScope Context.enter (h.statements.before .firm_loose)).moved.bind fun statements => ?_
  refine (onCursor (spanSince _ opening.span.start)).bind fun span => .pure ?_
  simp only [Placed.relocate, Block.relocate, relocateAll_eq]

theorem statements_succ (h : InTandem w n m) :
    Mimics (.loose w) (.firm w) (parseStatementsAt (n + 1)) (parseStatementsAt (m + 1)) := by
  simp only [parseStatementsAt]
  refine look (fun _ => rfl) (.refl _) fun k => ?_
  have hloose := Stage.Within.seeing (.refl (.loose w)) k
  cases k with
  | closeCurly =>
    exact ((onCursor (expect (by decide))).weaken hloose (.moved _)).bind fun _ => .pure rfl
  | eof => exact failHere fun hc => congrArg (Diagnostic.mk _) hc.start
  | semicolon =>
    exact ((onCursor advance).weaken (.seeing_inside (.refl _) (by decide)) (.moved _)).bind
      fun _ => h.statements
  | _ => exact cons_mimics (h.statement.before hloose) (h.statements.before .firm_loose)

theorem branch_succ (h : InTandem w n m) :
    Mimics (.loose w) (.firm w) (parseBranchAt (n + 1)) (parseBranchAt (m + 1)) := by
  simp only [parseBranchAt]
  exact inScope Context.enter h.statement

theorem otherwise_succ (h : InTandem w n m) :
    Mimics (.firm w) (.firm w) (parseElseAt (n + 1)) (parseElseAt (m + 1)) := by
  simp only [parseElseAt]
  refine Mimics.lookElse (fun _ => rfl) ?_ (.pure rfl)
  refine ((onCursor advance).weaken (.seeing_inside .firm_loose (by decide)) (.moved _)).bind
    fun _ => ?_
  exact h.branch.bind fun branch => .pure rfl

theorem cond_succ (h : InTandem w n m) (hle : n ≤ m) :
    Mimics (.inside w) (.firm w) (parseCondAt (n + 1)) (parseCondAt (m + 1)) := by
  simp only [parseCondAt]
  refine (onCursor advance).bind fun keyword => ?_
  refine ((reading fun Γ => (Expr.InTandem.all w hle).expr Γ .default).before (.moved _)).bind
    fun condition => ?_
  refine h.branch.moved.bind fun yes => ?_
  refine h.otherwise.moved.bind fun no => ?_
  refine ((onCursor (spanSince _ keyword.span.start)).after (.moved _)).bind fun span => .pure ?_
  rcases yes with _ | yes <;> rcases no with _ | _ | no <;> rfl

theorem loop_succ (h : InTandem w n m) (hle : n ≤ m) :
    Mimics (.inside w) (.firm w) (parseLoopAt (n + 1)) (parseLoopAt (m + 1)) := by
  simp only [parseLoopAt]
  refine (onCursor advance).bind fun keyword => ?_
  refine ((reading fun Γ => (Expr.InTandem.all w hle).expr Γ .default).before (.moved _)).bind
    fun condition => ?_
  refine h.branch.moved.bind fun body => ?_
  refine ((onCursor (spanSince _ keyword.span.start)).after (.moved _)).bind fun span => .pure ?_
  cases body <;> rfl

theorem succ (h : InTandem w n m) (hle : n ≤ m) : InTandem w (n + 1) (m + 1) where
  statement := h.statement_succ
  form := h.form_succ hle
  func := h.func_succ hle
  body := h.body_succ
  block := h.block_succ
  statements := h.statements_succ
  branch := h.branch_succ
  otherwise := h.otherwise_succ
  cond := h.cond_succ hle
  loop := h.loop_succ hle

theorem all (w : Tandem) (h : n ≤ m) : InTandem w n m := by
  induction n generalizing m with
  | zero => exact zero m
  | succ n ih =>
    cases m with
    | zero => cases h
    | succ m =>
      have hle := Nat.le_of_succ_le_succ h
      exact (ih hle).succ hle

end InTandem

end TypedScript.Stmt
