import TypedScript.Proofs.Layout.Tandem
import TypedScript.Proofs.Static.ReadStmt

namespace TypedScript

open Placed (relocate)

class Located (σ : Type) where
  cursor : σ → Cursor
  Agree : σ → σ → Prop

instance : Located Cursor := ⟨id, fun _ _ => True⟩

instance : Located Reader := ⟨Reader.cursor, fun r r' => r'.context = r.context⟩

open Located (cursor Agree)

namespace Tandem

variable {w : Tandem} {σ α β : Type} [Located σ] [Placed α] [Placed β]

def Stage.Linked (X : Stage w) (s t : σ) : Prop := X.link (cursor s) (cursor t) ∧ Agree s t

end Tandem

open Tandem (Stage)

/-- What `q` reads in the second reading is what `p` reads in the first, at its own places. -/
structure Parse.Mimics {w : Tandem} {σ α : Type} [Located σ] [Placed α] (X Y : Stage w)
    (p q : Parse σ α) : Prop where
  gone : ∀ {s a s'}, X.gone (cursor s) → p s = .ok a s' → Y.gone (cursor s')
  ok : ∀ {s t a s'}, X.Linked s t → p s = .ok a s' → Y.gone (cursor s') ∨
    ∃ t', q t = .ok (relocate w.places a) t' ∧ Y.Linked s' t' ∧
      (cursor s).index ≤ (cursor s').index
  error : ∀ {s t d s'}, X.Linked s t → p s = .error d s' → w.cut = true ∨
    ∃ t', q t = .error (d.relocate w.places) t' ∧ (Stage.firm w).Linked s' t' ∧
      (cursor s).index ≤ (cursor s').index

namespace Parse.Mimics

variable {w : Tandem} {σ α β : Type} [Located σ] [Placed α] [Placed β] {X Y Z : Stage w}
  {p q : Parse σ α} {f g : α → Parse σ β}

theorem weaken {X' Y' : Stage w} (h : Mimics X Y p q) (hX : X'.Within X) (hY : Y.Within Y') :
    Mimics X' Y' p q where
  gone hs hp := hY.gone (h.gone (hX.gone hs) hp)
  ok hs hp := by
    obtain hgone | ⟨t', hq, hl, hi⟩ := h.ok ⟨hX.link hs.1, hs.2⟩ hp
    · exact .inl (hY.gone hgone)
    · exact .inr ⟨t', hq, ⟨hY.link hl.1, hl.2⟩, hi⟩
  error hs hp := h.error ⟨hX.link hs.1, hs.2⟩ hp

theorem before {X' : Stage w} (h : Mimics X Y p q) (hX : X'.Within X) : Mimics X' Y p q :=
  h.weaken hX (.refl Y)

theorem after {Y' : Stage w} (h : Mimics X Y p q) (hY : Y.Within Y') : Mimics X Y' p q :=
  h.weaken (.refl X) hY

theorem moved (h : Mimics X Y p q) : Mimics X.moved Y.moved p q where
  gone := h.gone
  ok {s t a s'} hs hp := by
    obtain hgone | ⟨t', hq, hl, hi⟩ := h.ok ⟨hs.1.1, hs.2⟩ hp
    · exact .inl hgone
    · refine .inr ⟨t', hq, ⟨⟨hl.1, fun he => hs.1.2 ?_⟩, hl.2⟩, hi⟩
      simpa [Cursor.index, he] using hi
  error hs hp := h.error ⟨hs.1.1, hs.2⟩ hp

theorem pure {a b : α} (h : b = relocate w.places a) :
    Mimics X X (Pure.pure a : Parse σ α) (Pure.pure b) where
  gone hs hp := by
    cases hp
    exact hs
  ok hs hp := by
    cases hp
    exact .inr ⟨_, by rw [h]; rfl, hs, Nat.le_refl _⟩
  error _ hp := by cases hp

theorem fail {d d' : Diagnostic} (h : d' = d.relocate w.places) :
    Mimics X Y (Parse.fail d : Parse σ α) (Parse.fail d') where
  gone _ hp := by cases hp
  ok _ hp := by cases hp
  error hs hp := by
    cases hp
    exact .inr ⟨_, by rw [h]; rfl, ⟨X.like hs.1, hs.2⟩, Nat.le_refl _⟩

theorem exhausted (q : Parse σ α) : Mimics X Y Parse.exhausted q where
  gone _ hp := by cases hp
  ok _ hp := by cases hp
  error _ hp := by cases hp

theorem bind (h : Mimics X Y p q) (hf : ∀ a, Mimics Y Z (f a) (g (relocate w.places a))) :
    Mimics X Z (p >>= f) (q >>= g) where
  gone {s b u} hs hp := by
    obtain ⟨a, s', ha, hb⟩ := bind_eq_ok.1 hp
    exact (hf a).gone (h.gone hs ha) hb
  ok {s t b u} hs hp := by
    obtain ⟨a, s', ha, hb⟩ := bind_eq_ok.1 hp
    obtain hgone | ⟨t', hq, hl, hi⟩ := h.ok hs ha
    · exact .inl ((hf a).gone hgone hb)
    · obtain hgone | ⟨t'', hg, hl', hi'⟩ := (hf a).ok hl hb
      · exact .inl hgone
      · exact .inr ⟨t'', bind_eq_ok.2 ⟨_, t', hq, hg⟩, hl', Nat.le_trans hi hi'⟩
  error {s t d u} hs hp := by
    rw [bind_apply] at hp
    cases ha : p s with
    | ok a s' =>
      rw [ha] at hp
      obtain hgone | ⟨t', hq, hl, hi⟩ := h.ok hs ha
      · exact .inl (Y.cut hgone)
      · obtain hcut | ⟨t'', hg, hl', hi'⟩ := (hf a).error hl hp
        · exact .inl hcut
        · exact .inr ⟨t'', by rw [bind_apply, hq]; exact hg, hl', Nat.le_trans hi hi'⟩
    | error d' s' =>
      rw [ha] at hp
      cases hp
      obtain hcut | ⟨t', hq, hl⟩ := h.error hs ha
      · exact .inl hcut
      · exact .inr ⟨t', by rw [bind_apply, hq], hl⟩
    | exhausted =>
      rw [ha] at hp
      cases hp

theorem look {κ : Parse σ Token.Kind} (hκ : ∀ s, κ s = .ok (cursor s).kind s)
    (hX : X.Within (.loose w)) {f g : Token.Kind → Parse σ α}
    (h : ∀ k, Mimics (X.seeing k) Y (f k) (g k)) : Mimics X Y (κ >>= f) (κ >>= g) where
  gone {s a s'} hs hp := by
    rw [bind_apply, hκ] at hp
    exact (h _).gone (hX.gone hs) hp
  ok {s t a s'} hs hp := by
    rw [bind_apply, hκ] at hp
    obtain hlost | halike := (X.like hs.1).alike
    · exact .inl ((h _).gone hlost hp)
    · have hk : (cursor t).kind = (cursor s).kind := halike.kind
      rw [bind_apply, hκ, hk]
      exact (h (cursor s).kind).ok ⟨⟨hs.1, rfl⟩, hs.2⟩ hp
  error {s t d s'} hs hp := by
    rw [bind_apply, hκ] at hp
    obtain hlost | halike := (X.like hs.1).alike
    · exact .inl hlost.1
    · have hk : (cursor t).kind = (cursor s).kind := halike.kind
      rw [bind_apply, hκ, hk]
      exact (h (cursor s).kind).error ⟨⟨hs.1, rfl⟩, hs.2⟩ hp

theorem failHere {f : σ → Diagnostic} (hf : ∀ {s t : σ},
    w.Alike (cursor s).current (cursor t).current → f t = (f s).relocate w.places) :
    Mimics X Y (fun s => .error (f s) s : Parse σ α) (fun s => .error (f s) s) where
  gone _ hp := by cases hp
  ok _ hp := by cases hp
  error {s t d s'} hs hp := by
    cases hp
    obtain hlost | halike := (X.like hs.1).alike
    · exact .inl hlost.1
    · exact .inr ⟨t, by rw [hf halike], ⟨X.like hs.1, hs.2⟩, Nat.le_refl _⟩

theorem lookElse {κ : Parse σ Token.Kind} (hκ : ∀ s, κ s = .ok (cursor s).kind s)
    {p q p' q' : Parse σ α} (h : Mimics ((Stage.firm w).seeing .kwElse) (.firm w) p q)
    (h' : Mimics (.firm w) (.firm w) p' q') :
    Mimics (.firm w) (.firm w) (κ >>= fun k => if k = .kwElse then p else p')
      (κ >>= fun k => if k = .kwElse then q else q') where
  gone {s a s'} hs hp := by
    rw [bind_apply, hκ] at hp
    dsimp only at hp
    split at hp
    · exact h.gone hs.lost hp
    · exact h'.gone hs hp
  ok {s t a s'} hs hp := by
    have helse := hs.1.else_iff
    rw [bind_apply, hκ] at hp ⊢
    dsimp only at hp ⊢
    split at hp
    · rename_i hk
      rw [if_pos (helse.2 hk)]
      exact h.ok ⟨⟨hs.1, hk⟩, hs.2⟩ hp
    · rename_i hk
      rw [if_neg fun he => hk (helse.1 he)]
      exact h'.ok hs hp
  error {s t d s'} hs hp := by
    have helse := hs.1.else_iff
    rw [bind_apply, hκ] at hp ⊢
    dsimp only at hp ⊢
    split at hp
    · rename_i hk
      rw [if_pos (helse.2 hk)]
      exact h.error ⟨⟨hs.1, hk⟩, hs.2⟩ hp
    · rename_i hk
      rw [if_neg fun he => hk (helse.1 he)]
      exact h'.error hs hp

theorem map {g : α → β} {g' : α → β} (h : Mimics X Y p q)
    (hg : ∀ a, g' (relocate w.places a) = relocate w.places (g a)) :
    Mimics X Y (g <$> p) (g' <$> q) :=
  h.bind (f := fun a => Pure.pure (g a)) (g := fun a => Pure.pure (g' a)) fun a => .pure (hg a)

end Parse.Mimics

namespace Parse.Mimics

open Cursor

variable {w : Tandem} {α : Type} [Placed α] {X Y : Stage w}

theorem of_cursor {p q : Parse Cursor α} (gone : ∀ {s a s'}, X.gone s → p s = .ok a s' → Y.gone s')
    (ok : ∀ {s t a s'}, X.link s t → p s = .ok a s' → Y.gone s' ∨
      ∃ t', q t = .ok (relocate w.places a) t' ∧ Y.link s' t' ∧ s.index ≤ s'.index)
    (error : ∀ {s t d s'}, X.link s t → p s = .error d s' → w.cut = true ∨
      ∃ t', q t = .error (d.relocate w.places) t' ∧ w.Like s' t' ∧ s.index ≤ s'.index) :
    Mimics X Y p q where
  gone := gone
  ok hs hp := (ok hs.1 hp).imp_right fun ⟨t', hq, hl, hi⟩ => ⟨t', hq, ⟨hl, trivial⟩, hi⟩
  error hs hp := (error hs.1 hp).imp_right fun ⟨t', hq, hl, hi⟩ => ⟨t', hq, ⟨hl, trivial⟩, hi⟩

theorem misplaced_relocate {s t : Cursor} (h : w.Alike s.current t.current) (message : String) :
    t.misplaced message = (s.misplaced message).relocate w.places := by
  simp only [misplaced, place, Diagnostic.relocate, h.text, h.start]

theorem refuse (message : String) :
    Mimics X Y (Cursor.refuse message : Parse Cursor α) (Cursor.refuse message) :=
  failHere fun h => misplaced_relocate h message

theorem advance : Mimics (.inside w) (Stage.loose w).moved Cursor.advance Cursor.advance := by
  refine of_cursor (fun hs hp => ?_) (fun {s t a s'} hs hp => ?_) nofun
  · cases hp
    exact hs.next
  · cases hp
    obtain ⟨hc, hl, hpassed⟩ := hs.1.next hs.2
    exact .inr ⟨t.next, congrArg (Reply.ok · t.next) hc, ⟨hl, by simp [hpassed]⟩,
      by simp [Cursor.index, hpassed]⟩

theorem expectOr {kind : Token.Kind} (hk : kind ≠ .eof) {f : Cursor → Diagnostic}
    (hf : ∀ {s t : Cursor}, w.Alike s.current t.current → f t = (f s).relocate w.places) :
    Mimics (.loose w) (Stage.firm w).moved (fun s => Cursor.expectOr kind (f s) s)
      (fun s => Cursor.expectOr kind (f s) s) := by
  refine of_cursor (fun {s a s'} hs hp => ?_) (fun {s t a s'} hs hp => ?_)
    fun {s t d s'} hs hp => ?_
  · rw [Cursor.expectOr] at hp
    split at hp
    · rename_i hkind
      cases hp
      have hdirty := hs.dirty (by rw [hkind]; exact hk)
      exact ⟨hdirty.1, by rw [reported_next]; exact hdirty.2⟩
    · cases hp
  · rw [Cursor.expectOr] at hp
    split at hp
    · rename_i hkind
      cases hp
      obtain ⟨hc, hl, hpassed⟩ := hs.next (by rw [hkind]; exact hk)
      have ht : t.kind = kind := by rw [Cursor.kind, hc]; exact hkind
      refine .inr ⟨t.next, ?_, ⟨hl, by simp [hpassed]⟩, by simp [Cursor.index, hpassed]⟩
      rw [Cursor.expectOr, if_pos ht]
      exact congrArg (Reply.ok · t.next) hc
    · cases hp
  · rw [Cursor.expectOr] at hp
    split at hp
    · cases hp
    · rename_i hkind
      cases hp
      obtain hlost | halike := hs.alike
      · exact .inl hlost.1
      · have ht : t.kind ≠ kind := by rw [Cursor.kind, halike.kind]; exact hkind
        exact .inr ⟨t, by rw [Cursor.expectOr, if_neg ht, hf halike], hs, Nat.le_refl _⟩

theorem expect {kind : Token.Kind} (hk : kind ≠ .eof) :
    Mimics (.loose w) (Stage.firm w).moved (Cursor.expect kind) (Cursor.expect kind) :=
  expectOr hk fun h => by simp only [Diagnostic.relocate, place, h.text, h.start]

theorem demand {kind : Token.Kind} (hk : kind ≠ .eof) (message : String) :
    Mimics (.loose w) (Stage.firm w).moved (Cursor.demand kind message)
      (Cursor.demand kind message) :=
  expectOr hk fun h => misplaced_relocate h message

theorem spanSince (X : Stage w) (p : Position) :
    Mimics X.moved X.moved (Cursor.spanSince p) (Cursor.spanSince (w.places.starts p)) := by
  refine of_cursor (fun hs hp => ?_) (fun {s t a s'} hs hp => ?_) nofun
  · cases hp
    exact hs
  · cases hp
    refine .inr ⟨t, ?_, hs, Nat.le_refl _⟩
    rw [spanSince_apply, Cursor.since, (X.like hs.1).passedEnd hs.2]
    rfl

end Parse.Mimics

namespace Tandem.Stage

variable {w : Tandem}

/-- A stage that tells nothing but that the two readings are together. -/
structure Free (X : Stage w) : Prop where
  report : ∀ {s} (d : Diagnostic), X.gone s → X.gone (s.report d)
  dirty : ∀ {s}, w.Dirty s → X.gone s
  link : ∀ {s t}, w.Like s t → X.link s t

theorem dirty_report {s : Cursor} (h : w.cut = true) (d : Diagnostic) : w.Dirty (s.report d) :=
  ⟨h, by simp [Cursor.report]⟩

theorem firm_free : (firm w).Free :=
  ⟨fun d h => dirty_report h.1 d, fun h => h, fun h => h⟩

theorem loose_free : (loose w).Free :=
  ⟨fun d h => (dirty_report h.1 d).lost, Dirty.lost, fun h => h⟩

theorem Free.after_report {X : Stage w} (h : X.Free) {s t : Cursor} (hs : X.link s t)
    (d : Diagnostic) :
    X.gone (s.report d) ∨ X.link (s.report d) (t.report (d.relocate w.places)) := by
  cases hcut : w.cut with
  | true => exact .inl (h.dirty (dirty_report hcut d))
  | false => exact .inr (h.link ((X.like hs).report hcut d))

end Tandem.Stage

namespace Parse.Mimics

variable {w : Tandem} {α β : Type} [Placed α] [Placed β] {X Y : Stage w}

theorem reporting (hX : X.Free) {d d' : Diagnostic} (h : d' = d.relocate w.places) :
    Mimics X X (Cursor.reporting d) (Cursor.reporting d') := by
  subst h
  refine of_cursor (fun hs hp => ?_) (fun {s t a s'} hs hp => ?_) nofun
  · cases hp
    exact hX.report d hs
  · cases hp
    exact (hX.after_report hs d).imp_right fun hl => ⟨_, rfl, hl, Nat.le_refl _⟩

theorem reading {p q : Context → Parse Cursor α} (h : ∀ Γ, Mimics X Y (p Γ) (q Γ)) :
    Mimics X Y (Reader.reading p) (Reader.reading q) where
  gone {s a s'} hs hp := by
    rw [Reader.reading] at hp
    split at hp
    · rename_i hq
      cases hp
      exact (h _).gone hs hq
    · cases hp
    · cases hp
  ok {s t a s'} hs hp := by
    rw [Reader.reading] at hp
    split at hp
    · rename_i b c hb
      cases hp
      obtain hgone | ⟨c', hq, hl, hi⟩ := (h s.context).ok (t := t.cursor) ⟨hs.1, trivial⟩ hb
      · exact .inl hgone
      · have hΓ : t.context = s.context := hs.2
        exact .inr ⟨{ t with cursor := c' }, by rw [Reader.reading, hΓ, hq], ⟨hl.1, hΓ⟩, hi⟩
    · cases hp
    · cases hp
  error {s t d s'} hs hp := by
    rw [Reader.reading] at hp
    split at hp
    · cases hp
    · rename_i e c he
      cases hp
      obtain hcut | ⟨c', hq, hl, hi⟩ := (h s.context).error (t := t.cursor) ⟨hs.1, trivial⟩ he
      · exact .inl hcut
      · have hΓ : t.context = s.context := hs.2
        exact .inr ⟨{ t with cursor := c' }, by rw [Reader.reading, hΓ, hq], ⟨hl.1, hΓ⟩, hi⟩
    · cases hp

theorem onCursor {p q : Parse Cursor α} (h : Mimics X Y p q) :
    Mimics X Y (Reader.onCursor p) (Reader.onCursor q) := reading fun _ => h

theorem inScope (enter : Context → Context) {p q : Parse Reader α} (h : Mimics X Y p q) :
    Mimics X Y (Reader.inScope enter p) (Reader.inScope enter q) where
  gone {s a s'} hs hp := by
    rw [Reader.inScope] at hp
    split at hp
    · rename_i u hu
      cases hp
      have hgone := h.gone (s := { s with context := enter s.context }) hs hu
      exact hgone
    · cases hp
    · cases hp
  ok {s t a s'} hs hp := by
    have hΓ : t.context = s.context := hs.2
    have hin : X.Linked { s with context := enter s.context }
      { t with context := enter t.context } :=
      ⟨hs.1, by rw [hΓ]; rfl⟩
    rw [Reader.inScope] at hp
    split at hp
    · rename_i b u hb
      cases hp
      obtain hgone | ⟨u', hq, hl, hi⟩ := h.ok hin hb
      · exact .inl hgone
      · have hΔ : u'.context.leave = u.context.leave := congrArg Context.leave hl.2
        exact .inr ⟨{ u' with context := u'.context.leave }, by rw [Reader.inScope, hq],
          ⟨hl.1, hΔ⟩, hi⟩
    · cases hp
    · cases hp
  error {s t d s'} hs hp := by
    have hΓ : t.context = s.context := hs.2
    have hin : X.Linked { s with context := enter s.context }
      { t with context := enter t.context } :=
      ⟨hs.1, by rw [hΓ]; rfl⟩
    rw [Reader.inScope] at hp
    split at hp
    · cases hp
    · rename_i e u he
      cases hp
      obtain hcut | ⟨u', hq, hl, hi⟩ := h.error hin he
      · exact .inl hcut
      · have hΔ : u'.context.leave = u.context.leave := congrArg Context.leave hl.2
        exact .inr ⟨{ u' with context := u'.context.leave }, by rw [Reader.inScope, hq],
          ⟨hl.1, hΔ⟩, hi⟩
    · cases hp

theorem declaring (hX : X.Free) {f g : Context → Except Diagnostic Context}
    (h : ∀ Γ, g Γ = (f Γ).mapError (Diagnostic.relocate w.places)) :
    Mimics X X (Reader.declaring f) (Reader.declaring g) where
  gone {s a s'} hs hp := by
    rw [Reader.declaring] at hp
    split at hp <;> cases hp
    · exact hs
    · exact hX.report _ hs
  ok {s t a s'} hs hp := by
    have hΓ : t.context = s.context := hs.2
    rw [Reader.declaring] at hp
    split at hp <;> cases hp
    · rename_i Δ hΔ
      refine .inr ⟨{ t with context := Δ }, ?_, ⟨hs.1, rfl⟩, Nat.le_refl _⟩
      rw [Reader.declaring, hΓ, h, hΔ]
      rfl
    · rename_i d hd
      obtain hgone | hl := hX.after_report hs.1 d
      · exact .inl hgone
      · refine .inr ⟨{ t with cursor := t.cursor.report (d.relocate w.places) }, ?_, ⟨hl, hΓ⟩,
          Nat.le_refl _⟩
        rw [Reader.declaring, hΓ, h, hd]
        rfl
  error {s t d s'} hs hp := by
    rw [Reader.declaring] at hp
    split at hp <;> cases hp

theorem recovering {p q : Parse Reader (Option Stmt)} (h : Mimics X (.firm w) p q) :
    Mimics X (.firm w) (Stmt.recovering p) (Stmt.recovering q) where
  gone {s a s'} hs hp := by
    rw [Stmt.recovering] at hp
    split at hp
    · cases hp
      exact ⟨X.cut hs, by simp [cursor, Cursor.recover_reported]⟩
    · exact h.gone hs hp
  ok {s t a s'} hs hp := by
    rw [Stmt.recovering] at hp
    split at hp
    · rename_i d u hd
      cases hp
      cases hcut : w.cut with
      | true => exact .inl ⟨hcut, by simp [cursor, Cursor.recover_reported]⟩
      | false =>
        obtain htrue | ⟨u', hq, hl, hi⟩ := h.error hs hd
        · simp [hcut] at htrue
        · obtain ⟨hlike, hle⟩ := Tandem.Like.recover hl.1 hcut s.cursor.index d
          have hindex : t.cursor.index = s.cursor.index + w.base.length := (X.like hs.1).index
          refine .inr ⟨⟨u'.cursor.recover t.cursor.index (d.relocate w.places), u'.context⟩, ?_,
            ⟨?_, hl.2⟩, Nat.le_trans hi hle⟩
          · rw [Stmt.recovering, hq]
            rfl
          · rw [hindex]
            exact hlike
    · obtain hgone | ⟨u', hq, hl⟩ := h.ok hs hp
      · exact .inl hgone
      · exact .inr ⟨u', by rw [Stmt.recovering, hq], hl⟩
  error {s t d s'} hs hp := by
    rw [Stmt.recovering] at hp
    split at hp
    · cases hp
    · rename_i hq
      exact absurd hp (hq _ _)

end Parse.Mimics

end TypedScript
