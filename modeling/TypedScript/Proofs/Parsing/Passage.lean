import TypedScript.Program.Basic
import TypedScript.Proofs.Grammar.StmtSoundness
import TypedScript.Proofs.Parsing.Progress

namespace TypedScript

namespace Dict

variable {κ ν : Type} [DecidableEq κ] {d e f : Dict κ ν}

def Keeps (d e : Dict κ ν) : Prop := ∀ key v, d.get? key = some v → e.get? key = some v

theorem Keeps.refl (d : Dict κ ν) : d.Keeps d := fun _ _ => id

theorem Keeps.trans (h : d.Keeps e) (h' : e.Keeps f) : d.Keeps f :=
  fun key v hv => h' key v (h key v hv)

theorem keeps_insert {key : κ} (v : ν) (h : d.get? key = none) : d.Keeps (d.insert key v) := by
  intro other w hw
  rw [get?_insert_of_ne _ _ ?_, hw]
  rintro rfl
  rw [h] at hw
  cases hw

end Dict

/-- One context comes from another by entries in the innermost scope and in the tables of types
and members. -/
structure Context.Extends (Γ Δ : Context) : Prop where
  enclosing : Δ.enclosing = Γ.enclosing
  returns : Δ.current.returns = Γ.current.returns
  names : Γ.current.names.Keeps Δ.current.names
  types : Γ.types.Keeps Δ.types
  members : Γ.members.Keeps Δ.members

namespace Context.Extends

variable {Γ Δ Ξ : Context}

theorem refl (Γ : Context) : Γ.Extends Γ := ⟨rfl, rfl, .refl _, .refl _, .refl _⟩

theorem trans (h : Γ.Extends Δ) (h' : Δ.Extends Ξ) : Γ.Extends Ξ where
  enclosing := h'.enclosing.trans h.enclosing
  returns := h'.returns.trans h.returns
  names := h.names.trans h'.names
  types := h.types.trans h'.types
  members := h.members.trans h'.members

theorem depth (h : Γ.Extends Δ) : Δ.depth = Γ.depth := by
  simp [Context.depth, scopes, h.enclosing]

theorem bind {name : String} {ty : Ty} {place : Position} (h : Γ.bind name ty place = .ok Δ) :
    Γ.Extends Δ := by
  rw [Context.bind] at h
  split at h
  · cases h
  · rename_i hfresh
    cases h
    exact ⟨rfl, rfl, Dict.keeps_insert ty (by simpa [local?] using hfresh), .refl _, .refl _⟩

theorem declare {receiver : Option Ty} {name : Token} {ty : Ty}
    (h : Stmt.declare receiver name ty Γ = .ok Δ) : Γ.Extends Δ := by
  cases receiver with
  | none => exact bind h
  | some r =>
    rw [Stmt.declare, bindMember] at h
    split at h
    · cases h
    · rename_i hfresh
      cases h
      exact ⟨rfl, rfl, .refl _, .refl _,
        Dict.keeps_insert ty (by simpa [Dict.contains] using hfresh)⟩

theorem declareType {name : String} {place : Position}
    (h : (Γ.declareType name place).map Prod.snd = .ok Δ) : Γ.Extends Δ := by
  rw [Context.declareType] at h
  split at h
  · cases h
  · rename_i hfresh
    cases h
    exact ⟨rfl, rfl, .refl _, Dict.keeps_insert _ (by simpa [Dict.contains] using hfresh), .refl _⟩

theorem leave_enter (h : Γ.enter.Extends Δ) : Γ.Extends Δ.leave := by
  have henclosing : Δ.enclosing = Γ.current :: Γ.enclosing := h.enclosing
  rw [Context.leave, henclosing]
  exact ⟨rfl, rfl, .refl _, h.types, h.members⟩

theorem leave_enterFunction {result : Ty} (h : (Γ.enterFunction result).Extends Δ) :
    Γ.Extends Δ.leave := by
  have henclosing : Δ.enclosing = Γ.current :: Γ.enclosing := h.enclosing
  rw [Context.leave, henclosing]
  exact ⟨rfl, rfl, .refl _, h.types, h.members⟩

end Context.Extends

/-- The second reader stands `ts` further than the first, in a context that keeps the scopes. -/
structure Reader.Passes (r : Reader) (ts : List Token) (s : Reader) : Prop where
  tokens : r.cursor.Reaches ts s.cursor
  context : r.context.Extends s.context

namespace Reader.Passes

variable {r s t : Reader} {ts us : List Token}

theorem refl (r : Reader) : r.Passes [] r := ⟨.refl _, .refl _⟩

theorem trans (h : r.Passes ts s) (h' : s.Passes us t) : r.Passes (ts ++ us) t :=
  ⟨h.tokens.trans h'.tokens, h.context.trans h'.context⟩

end Reader.Passes

/-- Where a parser with `n` fuel goes from `r`: to a place of which `good` holds if it succeeds,
and `bad` if it fails. It runs out of fuel only if it has less than 16 for each token ahead and
`k` besides. -/
def Parse.Goes {α : Type} (p : Parse Reader α) (r : Reader) (n k : Nat)
    (good bad : List Token → Cursor → Prop) : Prop :=
  match p r with
  | .ok _ s => ∃ ts, r.Passes ts s ∧ good ts s.cursor
  | .error _ s => ∃ ts, r.Passes ts s ∧ bad ts s.cursor
  | .exhausted => n < 16 * r.cursor.ahead.length + k

def Parse.Idles {α : Type} (p : Parse Reader α) (r : Reader) : Prop :=
  ∃ a s, p r = .ok a s ∧ r.Passes [] s

namespace Parse

variable {α β : Type} {p : Parse Reader α} {f : α → Parse Reader β} {r : Reader} {n k k' : Nat}
  {good bad good' bad' : List Token → Cursor → Prop}

namespace Goes

theorem mono (h : p.Goes r n k good bad) (hk : k ≤ k')
    (hgood : ∀ ts s, r.Passes ts s → good ts s.cursor → good' ts s.cursor)
    (hbad : ∀ ts s, r.Passes ts s → bad ts s.cursor → bad' ts s.cursor) :
    p.Goes r n k' good' bad' := by
  rw [Goes] at h ⊢
  split <;> rename_i hp <;> rw [hp] at h
  · obtain ⟨ts, hts, hg⟩ := h
    exact ⟨ts, hts, hgood ts _ hts hg⟩
  · obtain ⟨ts, hts, hb⟩ := h
    exact ⟨ts, hts, hbad ts _ hts hb⟩
  · exact Nat.lt_of_lt_of_le h (by omega)

theorem succ (h : p.Goes r n k good bad) : p.Goes r (n + 1) (k + 1) good bad := by
  rw [Goes] at h ⊢
  split <;> rename_i hp <;> rw [hp] at h
  · exact h
  · exact h
  · dsimp only at h
    omega

theorem pure {a : α} (h : good [] r.cursor) : Goes (Pure.pure a) r n k good bad :=
  ⟨[], .refl r, h⟩

theorem exhausted : Goes (Parse.exhausted : Parse Reader α) r 0 (k + 1) good bad :=
  (by omega : 0 < 16 * r.cursor.ahead.length + (k + 1))

theorem onward {q : Parse Reader α} {s : Reader} {ts : List Token} (hs : r.Passes ts s)
    (hpq : p r = q s) (h : q.Goes s n (k + 16 * ts.length) (fun us d => good (ts ++ us) d)
      fun us d => bad (ts ++ us) d) : p.Goes r n k good bad := by
  rw [Goes] at h ⊢
  rw [hpq]
  split <;> rename_i hq <;> rw [hq] at h
  · obtain ⟨us, hus, hg⟩ := h
    exact ⟨ts ++ us, hs.trans hus, hg⟩
  · obtain ⟨us, hus, hb⟩ := h
    exact ⟨ts ++ us, hs.trans hus, hb⟩
  · have := hs.tokens.length
    dsimp only at h
    omega

theorem bind (h : p.Goes r n k' good' bad') (hk : k' ≤ k)
    (hf : ∀ a ts s, r.Passes ts s → good' ts s.cursor → (f a).Goes s n (k + 16 * ts.length)
      (fun us d => good (ts ++ us) d) fun us d => bad (ts ++ us) d)
    (hbad : ∀ ts s, r.Passes ts s → bad' ts s.cursor → bad ts s.cursor) :
    (p >>= f).Goes r n k good bad := by
  rw [Goes] at h
  cases hp : p r with
  | error d s =>
    rw [hp] at h
    obtain ⟨ts, hts, hb⟩ := h
    rw [Goes, bind_apply, hp]
    exact ⟨ts, hts, hbad ts s hts hb⟩
  | exhausted =>
    rw [hp] at h
    rw [Goes, bind_apply, hp]
    exact Nat.lt_of_lt_of_le h (by omega)
  | ok a s =>
    rw [hp] at h
    obtain ⟨ts, hts, hg⟩ := h
    exact onward hts (by rw [bind_apply, hp]) (hf a ts s hts hg)

theorem map {g : α → β} (h : p.Goes r n k good bad) : (g <$> p).Goes r n k good bad :=
  bind (f := fun a => Pure.pure (g a)) h (Nat.le_refl k)
    (fun _ _ _ _ hg => .pure (by simpa using hg)) fun _ _ _ hb => hb

theorem ends (h : p.Goes r n k good bad) (hk : k ≤ 32) (hn : r.fuel ≤ n) :
    (∃ a ts s, p r = .ok a s ∧ r.Passes ts s ∧ good ts s.cursor) ∨
      ∃ d ts s, p r = .error d s ∧ r.Passes ts s ∧ bad ts s.cursor := by
  rw [Goes] at h
  cases hp : p r with
  | ok a s =>
    rw [hp] at h
    obtain ⟨ts, hts, hg⟩ := h
    exact .inl ⟨a, ts, s, rfl, hts, hg⟩
  | error d s =>
    rw [hp] at h
    obtain ⟨ts, hts, hb⟩ := h
    exact .inr ⟨d, ts, s, rfl, hts, hb⟩
  | exhausted =>
    rw [hp] at h
    rw [Reader.fuel, Cursor.fuel] at hn
    dsimp only at h
    omega

theorem after (h : p.Idles r) (hf : ∀ a s, r.Passes [] s → (f a).Goes s n k good bad) :
    (p >>= f).Goes r n k good bad := by
  obtain ⟨a, s, hp, hs⟩ := h
  exact onward hs (by rw [bind_apply, hp]) (hf a s hs)

theorem look {f : Token.Kind → Parse Reader β}
    (h : ∀ x, r.cursor.kind = x → (f x).Goes r n k good bad) :
    (Reader.onCursor Cursor.currentKind >>= f).Goes r n k good bad := h _ rfl

theorem reading {q : Context → Parse Cursor α} {K : Token.Kind → Prop} {i : Nat}
    (h : (q r.context).Treads K n k i) (hc : r.cursor.Closed) (hK : K r.cursor.kind) :
    (Reader.reading q).Goes r n k (fun ts _ => Token.Plain ts ∧ i ≤ ts.length)
      fun ts _ => Token.Plain ts := by
  have h := h r.cursor hc hK
  rw [Goes, Reader.reading]
  cases hq : q r.context r.cursor <;> rw [hq] at h
  · obtain ⟨ts, hts, hplain, hlen⟩ := h
    exact ⟨ts, ⟨hts, .refl _⟩, hplain, hlen⟩
  · obtain ⟨ts, hts, hplain⟩ := h
    exact ⟨ts, ⟨hts, .refl _⟩, hplain⟩
  · exact h

theorem next {f : Token → Parse Reader β} (hc : r.cursor.Closed) (hk : r.cursor.kind ≠ .eof)
    (hf : ∀ s, r.Passes [r.cursor.current] s → (f r.cursor.current).Goes s n (k + 16)
      (fun us d => good (r.cursor.current :: us) d) fun us d => bad (r.cursor.current :: us) d) :
    (Reader.onCursor Cursor.advance >>= f).Goes r n k good bad := by
  have hs : r.Passes [r.cursor.current] { r with cursor := r.cursor.next } :=
    ⟨Cursor.reaches_next hc hk, .refl _⟩
  exact onward hs rfl (hf _ hs)

theorem token {f : Token → Parse Reader β} {kind : Token.Kind} {d : Cursor → Diagnostic}
    (hc : r.cursor.Closed) (hkind : kind ≠ .eof)
    (hf : ∀ s, r.Passes [r.cursor.current] s → r.cursor.kind = kind →
      (f r.cursor.current).Goes s n (k + 16)
        (fun us d => good (r.cursor.current :: us) d) fun us d => bad (r.cursor.current :: us) d)
    (hbad : r.cursor.kind ≠ kind → bad [] r.cursor) :
    ((Reader.onCursor fun c => Cursor.expectOr kind (d c) c) >>= f).Goes r n k good bad := by
  by_cases hk : r.cursor.kind = kind
  · refine onward (Reader.Passes.refl r) ?_ (next hc (hk ▸ hkind) fun s hs => hf s hs hk)
    simp only [bind_apply, Reader.onCursor, Reader.reading, Cursor.expectOr, if_pos hk]
  · rw [Goes, bind_apply]
    simp only [Reader.onCursor, Reader.reading, Cursor.expectOr, if_neg hk]
    exact ⟨[], .refl r, hbad hk⟩

theorem inScope {enter : Context → Context}
    (h : p.Goes { r with context := enter r.context } n k good bad)
    (henter : ∀ Δ, (enter r.context).Extends Δ → r.context.Extends Δ.leave) :
    (Reader.inScope enter p).Goes r n k good bad := by
  rw [Goes] at h ⊢
  rw [Reader.inScope]
  cases hp : p { r with context := enter r.context } <;> rw [hp] at h
  · obtain ⟨ts, hts, hg⟩ := h
    exact ⟨ts, ⟨hts.tokens, henter _ hts.context⟩, hg⟩
  · obtain ⟨ts, hts, hb⟩ := h
    exact ⟨ts, ⟨hts.tokens, henter _ hts.context⟩, hb⟩
  · exact h

end Goes

namespace Idles

theorem pure (a : α) : Idles (Pure.pure a) r := ⟨a, r, rfl, .refl r⟩

theorem onCursor {q : Parse Cursor α} (h : q.Stays) : (Reader.onCursor q).Idles r := by
  obtain ⟨a, ds, hq⟩ := h r.cursor
  rw [Idles, Reader.onCursor, Reader.reading, hq]
  exact ⟨a, _, rfl, ⟨rfl, rfl⟩, .refl _⟩

theorem declaring {g : Context → Except Diagnostic Context}
    (h : ∀ Δ, g r.context = .ok Δ → r.context.Extends Δ) : (Reader.declaring g).Idles r := by
  rw [Idles, Reader.declaring]
  cases hg : g r.context with
  | error d => exact ⟨false, _, rfl, ⟨rfl, rfl⟩, .refl _⟩
  | ok Δ => exact ⟨true, _, rfl, ⟨rfl, rfl⟩, h Δ hg⟩

theorem bind (h : p.Idles r) (hf : ∀ a s, (f a).Idles s) : (p >>= f).Idles r := by
  obtain ⟨a, s, hp, hs⟩ := h
  obtain ⟨b, t, hf, ht⟩ := hf a s
  exact ⟨b, t, bind_eq_ok.2 ⟨a, s, hp, hf⟩, hs.trans ht⟩

end Idles

end Parse

open Parse Reader Token Grammar

namespace Cursor

variable {c d : Cursor} {ts us : List Token}

theorem Closed.kind (h : c.Closed) (hc : c.ahead = []) : c.kind = .eof := by
  obtain ⟨last, hl, hlast⟩ := h
  rw [upcoming, hc] at hl
  cases hl
  exact hlast

theorem plain_current (hc : c.kind.weight = 0) : Plain [c.current] := by
  intro t ht
  rw [List.mem_singleton.1 ht]
  exact hc

namespace Reaches

theorem ahead_of_nil (h : c.Reaches [] d) : d.ahead = c.ahead :=
  (List.cons_eq_cons.1 h.upcoming.symm).2

theorem kind_of_nil (h : c.Reaches [] d) : d.kind = c.kind :=
  congrArg Token.kind (List.cons_eq_cons.1 h.upcoming.symm).1

theorem tokens_unique (h : c.Reaches ts d) (h' : c.Reaches us d) : ts = us := by
  have := h.passed.symm.trans h'.passed
  simpa using this

theorem nil_of_plain (h : c.Reaches ts d) (hts : Plain ts) (hc : c.kind.weight ≠ 0) : ts = [] := by
  cases ts with
  | nil => rfl
  | cons t ts =>
    obtain ⟨rfl, -⟩ := List.cons_eq_cons.1 h.upcoming
    exact absurd (hts _ List.mem_cons_self) hc

end Reaches

structure Skips (depth : Nat) (c : Cursor) (us : List Token) (d : Cursor) : Prop where
  tokens : c.Reaches us d
  inside : ∀ vs, vs <+: us → 0 ≤ depth + surplus vs
  closed : depth + surplus us = 0 ∨ d.kind = .eof
  ends : c.kind = .eof → us = []
  moves : us = [] → c.kind = .eof ∨ c.kind = .closeCurly

namespace Skips

variable {depth : Nat}

theorem stay (h : c.kind = .eof ∨ depth = 0 ∧ c.kind = .closeCurly) : Skips depth c [] c where
  tokens := .refl c
  inside vs hvs := by simp [List.prefix_nil.1 hvs]
  closed := h.symm.imp_left fun h => by simp [h.1]
  ends _ := rfl
  moves _ := h.imp_right And.right

theorem once {passed ts : List Token} {current t : Token} {ds : List Diagnostic}
    (hk : current.kind ≠ .eof) (hdepth : depth + current.kind.weight = 0) :
    Skips depth ⟨passed, current, t :: ts, ds⟩ [current] ⟨current :: passed, t, ts, ds⟩ where
  tokens := ⟨rfl, rfl⟩
  inside vs hvs := by
    cases vs with
    | nil => simp
    | cons v vs =>
      obtain ⟨rfl, hle⟩ := List.cons_prefix_cons.1 hvs
      simp [List.prefix_nil.1 hle, hdepth]
  closed := .inl (by simpa using hdepth)
  ends h := absurd h hk
  moves := nofun

theorem cons {passed ts : List Token} {current t : Token} {ds : List Diagnostic} {depth' : Nat}
    (h : Skips depth' ⟨current :: passed, t, ts, ds⟩ us d) (hk : current.kind ≠ .eof)
    (hdepth : (depth' : Int) = depth + current.kind.weight) :
    Skips depth ⟨passed, current, t :: ts, ds⟩ (current :: us) d where
  tokens := (⟨rfl, rfl⟩ : Reaches ⟨passed, current, t :: ts, ds⟩ [current] _).trans h.tokens
  inside vs hvs := by
    cases vs with
    | nil => simp
    | cons v vs =>
      obtain ⟨rfl, hle⟩ := List.cons_prefix_cons.1 hvs
      have := h.inside vs hle
      rw [surplus_cons]
      omega
  closed := by
    rw [surplus_cons]
    exact h.closed.imp_left fun hz => by omega
  ends h := absurd h hk
  moves := nofun

end Skips

theorem skip_skips (ds : List Diagnostic) (depth : Nat) (passed : List Token) (current : Token)
    (ahead : List Token) (hc : Closed ⟨passed, current, ahead, ds⟩) :
    ∃ us, Skips depth ⟨passed, current, ahead, ds⟩ us (skip ds depth passed current ahead) := by
  have hstep {passed ts : List Token} {current t : Token}
      (hc : Closed ⟨passed, current, t :: ts, ds⟩) : Closed ⟨current :: passed, t, ts, ds⟩ :=
    (⟨rfl, rfl⟩ : Reaches _ [current] _).closed hc
  fun_induction skip ds depth passed current ahead with
  | case1 depth passed current => exact ⟨[], .stay (.inl (hc.kind rfl))⟩
  | case2 depth passed current t ts hk => exact ⟨[], .stay (.inl hk)⟩
  | case3 passed current t ts hk =>
    exact ⟨[current], .once (by simp [hk]) (by simp [hk, Kind.weight])⟩
  | case4 passed current t ts hk => exact ⟨[], .stay (.inr ⟨rfl, hk⟩)⟩
  | case5 passed current t ts hk =>
    exact ⟨[current], .once (by simp [hk]) (by simp [hk, Kind.weight])⟩
  | case6 passed current t ts depth hk ih =>
    obtain ⟨us, hus⟩ := ih (hstep hc)
    have hweight : current.kind.weight = -1 := by rw [hk]; rfl
    exact ⟨current :: us, hus.cons (by simp [hk]) (by omega)⟩
  | case7 passed current t ts depth hk ih =>
    obtain ⟨us, hus⟩ := ih (hstep hc)
    exact ⟨current :: us, hus.cons (by simp [hk]) (by simp [hk, Kind.weight])⟩
  | case8 passed current t ts depth heof _ h₀ h₁ h₂ hopen ih =>
    obtain ⟨us, hus⟩ := ih (hstep hc)
    have hclose : current.kind ≠ .closeCurly := by
      intro hk
      obtain _ | _ | depth := depth
      · exact h₀ hk rfl
      · exact h₁ hk rfl
      · exact h₂ depth hk rfl
    exact ⟨current :: us, hus.cons heof (by rw [Kind.weight_eq_zero hopen hclose, Int.add_zero])⟩

theorem skipStatement_skips (hc : c.Closed) : ∃ us, Skips 0 c us c.skipStatement :=
  skip_skips _ 0 _ _ _ hc

namespace Skips

theorem orderly (h : Skips 0 c us d) : Orderly us d.kind := by
  have hsheltered : Sheltered us := fun vs hvs => by simpa using h.inside vs hvs
  obtain hclosed | heof := h.closed
  · exact .whole ⟨hsheltered, by simpa using hclosed⟩
  · exact .cut hsheltered heof

theorem nil_of_close (h : Skips 0 c us d) (hc : c.kind = .closeCurly) : us = [] := by
  cases us with
  | nil => rfl
  | cons t us =>
    obtain ⟨rfl, -⟩ := List.cons_eq_cons.1 h.tokens.upcoming
    have hopen := h.inside [c.current] (by simp)
    rw [Cursor.kind] at hc
    simp [hc, Kind.weight] at hopen

end Skips

theorem next_consumes (hc : c.Closed) (hk : c.kind = .eof ∨ c.kind = .closeCurly) :
    ∃ us, c.Reaches us c.next ∧ (us = [] → c.next.ahead = []) ∧ Consumes c.kind us c.next.kind := by
  obtain ⟨passed, current, ahead, reported⟩ := c
  cases ahead with
  | nil =>
    have heof : current.kind = .eof := hc.kind rfl
    exact ⟨[], .refl _, fun _ => rfl, .orderly (by simp [kind, heof]) (.whole .nil)⟩
  | cons t ts =>
    refine ⟨[current], ⟨rfl, rfl⟩, nofun, ?_⟩
    obtain heof | hclose := hk
    · have hplain : Plain [current] := plain_current (by rw [heof]; rfl)
      exact .orderly (by simp [heof]) (.whole hplain.balanced)
    · exact .stray hclose hclose rfl

theorem recover_consumes (hc : c.Closed) (h : c.Reaches ts d) (hts : Orderly ts d.kind)
    (hclose : c.kind = .closeCurly → ts = []) (fault : Diagnostic) :
    ∃ us, c.Reaches us (d.recover c.index fault) ∧
      (us = [] → (d.recover c.index fault).ahead = []) ∧
      Consumes c.kind us (d.recover c.index fault).kind := by
  have hreport : c.Reaches ts (d.report fault) := ⟨h.passed, h.upcoming⟩
  obtain ⟨us, hus⟩ := skipStatement_skips (hreport.closed hc)
  rw [recover]
  generalize (d.report fault).skipStatement = t at hus
  have hct : c.Reaches (ts ++ us) t := hreport.trans hus.tokens
  have hindex := hct.index
  split <;> rename_i hstart
  · have hnil : ts ++ us = [] := List.length_eq_zero_iff.1 (by omega)
    obtain ⟨rfl, rfl⟩ := List.append_eq_nil_iff.1 hnil
    have hk : t.kind = .eof ∨ t.kind = .closeCurly := by
      rw [hus.tokens.kind_of_nil]
      exact hus.moves rfl
    obtain ⟨vs, hvs, hmoves, hconsumes⟩ := next_consumes (hct.closed hc) hk
    rw [hct.kind_of_nil] at hconsumes
    exact ⟨vs, hct.trans hvs, hmoves, hconsumes⟩
  · have hmoved : ts ++ us ≠ [] := by
      intro hnil
      rw [hnil, List.length_nil] at hindex
      exact hstart hindex
    have hne : c.kind ≠ .closeCurly := by
      intro hk
      obtain rfl := hclose hk
      exact hmoved (hus.nil_of_close (h.kind_of_nil.trans hk))
    refine ⟨ts ++ us, hct, fun hnil => absurd hnil hmoved, .orderly hne ?_⟩
    refine hts.append hus.orderly fun heof => ?_
    obtain rfl := hus.ends heof
    exact ⟨rfl, hus.tokens.kind_of_nil.trans heof⟩

end Cursor

theorem Reader.Passes.kind_of_end {r s : Reader} {ts : List Token} (h : r.Passes ts s)
    (hc : r.cursor.Closed) (hmoves : ts = [] → s.cursor.ahead = []) (hnil : ts = []) :
    r.cursor.kind = .eof := by
  have hahead := hmoves hnil
  subst hnil
  exact hc.kind (h.tokens.ahead_of_nil ▸ hahead)

theorem Parse.Goes.recovering {p : Parse Reader (Option Stmt)} {r : Reader} {n k : Nat}
    {good bad : List Token → Cursor → Prop} (hc : r.cursor.Closed) (h : p.Goes r n k good bad)
    (hgood : ∀ ts d, good ts d → ts ≠ [] ∧ r.cursor.kind ≠ .closeCurly ∧ Orderly ts d.kind)
    (hbad : ∀ ts d, bad ts d → (r.cursor.kind = .closeCurly → ts = []) ∧ Orderly ts d.kind) :
    (Stmt.recovering p).Goes r n k
      (fun ts d => (ts = [] → d.ahead = []) ∧ Consumes r.cursor.kind ts d.kind)
      fun _ _ => False := by
  rw [Goes] at h ⊢
  rw [Stmt.recovering]
  cases hp : p r <;> rw [hp] at h
  · obtain ⟨ts, hts, hg⟩ := h
    obtain ⟨hne, hk, horderly⟩ := hgood _ _ hg
    exact ⟨ts, hts, fun hnil => absurd hnil hne, .orderly hk horderly⟩
  · obtain ⟨ts, hts, hb⟩ := h
    obtain ⟨hclose, horderly⟩ := hbad _ _ hb
    obtain ⟨us, hus, hmoves, hconsumes⟩ :=
      Cursor.recover_consumes hc hts.tokens horderly hclose _
    exact ⟨us, ⟨hus, hts.context⟩, hmoves, hconsumes⟩
  · exact h

namespace Stmt

variable {r : Reader} {n : Nat}

theorem reportSome_idles (d : Option Diagnostic) : (reportSome d).Idles r := by
  cases d with
  | none => exact .pure ()
  | some d => exact .onCursor (.reporting d)

theorem bindAll_idles (bs : List (String × Ty)) : (bindAll bs).Idles r := by
  induction bs generalizing r with
  | nil => exact .pure ()
  | cons b rest ih =>
    refine Idles.bind ?_ fun _ _ => ih
    exact Idles.declaring fun _ => Context.Extends.bind

theorem condition_goes (hc : r.cursor.Closed) :
    (reading fun Γ => Expr.parseAt n Γ .default).Goes r n 3
      (fun ts _ => Plain ts ∧ ∃ e, Derives .assignment ts e) fun ts _ => Plain ts := by
  have h := Goes.reading (q := fun Γ => Expr.parseAt n Γ .default)
    ((Expr.Trodden.all n).expr r.context .default) hc trivial
  rw [Goes, Reader.reading] at h ⊢
  cases hp : Expr.parseAt n r.context .default r.cursor with
  | ok e d =>
    rw [hp] at h
    obtain ⟨ts, hts, hplain, -⟩ := h
    obtain ⟨-, hspells⟩ := (expr_spells n r.context).ok hp
    obtain ⟨us, hus, hderives⟩ := hspells hc
    obtain rfl := hts.tokens.tokens_unique hus
    exact ⟨ts, hts, hplain, e.tree, hderives⟩
  | error e d =>
    rw [hp] at h
    exact h
  | exhausted =>
    rw [hp] at h
    exact h

theorem parseLet_goes (hc : r.cursor.Closed) (hk : r.cursor.kind.Inner) :
    (parseLet n).Goes r n 0 (fun ts _ => Plain ts ∧ 1 ≤ ts.length) fun ts _ => Plain ts := by
  rw [parseLet]
  refine Goes.bind (.reading (parseDefinition_treads n r.context) hc hk) (Nat.le_refl 0) ?_
    fun _ _ _ h => h
  intro d ts s hs hts
  refine Goes.after (reportSome_idles _) fun _ t ht => ?_
  refine Goes.after (.declaring fun _ => .declare) fun _ u hu => .pure ?_
  rwa [List.append_nil]

theorem parseTypeDecl_goes (hc : r.cursor.Closed) (hk : r.cursor.kind.Inner) :
    parseTypeDecl.Goes r n 0 (fun ts _ => Plain ts ∧ 1 ≤ ts.length) fun ts _ => Plain ts := by
  rw [parseTypeDecl]
  refine Goes.next hc hk.1 fun s hs => ?_
  have hkeyword : Plain [r.cursor.current] := Cursor.plain_current hk.2
  have hcs := hs.tokens.closed hc
  refine Goes.token hcs (by decide) (fun t ht hkind => ?_) fun _ => hkeyword
  have hname := hkeyword.append (Cursor.plain_current (by rw [hkind]; rfl))
  refine Goes.token (ht.tokens.closed hcs) (by decide) (fun u hu hkind => ?_) fun _ => hname
  refine Goes.after (.declaring fun _ => .declareType) fun _ v hv => ?_
  refine Goes.after (.onCursor (.spanSince _)) fun _ w hw => .pure ⟨?_, by simp⟩
  exact hname.append (Cursor.plain_current (by rw [hkind]; rfl))

structure Passed (n : Nat) : Prop where
  stmt : ∀ r, r.cursor.Closed → (parseAt n).Goes r n 5
    (fun ts d => (ts = [] → d.ahead = []) ∧ Consumes r.cursor.kind ts d.kind) fun _ _ => False
  form : ∀ r form, r.cursor.Closed → Form.ofKind r.cursor.kind = form →
    (parseFormAt n form).Goes r n 4
    (fun ts d => ts ≠ [] ∧ r.cursor.kind ≠ .closeCurly ∧ Orderly ts d.kind)
    fun ts d => (r.cursor.kind = .closeCurly → ts = []) ∧ Orderly ts d.kind
  func : ∀ r, r.cursor.Closed → r.cursor.kind.Inner → (parseFuncAt n).Goes r n 1
    (fun ts d => ts ≠ [] ∧ Orderly ts d.kind) fun ts d => Orderly ts d.kind
  body : ∀ r heading, r.cursor.Closed → (parseBodyAt n heading).Goes r n 2
    (fun ts _ => Enclosed ts) fun ts d => Unclosed r.cursor.kind ts d.kind
  block : ∀ r, r.cursor.Closed → (parseBlockAt n).Goes r n 1
    (fun ts _ => Enclosed ts) fun ts d => Unclosed r.cursor.kind ts d.kind
  statements : ∀ r, r.cursor.Closed → (parseStatementsAt n).Goes r n 6
    (fun ts _ => Closes r.cursor.kind ts) fun ts d => RunsOut r.cursor.kind ts d.kind
  branch : ∀ r, r.cursor.Closed → (parseBranchAt n).Goes r n 6
    (fun ts d => Consumes r.cursor.kind ts d.kind) fun _ _ => False
  orElse : ∀ r, r.cursor.Closed → (parseElseAt n).Goes r n 1
    (fun ts d => Orderly ts d.kind ∧ (r.cursor.kind = .eof → ts = [])) fun _ _ => False
  cond : ∀ r, r.cursor.Closed → r.cursor.kind = .kwIf → (parseCondAt n).Goes r n 1
    (fun ts d => ts ≠ [] ∧ Orderly ts d.kind) fun ts d => Orderly ts d.kind
  loop : ∀ r, r.cursor.Closed → r.cursor.kind = .kwWhile → (parseLoopAt n).Goes r n 1
    (fun ts d => ts ≠ [] ∧ Orderly ts d.kind) fun ts d => Orderly ts d.kind

theorem Form.kind_of_ofKind {kind : Token.Kind} {form : Form} (h : Form.ofKind kind = form) :
    match form with
    | .define => kind = .kwLet
    | .ret => kind = .kwReturn
    | .func => kind = .kwFunc
    | .block => kind = .openCurly
    | .cond => kind = .kwIf
    | .loop => kind = .kwWhile
    | .typeDecl => kind = .kwType
    | .expression => True := by
  subst h
  cases kind <;> trivial

namespace Passed

theorem zero : Passed 0 := by
  constructor <;> intros <;> exact .exhausted

theorem block_succ (h : Passed n) (r : Reader) (hc : r.cursor.Closed) :
    (parseBlockAt (n + 1)).Goes r (n + 1) 1 (fun ts _ => Enclosed ts)
      fun ts d => Unclosed r.cursor.kind ts d.kind := by
  rw [parseBlockAt]
  refine Goes.succ (Goes.token hc (by decide) (fun s hs ho => ?_) fun ho => .inl ⟨ho, rfl⟩)
  have hstatements := h.statements { s with context := s.context.enter } (hs.tokens.closed hc)
  refine Goes.bind (.inScope hstatements fun _ => .leave_enter) (by decide)
    (fun _ us t _ hus => ?_) ?_
  · obtain ⟨-, vs, z, hz, hvs, rfl⟩ := hus
    refine Goes.after (.onCursor (.spanSince _)) fun _ _ _ => .pure ?_
    exact ⟨_, vs, z, ho, hz, hvs, by simp⟩
  · rintro us t - ⟨-, heof, hus⟩
    exact .inr ⟨_, us, ho, heof, hus, rfl⟩

theorem body_succ (h : Passed n) (r : Reader) (heading : Heading) (hc : r.cursor.Closed) :
    (parseBodyAt (n + 1) heading).Goes r (n + 1) 2 (fun ts _ => Enclosed ts)
      fun ts d => Unclosed r.cursor.kind ts d.kind := by
  rw [parseBodyAt]
  refine Goes.succ (Goes.after (bindAll_idles _) fun _ s hs => ?_)
  rw [← hs.tokens.kind_of_nil]
  exact h.block s (hs.tokens.closed hc)

theorem rest_goes (h : Passed n) {r s : Reader} {ts : List Token} (hc : r.cursor.Closed)
    (hs : r.Passes ts s) (hts : Orderly ts s.cursor.kind) (hr : r.cursor.kind ≠ .eof) :
    (parseStatementsAt n).Goes s n 6 (fun us _ => Closes r.cursor.kind (ts ++ us))
      fun us d => RunsOut r.cursor.kind (ts ++ us) d.kind := by
  refine (h.statements s (hs.tokens.closed hc)).mono (Nat.le_refl 6) ?_ ?_
  · rintro us t - ⟨hk, vs, z, hz, hvs, rfl⟩
    refine ⟨hr, ts ++ vs, z, hz, hts.append hvs fun heof => absurd heof hk, by simp⟩
  · rintro us t - ⟨hnil, heof, hus⟩
    exact ⟨fun h => absurd h hr, heof, hts.append hus fun hk => ⟨hnil hk, rfl⟩⟩

theorem cons_goes (h : Passed n) {r : Reader} (hc : r.cursor.Closed)
    (hclose : r.cursor.kind ≠ .closeCurly) (hr : r.cursor.kind ≠ .eof) :
    Parse.Goes (do
      let statement ← parseAt n
      let rest ← parseStatementsAt n
      return statement.toList ++ rest) r n 5
      (fun ts _ => Closes r.cursor.kind ts) fun ts d => RunsOut r.cursor.kind ts d.kind := by
  refine Goes.bind (h.stmt r hc) (Nat.le_refl 5) ?_ fun _ _ _ h => h.elim
  rintro statement ts s hs ⟨hmoves, hconsumes⟩
  have hlen : 0 < ts.length := List.length_pos_iff.2 fun hnil => hr (hs.kind_of_end hc hmoves hnil)
  cases hconsumes with
  | stray hx => exact absurd hx hclose
  | orderly _ hts =>
    refine Goes.bind (h.rest_goes hc hs hts hr) (by omega) ?_ fun _ _ _ h => h
    intro rest us t ht hus
    exact .pure (by simpa using hus)

theorem statements_succ (h : Passed n) (r : Reader) (hc : r.cursor.Closed) :
    (parseStatementsAt (n + 1)).Goes r (n + 1) 6
      (fun ts _ => Closes r.cursor.kind ts) fun ts d => RunsOut r.cursor.kind ts d.kind := by
  rw [parseStatementsAt]
  refine Goes.succ (Goes.look fun kind hk => ?_)
  cases kind with
  | closeCurly =>
    refine Goes.token hc (by decide) (fun s hs hz => .pure ?_) fun hne => absurd hk hne
    exact ⟨by simp [hk], [], _, hz, .whole .nil, rfl⟩
  | eof => exact ⟨[], .refl r, fun _ => rfl, hk, .whole .nil⟩
  | semicolon =>
    have hr : r.cursor.kind ≠ .eof := by simp [hk]
    refine Goes.next hc hr fun s hs => ?_
    have hplain : Plain [r.cursor.current] := Cursor.plain_current (by rw [hk]; rfl)
    have hrest := h.rest_goes hc hs (.whole hplain.balanced) hr
    exact hrest.mono (by decide) (fun _ _ _ h => h) fun _ _ _ h => h
  | _ => exact h.cons_goes hc (by simp [hk]) (by simp [hk])

theorem branch_succ (h : Passed n) (r : Reader) (hc : r.cursor.Closed) :
    (parseBranchAt (n + 1)).Goes r (n + 1) 6 (fun ts d => Consumes r.cursor.kind ts d.kind)
      fun _ _ => False := by
  rw [parseBranchAt]
  have hstmt := h.stmt { r with context := r.context.enter } hc
  refine Goes.succ (.inScope (hstmt.mono (Nat.le_refl 5) ?_ fun _ _ _ h => h) fun _ => .leave_enter)
  exact fun _ _ _ h => h.2

theorem orElse_succ (h : Passed n) (r : Reader) (hc : r.cursor.Closed) :
    (parseElseAt (n + 1)).Goes r (n + 1) 1
      (fun ts d => Orderly ts d.kind ∧ (r.cursor.kind = .eof → ts = [])) fun _ _ => False := by
  rw [parseElseAt]
  refine Goes.succ (Goes.look fun x hk => ?_)
  split <;> rename_i hx
  · subst hx
    have hr : r.cursor.kind ≠ .eof := by simp [hk]
    refine Goes.next hc hr fun s hs => ?_
    refine Goes.bind (h.branch s (hs.tokens.closed hc)) (by decide)
      (fun _ ts t _ hts => .pure ?_) fun _ _ _ h => h
    have hhead : Head [r.cursor.current] := .orElse hk
    have hplain : Plain [r.cursor.current] := Cursor.plain_current (by rw [hk]; rfl)
    rw [List.append_nil]
    exact ⟨hts.behind_head hhead hplain, fun heof => absurd heof hr⟩
  · exact .pure ⟨.whole .nil, fun _ => rfl⟩

theorem headed (h : Passed n) {α : Type} {rest : Token → Expr → Option Stmt → Parse Reader α}
    {good bad : List Token → Cursor → Prop} {r : Reader} (hc : r.cursor.Closed)
    (hk : r.cursor.kind = .kwIf ∨ r.cursor.kind = .kwWhile)
    (hbad : ∀ ts d, Plain ts → bad ts d)
    (hrest : ∀ k e b ts s, r.Passes ts s → ts ≠ [] → Orderly ts s.cursor.kind →
      (rest k e b).Goes s n 16 (fun us d => good (ts ++ us) d) fun us d => bad (ts ++ us) d) :
    (do
      let keyword ← onCursor Cursor.advance
      let condition ← reading fun Γ => Expr.parseAt n Γ .default
      let branch ← parseBranchAt n
      rest keyword condition branch).Goes r n 0 good bad := by
  have hinner : r.cursor.kind.Inner := by
    obtain hk | hk := hk <;> rw [hk] <;> decide
  refine Goes.next hc hinner.1 fun s hs => ?_
  have hplain : Plain [r.cursor.current] := Cursor.plain_current hinner.2
  have hcs := hs.tokens.closed hc
  refine Goes.bind (condition_goes hcs) (by decide) ?_
    fun ts _ _ hts => hbad _ _ (hplain.append hts)
  rintro condition es t ht ⟨hes, e, he⟩
  have hhead : Head ([r.cursor.current] ++ es) := by
    obtain hk | hk := hk
    · exact .cond hk he
    · exact .loop hk he
  refine Goes.bind (h.branch t (ht.tokens.closed hcs)) (by omega) ?_ fun _ _ _ h => h.elim
  intro branch ts u hu hts
  have hrest := hrest r.cursor.current condition branch _ u ((hs.trans ht).trans hu) (by simp)
    (hts.behind_head hhead (hplain.append hes))
  refine hrest.mono (by omega) (fun us _ _ h => ?_) fun us _ _ h => ?_
  · simpa using h
  · simpa using h

theorem cond_succ (h : Passed n) (r : Reader) (hc : r.cursor.Closed)
    (hk : r.cursor.kind = .kwIf) : (parseCondAt (n + 1)).Goes r (n + 1) 1
      (fun ts d => ts ≠ [] ∧ Orderly ts d.kind) fun ts d => Orderly ts d.kind := by
  rw [parseCondAt]
  refine Goes.succ (h.headed hc (.inl hk) (fun _ _ h => .whole h.balanced) ?_)
  intro _ _ _ ts s hs hne hts
  refine Goes.bind (h.orElse s (hs.tokens.closed hc)) (by decide) ?_ fun _ _ _ h => h.elim
  rintro _ us t ht ⟨hus, hnil⟩
  refine Goes.after (.onCursor (.spanSince _)) fun _ u hu => .pure ⟨by simp [hne], ?_⟩
  rw [hu.tokens.kind_of_nil, List.append_nil]
  refine hts.append hus fun heof => ?_
  obtain rfl := hnil heof
  exact ⟨rfl, ht.tokens.kind_of_nil.trans heof⟩

theorem loop_succ (h : Passed n) (r : Reader) (hc : r.cursor.Closed)
    (hk : r.cursor.kind = .kwWhile) : (parseLoopAt (n + 1)).Goes r (n + 1) 1
      (fun ts d => ts ≠ [] ∧ Orderly ts d.kind) fun ts d => Orderly ts d.kind := by
  rw [parseLoopAt]
  refine Goes.succ (h.headed hc (.inr hk) (fun _ _ h => .whole h.balanced) ?_)
  intro _ _ _ ts s hs hne hts
  refine Goes.after (.onCursor (.spanSince _)) fun _ u hu => .pure ?_
  rw [hu.tokens.kind_of_nil, List.append_nil]
  exact ⟨hne, hts⟩

theorem func_succ (h : Passed n) (r : Reader) (hc : r.cursor.Closed) (hk : r.cursor.kind.Inner) :
    (parseFuncAt (n + 1)).Goes r (n + 1) 1
      (fun ts d => ts ≠ [] ∧ Orderly ts d.kind) fun ts d => Orderly ts d.kind := by
  rw [parseFuncAt]
  refine Goes.succ (Goes.bind (.reading (parseHeading_treads n r.context) hc hk) (Nat.le_refl 0) ?_
    fun _ _ _ h => .whole h.balanced)
  rintro ⟨keyword, name, heading⟩ ts s hs ⟨hplain, hlen⟩
  refine Goes.after (.declaring fun _ => .declare) fun declared t ht => ?_
  have hct := (hs.trans ht).tokens.closed hc
  have hbody :=
    h.body { t with context := t.context.enterFunction heading.signature.result } heading hct
  refine Goes.bind (.inScope hbody fun _ => .leave_enterFunction) (by omega)
    (fun body us u hu hus => ?_) ?_
  · refine Goes.after (reportSome_idles _) fun _ v hv => ?_
    refine Goes.after (.onCursor (.spanSince _)) fun _ w hw => .pure ⟨?_, ?_⟩
    · rintro hnil
      simp [List.append_eq_nil_iff.1 hnil] at hlen
    · rw [List.append_nil]
      exact hus.orderly.behind hplain
  · intro us u _ hus
    exact hus.orderly.behind hplain

theorem plain_form {p : Parse Reader (Option Stmt)} {k : Nat}
    (h : p.Goes r n k (fun ts _ => Plain ts ∧ 1 ≤ ts.length) fun ts _ => Plain ts) (hk : k ≤ 3) :
    p.Goes r n 3 (fun ts d => ts ≠ [] ∧ r.cursor.kind ≠ .closeCurly ∧ Orderly ts d.kind)
      fun ts d => (r.cursor.kind = .closeCurly → ts = []) ∧ Orderly ts d.kind := by
  have hnil {ts : List Token} {s : Reader} (hs : r.Passes ts s) (hts : Plain ts)
      (hk : r.cursor.kind = .closeCurly) : ts = [] :=
    hs.tokens.nil_of_plain hts (by rw [hk]; decide)
  refine h.mono hk ?_ fun ts s hs hts => ⟨hnil hs hts, .whole hts.balanced⟩
  rintro ts s hs ⟨hts, hlen⟩
  have hne : ts ≠ [] := List.length_pos_iff.1 hlen
  exact ⟨hne, fun hk => hne (hnil hs hts hk), .whole hts.balanced⟩

theorem marked_form {p : Parse Reader (Option Stmt)} (hne : r.cursor.kind ≠ .closeCurly)
    (h : p.Goes r n 1 (fun ts d => ts ≠ [] ∧ Orderly ts d.kind) fun ts d => Orderly ts d.kind) :
    p.Goes r n 3 (fun ts d => ts ≠ [] ∧ r.cursor.kind ≠ .closeCurly ∧ Orderly ts d.kind)
      fun ts d => (r.cursor.kind = .closeCurly → ts = []) ∧ Orderly ts d.kind := by
  exact h.mono (by decide) (fun _ _ _ h => ⟨h.1, hne, h.2⟩)
    fun _ _ _ h => ⟨fun hk => absurd hk hne, h⟩

theorem form_succ (h : Passed n) (r : Reader) (form : Form) (hc : r.cursor.Closed)
    (hform : Form.ofKind r.cursor.kind = form) : (parseFormAt (n + 1) form).Goes r (n + 1) 4
      (fun ts d => ts ≠ [] ∧ r.cursor.kind ≠ .closeCurly ∧ Orderly ts d.kind)
      fun ts d => (r.cursor.kind = .closeCurly → ts = []) ∧ Orderly ts d.kind := by
  have hk := Form.kind_of_ofKind hform
  simp only [parseFormAt]
  refine Goes.succ ?_
  cases form with
  | expression =>
    exact plain_form (.map ((Goes.reading (parseExprStmt_treads n r.context) hc trivial).mono
      (Nat.le_refl 3) (fun _ _ _ h => ⟨h.1, by omega⟩) fun _ _ _ h => h)) (by decide)
  | define => exact plain_form (parseLet_goes hc (by rw [hk]; decide)) (by decide)
  | ret =>
    exact plain_form (.reading (parseReturn_treads n r.context) hc (by rw [hk]; decide)) (by decide)
  | func => exact marked_form (by rw [hk]; decide) (h.func r hc (by rw [hk]; decide))
  | block =>
    refine marked_form (by rw [hk]; decide) (.map ((h.block r hc).mono (Nat.le_refl 1) ?_ ?_))
    · exact fun _ _ _ h => ⟨h.ne_nil, h.orderly⟩
    · exact fun _ _ _ h => h.orderly
  | cond => exact marked_form (by rw [hk]; decide) (h.cond r hc hk)
  | loop => exact marked_form (by rw [hk]; decide) (h.loop r hc hk)
  | typeDecl => exact plain_form (parseTypeDecl_goes hc (by rw [hk]; decide)) (by decide)

theorem stmt_succ (h : Passed n) (r : Reader) (hc : r.cursor.Closed) :
    (parseAt (n + 1)).Goes r (n + 1) 5
      (fun ts d => (ts = [] → d.ahead = []) ∧ Consumes r.cursor.kind ts d.kind)
      fun _ _ => False := by
  rw [parseAt]
  refine Goes.succ (.recovering hc (Goes.look fun kind hk => ?_) (fun _ _ h => h) fun _ _ h => h)
  exact h.form r _ hc (by rw [hk])

theorem succ (h : Passed n) : Passed (n + 1) where
  stmt := h.stmt_succ
  form := h.form_succ
  func := h.func_succ
  body := h.body_succ
  block := h.block_succ
  statements := h.statements_succ
  branch := h.branch_succ
  orElse := h.orElse_succ
  cond := h.cond_succ
  loop := h.loop_succ

theorem all (n : Nat) : Passed n := by
  induction n with
  | zero => exact zero
  | succ n ih => exact ih.succ

end Passed

end Stmt

namespace Program

theorem cons_goes {n : Nat} (ih : ∀ r : Reader, r.cursor.Closed →
      (parseStatementsAt n).Goes r n 6 (fun _ d => d.kind = .eof) fun _ _ => False)
    {r : Reader} (hc : r.cursor.Closed) (hr : r.cursor.kind ≠ .eof) :
    Parse.Goes (do
      let statement ← Stmt.parseAt n
      let rest ← parseStatementsAt n
      return statement.toList ++ rest) r n 5 (fun _ d => d.kind = .eof) fun _ _ => False := by
  refine Goes.bind ((Stmt.Passed.all n).stmt r hc) (Nat.le_refl 5) ?_ fun _ _ _ h => h
  rintro statement ts s hs ⟨hmoves, -⟩
  have hlen : 0 < ts.length := List.length_pos_iff.2 fun hnil => hr (hs.kind_of_end hc hmoves hnil)
  exact Goes.bind (ih s (hs.tokens.closed hc)) (by omega) (fun _ _ _ _ heof => .pure heof)
    fun _ _ _ h => h

theorem parseStatementsAt_goes (n : Nat) (r : Reader) (hc : r.cursor.Closed) :
    (parseStatementsAt n).Goes r n 6 (fun _ d => d.kind = .eof) fun _ _ => False := by
  induction n generalizing r with
  | zero => exact .exhausted
  | succ n ih =>
    rw [parseStatementsAt]
    refine Goes.succ (Goes.look fun kind hk => ?_)
    cases kind with
    | eof => exact .pure hk
    | semicolon =>
      refine Goes.next hc (by simp [hk]) fun s hs => ?_
      exact (ih s (hs.tokens.closed hc)).mono (by decide) (fun _ _ _ h => h) fun _ _ _ h => h
    | _ => exact cons_goes ih hc (by simp [hk])

/-- The run that gives a program has enough fuel, and stands on an end token when it is over. -/
theorem ofTokens_ends (tokens : List Token) (Γ : Context) : ∃ statements ts, ∃ s : Reader,
    parseStatementsAt (fuel ⟨.ofTokens tokens, Γ⟩) ⟨.ofTokens tokens, Γ⟩ = .ok statements s ∧
      s.cursor.kind = .eof ∧ Passes ⟨.ofTokens tokens, Γ⟩ ts s ∧
      ofTokens tokens Γ = (⟨statements, s.context⟩, s.cursor.reported) := by
  obtain ⟨statements, ts, s, hrun, hs, heof⟩ | ⟨_, _, _, _, _, h⟩ :=
    (parseStatementsAt_goes _ ⟨.ofTokens tokens, Γ⟩ (Cursor.closed_ofTokens tokens)).ends
      (by decide) (Nat.le_refl _)
  · refine ⟨statements, ts, s, hrun, heof, hs, ?_⟩
    simp only [ofTokens, hrun]
  · exact h.elim

end Program

theorem Parse.Treads.reading {α : Type} {q : Context → Parse Cursor α} {K : Token.Kind → Prop}
    {n k i : Nat} {r : Reader} (h : (q r.context).Treads K n k i) (hc : r.cursor.Closed)
    (hkind : K r.cursor.kind) (hn : r.fuel ≤ n) (hk : k ≤ 32) :
    ∃ c, (∃ a, Reader.reading q r = .ok a { r with cursor := c }) ∨
      ∃ d, Reader.reading q r = .error d { r with cursor := c } := by
  obtain ⟨a, _, c, hp, _⟩ | ⟨d, _, c, hp, _⟩ := h.ends hc hkind hn hk
  · exact ⟨c, .inl ⟨a, by rw [Reader.reading, hp]⟩⟩
  · exact ⟨c, .inr ⟨d, by rw [Reader.reading, hp]⟩⟩

namespace Program

/-- Reading a statement adds names to the innermost scope, and types and members to their tables,
and leaves the scopes as they are, even where it fails on the way. Reading an expression or a type
changes nothing. -/
theorem scopes_kept (tokens : List Token) (Γ : Context) {r : Reader} {n : Nat}
    (hc : r.cursor.Closed) (hn : r.fuel ≤ n) :
    (∃ statement s, Stmt.parseAt n r = .ok statement s ∧ r.context.Extends s.context ∧
      s.context.depth = r.context.depth) ∧
    (∀ bound, ∃ c, (∃ e, reading (Expr.parseAt n · bound) r = .ok e { r with cursor := c }) ∨
      ∃ d, reading (Expr.parseAt n · bound) r = .error d { r with cursor := c }) ∧
    (∃ c, (∃ t, reading (Ty.parseAt n) r = .ok t { r with cursor := c }) ∨
      ∃ d, reading (Ty.parseAt n) r = .error d { r with cursor := c }) ∧
    Γ.Extends (ofTokens tokens Γ).1.context ∧ (ofTokens tokens Γ).1.context.depth = Γ.depth := by
  refine ⟨?_, fun bound => ?_, ?_, ?_⟩
  · obtain ⟨statement, ts, s, hp, hs, -⟩ | ⟨_, _, _, _, _, h⟩ :=
      ((Stmt.Passed.all n).stmt r hc).ends (by decide) hn
    · exact ⟨statement, s, hp, hs.context, hs.context.depth⟩
    · exact h.elim
  · exact ((Expr.Trodden.all n).expr r.context bound).reading hc trivial hn (by decide)
  · exact ((Ty.Trodden.all n).type r.context).reading hc trivial hn (by decide)
  · obtain ⟨statements, ts, s, -, -, hs, hof⟩ := ofTokens_ends tokens Γ
    rw [hof]
    exact ⟨hs.context, hs.context.depth⟩

/-- `func f() { { let`, which ends two blocks and a function deep. -/
theorem scopes_kept_of_unclosed :
    let ts : List Token := [(.kwFunc, "func"), (.identifier, "f"), (.openParen, "("),
      (.closeParen, ")"), (.openCurly, "\x7b"), (.openCurly, "\x7b"), (.kwLet, "let")].map
      fun (kind, value) => ⟨kind, value, ⟨.nowhere, .nowhere⟩⟩
    let r : Reader := ⟨.ofTokens ts, Context.initial.enter⟩
    r.context.depth = 2 ∧
      ∃ statement s, Stmt.parseAt r.fuel r = .ok statement s ∧ s.context.depth = 2 := by
  intro ts r
  refine ⟨rfl, ?_⟩
  obtain ⟨⟨statement, s, hp, -, hdepth⟩, -⟩ :=
    scopes_kept [] .initial (Cursor.closed_ofTokens ts) (Nat.le_refl r.fuel)
  exact ⟨statement, s, hp, hdepth⟩

end Program

end TypedScript
