import TypedScript.Proofs.Grammar.StmtSoundness
import TypedScript.Proofs.Grammar.TyCompleteness
import TypedScript.Proofs.Static.Retype
import TypedScript.Proofs.Token.Written

namespace TypedScript

namespace Token.Scans

open Pattern (table isWordChar)

variable {rest : List Char} {ts : List (Kind × String)}

theorem word {word : String} (h : Pattern.name.Matches word.toList)
    (hrest : ∀ c ∈ rest.head?, isWordChar c = false) (hs : Scans rest ts) :
    Scans (word.toList ++ rest) (((Kind.ofReserved? word).getD .identifier, word) :: ts) := by
  refine token (Pattern.first?_of_matches (by decide) h hrest nofun) ?_ hs
  rw [ofLexeme?, String.ofList_toList]

theorem sign (kind : Kind) (sign : String) (h : .fixed kind sign ∈ table)
    (halone : ∀ q ∈ table, sign.toList <+: q.sign → q.sign = sign.toList) (hs : Scans rest ts) :
    Scans (sign.toList ++ rest) ((kind, sign) :: ts) := by
  refine token (Pattern.first?_of_matches h rfl trivial fun _ c _ q hq hmore => ?_) rfl hs
  have heq := halone q hq ((List.prefix_append _ _).trans hmore)
  have hlen := hmore.length_le
  rw [heq, List.length_append, List.length_singleton] at hlen
  omega

theorem space (hrest : ∀ c ∈ rest.head?, Text.isBlank c = false) (hs : Scans rest ts) :
    Scans (' ' :: rest) ts :=
  blanks (List.forall_mem_singleton.2 (by decide)) hrest hs

end Token.Scans

structure Ty.Named (d : Dict String Ty) (word : String) (ty : Ty) : Prop where
  identifier : Pattern.name.Matches word.toList
  free : Token.Kind.ofReserved? word = none
  stands : d.get? word = some ty

namespace Context

theorem Made.types_induction {P : Dict String Ty → Prop} (hinitial : P Context.initial.types)
    (hdeclare : ∀ d name, P d → d.contains name = false → P (d.insert name (.named name)))
    {Γ : Context} (h : Γ.Made) : P Γ.types := by
  induction h with
  | initial => exact hinitial
  | enter _ ih | enterFunction _ _ ih => exact ih
  | leave _ ih =>
    rw [Context.leave]
    split <;> exact ih
  | bind _ _ _ _ hd ih =>
    rw [Context.bind] at hd
    split at hd <;> cases hd
    exact ih
  | declareType _ _ _ _ hd ih =>
    rw [Context.declareType] at hd
    split at hd <;> cases hd
    rename_i hnew
    exact hdeclare _ _ ih (by simpa using hnew)
  | bindMember _ _ _ _ _ hd ih =>
    rw [Context.bindMember] at hd
    split at hd <;> cases hd
    exact ih

structure NamesTypes (d : Dict String Ty) : Prop where
  builtin : ∀ {x t}, Ty.builtin? x = some t → d.get? x = some t
  own : ∀ {x t}, d.get? x = some t → t = (Ty.builtin? x).getD (.named x)

theorem namesTypes_initial : NamesTypes initial.types where
  builtin {x t} h := by
    rw [Ty.builtin?.eq_def] at h
    split at h <;> cases h <;> decide
  own {x t} h := by
    have hentries : initial.types.entries = [("int", Ty.int), ("float", .float),
        ("string", .string), ("bool", .bool), ("void", .void)] := by decide
    simp only [Dict.get?, hentries, Dict.find] at h
    split_ifs at h with hx hx hx hx hx <;> cases h <;> cases hx <;> rfl

theorem Made.namesTypes {Γ : Context} (h : Γ.Made) : NamesTypes Γ.types := by
  refine h.types_induction namesTypes_initial fun d name hd hnew => ⟨fun {x t} hx => ?_, ?_⟩
  · have hget := hd.builtin hx
    rw [Dict.get?_insert_of_ne, hget]
    rintro rfl
    rw [Dict.contains, hget] at hnew
    cases hnew
  · intro x t hx
    rw [Dict.get?_insert] at hx
    split at hx
    · rename_i heq
      subst heq
      cases hx
      cases hbuiltin : Ty.builtin? name with
      | none => rfl
      | some b =>
        rw [Dict.contains, hd.builtin hbuiltin] at hnew
        cases hnew
    · exact hd.own hx

theorem NamesTypes.named {d : Dict String Ty} (hd : NamesTypes d) {x : String} {t : Ty}
    (h : Ty.builtin? x = some t) : Ty.Named d x t := by
  refine ⟨?_, ?_, hd.builtin h⟩
  all_goals
    rw [Ty.builtin?.eq_def] at h
    split at h <;> cases h
  all_goals first | rfl | exact Pattern.matches_name (by decide) (by decide)

def joined (Γ Δ : Context) : Context := { Γ with types := ⟨Γ.types.entries ++ Δ.types.entries⟩ }

section

variable {Γ Δ : Context} {x : String} {t : Ty}

theorem get?_joined : (Γ.joined Δ).types.get? x = (Γ.types.get? x).or (Δ.types.get? x) :=
  Dict.find_append _ _ _

theorem get?_joined_left (h : Γ.types.get? x = some t) : (Γ.joined Δ).types.get? x = some t := by
  rw [get?_joined, h, Option.some_or]

theorem get?_joined_right (hΓ : NamesTypes Γ.types) (hΔ : NamesTypes Δ.types)
    (h : Δ.types.get? x = some t) : (Γ.joined Δ).types.get? x = some t := by
  cases hx : Γ.types.get? x with
  | none => rw [get?_joined, hx, Option.none_or, h]
  | some s => rw [get?_joined_left hx, hΓ.own hx, hΔ.own h]

theorem NamesTypes.joined (hΓ : NamesTypes Γ.types) (hΔ : NamesTypes Δ.types) :
    NamesTypes (Γ.joined Δ).types where
  builtin h := get?_joined_left (hΓ.builtin h)
  own h := by
    rw [get?_joined, Option.or_eq_some_iff] at h
    obtain h | ⟨-, h⟩ := h
    · exact hΓ.own h
    · exact hΔ.own h

end

end Context

namespace Ty

open Context (NamesTypes)

mutual
/-- The type has a text that means it where `d` says which names stand for types: `never` is not
in it, and the names in it are declared. -/
def IsWritable (d : Dict String Ty) : Ty → Prop
  | int | float | string | bool | void => True
  | never => False
  | func ps r => AreWritable d ps ∧ IsWritable d r
  | named n => Named d n (named n)

def AreWritable (d : Dict String Ty) : List Ty → Prop
  | [] => True
  | t :: ts => IsWritable d t ∧ AreWritable d ts
end

mutual
def words : Ty → List (Token.Kind × String)
  | func ps r => (.kwFunc, "func") :: (.openParen, "(") :: listWords ps ++
    (.closeParen, ")") :: (.arrow, "->") :: words r
  | ty => [(.identifier, ty.text)]

def listWords : List Ty → List (Token.Kind × String)
  | [] => []
  | [a] => words a
  | a :: b :: as => words a ++ (.comma, ",") :: listWords (b :: as)
end

section

variable {d e : Dict String Ty} {ty : Ty}

theorem IsWritable.named (hd : NamesTypes d) (h : ty.IsWritable d)
    (hname : ∀ ps r, ty ≠ func ps r) : Named d ty.text ty := by
  cases ty with
  | int | float | string | bool | void => exact hd.named rfl
  | never => exact h.elim
  | func ps r => exact absurd rfl (hname ps r)
  | named n => exact h

mutual
theorem IsWritable.mono (hde : ∀ {x t}, d.get? x = some t → e.get? x = some t) :
    ∀ {ty : Ty}, ty.IsWritable d → ty.IsWritable e
  | int, h | float, h | string, h | bool, h | void, h | never, h => h
  | func _ _, h => ⟨h.1.mono hde, h.2.mono hde⟩
  | .named _, h => ⟨h.identifier, h.free, hde h.stands⟩

theorem AreWritable.mono (hde : ∀ {x t}, d.get? x = some t → e.get? x = some t) :
    ∀ {ts : List Ty}, AreWritable d ts → AreWritable e ts
  | [], _ => trivial
  | _ :: _, h => ⟨h.1.mono hde, h.2.mono hde⟩
end

theorem IsWritable.head_not_blank (hd : NamesTypes d) (h : ty.IsWritable d) :
    ∃ c cs, ty.text.toList = c :: cs ∧ Text.isBlank c = false := by
  by_cases hname : ∀ ps r, ty ≠ func ps r
  · obtain ⟨hidentifier, hfree, -⟩ := h.named hd hname
    exact (Token.Spelled.identifier hidentifier (by rwa [String.ofList_toList])).head_not_blank
  · push Not at hname
    obtain ⟨ps, r, rfl⟩ := hname
    have htext : (func ps r).text.toList = 'f' :: ['u', 'n', 'c', '('] ++
        (listText ps ++ (") -> " ++ r.text)).toList := by
      rw [text, String.append_assoc, String.append_assoc, String.toList_append]
      rfl
    exact ⟨'f', _, htext, by decide⟩

theorem Named.scans {word : String} (h : Named d word ty) {rest : List Char}
    {ts : List (Token.Kind × String)} (hrest : ∀ c ∈ rest.head?, Pattern.isWordChar c = false)
    (hs : Token.Scans rest ts) :
    Token.Scans (word.toList ++ rest) ([(.identifier, word)] ++ ts) := by
  have hword := hs.word h.identifier hrest
  rwa [h.free] at hword

theorem IsWritable.scans_space (hd : NamesTypes d) (h : ty.IsWritable d) {cs : List Char}
    {ts : List (Token.Kind × String)} (hcs : ty.text.toList <+: cs) (hs : Token.Scans cs ts) :
    Token.Scans (' ' :: cs) ts := by
  obtain ⟨rest, rfl⟩ := hcs
  obtain ⟨c, ds, hds, hc⟩ := h.head_not_blank hd
  refine hs.space fun e he => ?_
  rw [hds] at he
  cases he
  exact hc

theorem text_prefix_listText (a : Ty) (as : List Ty) :
    a.text.toList <+: (listText (a :: as)).toList := by
  cases as with
  | nil => exact List.prefix_rfl
  | cons b as =>
    rw [listText, String.append_assoc, String.toList_append]
    exact List.prefix_append _ _

mutual
theorem IsWritable.scans (hd : NamesTypes d) : ∀ {ty : Ty}, ty.IsWritable d →
    ∀ {rest : List Char} {ts : List (Token.Kind × String)},
      (∀ c ∈ rest.head?, Pattern.isWordChar c = false) → Token.Scans rest ts →
      Token.Scans (ty.text.toList ++ rest) (ty.words ++ ts)
  | func ps r, h, rest, ts, hrest, hs => by
    -- Token by token, from the end of the text to its front.
    have hresult := h.2.scans_space hd (List.prefix_append _ rest) (h.2.scans hd hrest hs)
    have harrow := (hresult.sign .arrow "->" (by decide) (by decide)).space (by simp; decide)
    have hclose := harrow.sign .closeParen ")" (by decide) (by decide)
    have hopen := (h.1.scans hd hclose).sign .openParen "(" (by decide) (by decide)
    have hfunc : Token.Scans ("func".toList ++ _) ((.kwFunc, "func") :: _) :=
      hopen.word (Pattern.matches_name (by decide) (by decide)) (by simp; decide)
    simpa [text, words] using hfunc
  | int, h, _, _, hrest, hs | float, h, _, _, hrest, hs | string, h, _, _, hrest, hs
  | bool, h, _, _, hrest, hs | void, h, _, _, hrest, hs | never, h, _, _, hrest, hs
  | .named _, h, _, _, hrest, hs => (h.named hd nofun).scans hrest hs

theorem AreWritable.scans (hd : NamesTypes d) : ∀ {ps : List Ty}, AreWritable d ps →
    ∀ {rest : List Char} {ts : List (Token.Kind × String)}, Token.Scans (')' :: rest) ts →
      Token.Scans ((listText ps).toList ++ ')' :: rest) (listWords ps ++ ts)
  | [], _, _, _, hs => hs
  | [_], h, _, _, hs => h.1.scans hd (by simp; decide) hs
  | a :: b :: as, h, rest, ts, hs => by
    have hmore := h.2.1.scans_space hd ((text_prefix_listText b as).trans (List.prefix_append _ _))
      (h.2.scans hd hs)
    have hcomma := hmore.sign .comma "," (by decide) (by decide)
    have hall := h.1.scans hd (by simp; decide) hcomma
    simpa [listText, listWords] using hall
end

open Grammar (Annotates AnnotatesAll)

theorem Named.annotates {word : String} (h : Named d word ty) {us : List Token}
    (hus : us.map Token.bare = [(.identifier, word)]) : Annotates d.get? us ty := by
  obtain ⟨x, rfl, hx⟩ := List.map_eq_singleton_iff.1 hus
  obtain ⟨hkind, rfl⟩ := Prod.mk.inj hx
  exact .name hkind h.stands

mutual
theorem IsWritable.annotates (hd : NamesTypes d) : ∀ {ty : Ty}, ty.IsWritable d →
    ∀ {us : List Token}, us.map Token.bare = ty.words → Annotates d.get? us ty
  | func ps r, h, us, hus => by
    rw [words, List.cons_append, List.cons_append] at hus
    obtain ⟨k, _, rfl, hk, hus⟩ := List.map_eq_cons_iff.1 hus
    obtain ⟨o, _, rfl, ho, hus⟩ := List.map_eq_cons_iff.1 hus
    obtain ⟨vs, _, rfl, hvs, hus⟩ := List.map_eq_append_iff.1 hus
    obtain ⟨c, _, rfl, hc, hus⟩ := List.map_eq_cons_iff.1 hus
    obtain ⟨a, rs, rfl, ha, hrs⟩ := List.map_eq_cons_iff.1 hus
    exact .func (Prod.mk.inj hk).1 (Prod.mk.inj ho).1 (h.1.annotates hd hvs) (Prod.mk.inj hc).1
      (.type (Prod.mk.inj ha).1 (h.2.annotates hd hrs))
  | int, h, _, hus | float, h, _, hus | string, h, _, hus | bool, h, _, hus | void, h, _, hus
  | never, h, _, hus | .named _, h, _, hus => (h.named hd nofun).annotates hus

theorem AreWritable.annotates (hd : NamesTypes d) : ∀ {ps : List Ty}, AreWritable d ps →
    ∀ {us : List Token}, us.map Token.bare = listWords ps → AnnotatesAll d.get? us ps
  | [], _, us, hus => by
    obtain rfl := List.map_eq_nil_iff.1 hus
    exact .none
  | [_], h, _, hus => .last (h.1.annotates hd hus)
  | a :: b :: as, h, us, hus => by
    rw [listWords] at hus
    obtain ⟨vs, _, rfl, hvs, hus⟩ := List.map_eq_append_iff.1 hus
    obtain ⟨k, ws, rfl, hk, hws⟩ := List.map_eq_cons_iff.1 hus
    exact .more (h.1.annotates hd hvs) (Prod.mk.inj hk).1 (h.2.annotates hd hws)
end

theorem IsWritable.reads {Γ : Context} (hΓ : NamesTypes Γ.types) (h : ty.IsWritable Γ.types)
    (name : Option String) : ∃ ts, Token.scan ty.text name = .ok ts ∧
      ∀ n, (Cursor.ofTokens ts).fuel ≤ n →
        ∃ c, parseAt n Γ (.ofTokens ts) = .ok ty c ∧ c.kind = .eof := by
  have hscans : Token.Scans ty.text.toList ty.words := by
    have hall := h.scans hΓ (by simp) .nil
    rwa [List.append_nil, List.append_nil] at hall
  obtain ⟨us, last, hscan, hus, hlast⟩ := hscans.scan_eq name
  have heof : last.kind = .eof := (Prod.mk.inj hlast).1
  refine ⟨us ++ [last], hscan, fun n hn => ?_⟩
  rw [Cursor.ofTokens_append heof] at hn ⊢
  have hlen : 16 * us.length ≤ n := by
    have := congrArg List.length (Cursor.upcoming_start us last)
    simp only [Cursor.upcoming, List.length_append, List.length_cons, List.length_nil] at this
    rw [Cursor.fuel] at hn
    omega
  obtain ⟨_, c, hread, hreaches, rfl⟩ := ((h.annotates hΓ hus).yields hlen).run
    (Cursor.upcoming_start us last) (by rw [heof]; decide)
  refine ⟨c, hread, ?_⟩
  have hat := hreaches.upcoming
  rw [Cursor.upcoming_start, List.append_cancel_left_eq, Cursor.upcoming] at hat
  rw [Cursor.kind, ← (List.cons.inj hat).1, heof]

theorem IsWritable.eq_of_text_eq {Γ : Context} (hΓ : NamesTypes Γ.types) {other : Ty}
    (h : ty.IsWritable Γ.types) (hother : other.IsWritable Γ.types)
    (htext : other.text = ty.text) : other = ty := by
  obtain ⟨ts, hscan, hread⟩ := h.reads hΓ none
  obtain ⟨us, hscan', hread'⟩ := hother.reads hΓ none
  rw [htext, hscan] at hscan'
  cases hscan'
  obtain ⟨c, hc, -⟩ := hread _ (Nat.le_refl _)
  obtain ⟨c', hc', -⟩ := hread' _ (Nat.le_refl _)
  rw [hc] at hc'
  cases hc'
  rfl

/-- The text of a type says which it is. It is scanned, and what is read from the tokens is the type
itself, up to the end; and no other type has it, whatever names that one is made of. -/
theorem text_faithful {Γ : Context} (hΓ : Γ.Made) (h : ty.IsWritable Γ.types) :
    (∀ name, ∃ ts, Token.scan ty.text name = .ok ts ∧ ∀ n, (Cursor.ofTokens ts).fuel ≤ n →
      ∃ c, parseAt n Γ (.ofTokens ts) = .ok ty c ∧ c.kind = .eof) ∧
    ∀ Δ : Context, Δ.Made → ∀ other : Ty, other.IsWritable Δ.types → other.text = ty.text →
      other = ty := by
  refine ⟨h.reads hΓ.namesTypes, fun Δ hΔ other hother htext => ?_⟩
  -- Both are read where the names of both are known.
  have hleft : ty.IsWritable (Γ.joined Δ).types := h.mono Context.get?_joined_left
  have hright : other.IsWritable (Γ.joined Δ).types :=
    hother.mono (Context.get?_joined_right hΓ.namesTypes hΔ.namesTypes)
  exact hleft.eq_of_text_eq (hΓ.namesTypes.joined hΔ.namesTypes) hright htext

theorem text_faithful_of_nested :
    let Γ : Context :=
      { Context.initial with types := Context.initial.types.insert "Meters" (named "Meters") }
    let ty := func [func [] void, named "Meters"] (func [int] float)
    Γ.Made ∧ ty.IsWritable Γ.types ∧
    ty.text = "func(func() -> void, Meters) -> func(int) -> float" ∧
    ∃ ts, Token.scan "func(func() -> void, Meters) -> func(int) -> float" none = .ok ts ∧
      ∃ c, parseAt (Cursor.ofTokens ts).fuel Γ (.ofTokens ts) = .ok ty c ∧ c.kind = .eof := by
  intro Γ ty
  have hΓ : Γ.Made := .declareType "Meters" (named "Meters") .nowhere .initial rfl
  have hMeters : Named Γ.types "Meters" (named "Meters") :=
    ⟨Pattern.matches_name (by decide) (by decide), by decide, by decide⟩
  have hty : ty.IsWritable Γ.types :=
    ⟨⟨⟨trivial, trivial⟩, hMeters, trivial⟩, ⟨trivial, trivial⟩, trivial⟩
  have htext : ty.text = "func(func() -> void, Meters) -> func(int) -> float" := by decide
  obtain ⟨ts, hscan, hread⟩ := (text_faithful hΓ hty).1 none
  rw [htext] at hscan
  exact ⟨hΓ, hty, htext, ts, hscan, hread _ (Nat.le_refl _)⟩

end

end Ty

end TypedScript
