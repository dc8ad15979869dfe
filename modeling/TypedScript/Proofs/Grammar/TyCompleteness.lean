import TypedScript.Proofs.Grammar.ExprCompleteness
import TypedScript.Proofs.Grammar.Stmt

namespace TypedScript

open Parse Grammar

namespace Ty

variable {Γ : Context}

theorem resolve_yields {x : Token} {t : Ty} (h : Γ.types.get? x.value = some t)
    (F : Token.Kind → Prop) : (resolve Γ x).Yields [] F (· = t) := by
  rw [resolve, Context.typeNamed, h]
  exact .pure rfl

end Ty

namespace Grammar

open Ty

variable {Γ : Context} {T : String → Option Ty}

theorem Annotates.begins {us : List Token} {t : Ty} (h : Annotates T us t) :
    ∃ x vs, us = x :: vs ∧ x.kind ≠ .closeParen := by
  cases h with
  | name hx _ => exact ⟨_, _, rfl, by rw [hx]; nofun⟩
  | func hk _ _ _ _ => exact ⟨_, _, rfl, by rw [hk]; nofun⟩

mutual
theorem Annotates.yields : ∀ {us : List Token} {t : Ty}, Annotates Γ.types.get? us t →
    ∀ {n : Nat}, 16 * us.length ≤ n → (parseAt n Γ).Yields us (· ≠ .arrow) (· = t)
  | _, _, .name (x := x) hx ht, n, hn => by
    obtain ⟨n, rfl⟩ : ∃ m, n = m + 1 := ⟨n - 1, by simp at hn; omega⟩
    rw [parseAt]
    refine Yields.look fun k hk => ?_
    obtain rfl : k = x.kind := hk
    rw [hx]
    exact Yields.token (.expect hx) (resolve_yields ht _)
  | _, _, .func (k := k) hk ho hps hc hr, n, hn => by
    obtain ⟨n, rfl⟩ : ∃ m, n = m + 2 := ⟨n - 2, by simp at hn; omega⟩
    simp only [List.length_append, List.length_cons] at hn
    rw [parseAt, parseFunctionAt]
    refine Yields.look fun kind hkind => ?_
    obtain rfl : kind = k.kind := hkind
    rw [hk]
    refine Yields.token (.expect hk) (Yields.token (.expect ho) ?_)
    refine Yields.bind (hps.yields (by omega)) (fun kind hkind => Eq.trans hkind hc) ?_
    rintro _ rfl
    refine Yields.token (.expect hc) (Yields.andThen (hr.yields (by omega)) ?_)
    rintro _ rfl
    exact .pure rfl

theorem AnnotatesAll.yields : ∀ {us : List Token} {ts : List Ty},
    AnnotatesAll Γ.types.get? us ts → ∀ {n : Nat}, 16 * us.length < n →
      (parseListAt n Γ).Yields us (· = .closeParen) (· = ts)
  | _, _, .none, n, hn => by
    obtain ⟨n, rfl⟩ : ∃ m, n = m + 1 := ⟨n - 1, by omega⟩
    rw [parseListAt]
    refine Yields.look fun k hk => ?_
    obtain rfl : k = .closeParen := hk
    exact .pure rfl
  | _, _, .last h, n, hn => by
    obtain ⟨n, rfl⟩ : ∃ m, n = m + 1 := ⟨n - 1, by omega⟩
    obtain ⟨x, vs, hus, hx⟩ := h.begins
    rw [parseListAt]
    refine Yields.look fun k hk => ?_
    rw [hus] at hk
    rw [if_neg fun hclose => hx (hk.symm.trans hclose)]
    refine Yields.andThen ((h.yields (by omega)).mono ?_ fun _ => id) ?_
    · rintro _ rfl
      nofun
    · rintro _ rfl
      refine Yields.look fun k hk => ?_
      obtain rfl : k = .closeParen := hk
      exact .pure rfl
  | _, _, .more h hk hs, n, hn => by
    rw [List.length_append, List.length_cons] at hn
    obtain ⟨n, rfl⟩ : ∃ m, n = m + 1 := ⟨n - 1, by omega⟩
    obtain ⟨x, vs, hus, hx⟩ := h.begins
    rw [parseListAt]
    refine Yields.look fun kind hkind => ?_
    rw [hus] at hkind
    rw [if_neg fun hclose => hx (hkind.symm.trans hclose)]
    refine Yields.bind (h.yields (by omega)) ?_ ?_
    · intro kind hkind
      obtain rfl : kind = .comma := Eq.trans hkind hk
      nofun
    · rintro _ rfl
      refine Yields.look fun kind hkind => ?_
      obtain rfl : kind = .comma := Eq.trans hkind hk
      refine Yields.token (.expect hk) (Yields.andThen (hs.yields (by omega)) ?_)
      rintro _ rfl
      exact .pure rfl

theorem Returns.yields : ∀ {us : List Token} {t : Ty}, Returns Γ.types.get? us t →
    ∀ {n : Nat}, 16 * us.length < n → (parseResultAt n Γ).Yields us (· ≠ .arrow) (· = t)
  | _, _, .void, n, hn => by
    obtain ⟨n, rfl⟩ : ∃ m, n = m + 1 := ⟨n - 1, by omega⟩
    rw [parseResultAt]
    refine Yields.look fun k hk => ?_
    rw [if_neg hk]
    exact .pure rfl
  | _, _, .type (k := k) hk h, n, hn => by
    rw [List.length_cons] at hn
    obtain ⟨n, rfl⟩ : ∃ m, n = m + 1 := ⟨n - 1, by omega⟩
    rw [parseResultAt]
    refine Yields.look fun kind hkind => ?_
    rw [if_pos (Eq.trans hkind hk)]
    exact Yields.token (.advance k) (h.yields (by omega))
end

end Grammar

end TypedScript
