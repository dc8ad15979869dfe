import TypedScript.Proofs.Eval.Provenance

namespace TypedScript

theorem Heading.IsTyped.length_boundNames {h : Heading} (ht : h.IsTyped) :
    h.boundNames.length = h.signature.parameters.length + h.receiver.toList.length := by
  rw [ht, boundNames, bindings]
  cases h.receiver <;> simp

theorem Closure.Of.length_parameters {f : Closure} {d : Heading × Block} (hf : f.Of d)
    (hd : d.1.IsTyped) :
    f.parameters.length = f.signature.parameters.length + d.1.receiver.toList.length := by
  rw [hf.parameters, hf.signature, hd.length_boundNames]

theorem length_toList_eq {α β : Type} {x : Option α} {y : Option β} (h : x.isSome = y.isSome) :
    x.toList.length = y.toList.length := by
  cases x <;> cases y <;> first | rfl | cases h

namespace Watched

variable {defs : List (Heading × Block)}

theorem fresh_lt_call (hdefs : ∀ d ∈ defs, d.2.functions ⊆ defs) (n : Nat) (r : Roots)
    (vs : List Value) {v : Value} {f : Closure} {x : Option Value} {σ : Store} (hv : v ∈ r.values)
    (hf : v.asFunction? = some (f, x)) (hσ : (⟨σ, r.plus vs⟩ : Session).Accounted defs)
    (hlen : vs.length = f.parameters.length) :
    σ.fresh < (Eval.call .standard (n + 1) r f vs σ).2.fresh := by
  obtain ⟨-, hgrows⟩ := (Accounts.all hdefs n).body_upheld hdefs r vs hv hf hσ
  have hrun : Eval.call .standard (n + 1) r f vs σ =
      ((observer .standard).call (n + 1) r f vs σ).1 :=
    (congrFun ((recorder.erases .standard (n + 1)).call r f vs) σ).symm
  rw [hrun, Observer.call, if_pos hlen, Recorder.attempt_eq, Recorded.bind_apply, Recorded.attempt]
  generalize (observer .standard).inScope _ _ _ _ σ = y at hgrows
  obtain ⟨⟨(u | e | _) | u, τ⟩, ws⟩ := y <;> exact hgrows

end Watched

namespace Session

variable {defs : List (Heading × Block)} {w : Session}

theorem Accounted.call_refused_iff (h : w.Accounted defs) (hdefs : ∀ d ∈ defs, d.2.functions ⊆ defs)
    {v : Value} {f : Closure} {x : Option Value} (hv : w.Live v) (hf : v.asFunction? = some (f, x))
    {args : List Value} (hargs : ∀ u ∈ args, w.Live u) (n : Nat) :
    Eval.call .standard (n + 1) (w.roots.plus (v :: args)) f (x.toList ++ args) w.store =
        (.error (.failed (.arityMismatch f.parameters.length (x.toList ++ args).length)), w.store) ↔
      (x.toList ++ args).length ≠ f.parameters.length := by
  constructor
  · intro hrefused hlen
    have hheld := h.plus (List.forall_mem_cons.2 ⟨hv, hargs⟩)
    have hreceived : ∀ u ∈ x.toList ++ args,
        (⟨w.store, w.roots.plus (v :: args)⟩ : Session).Live u := by
      intro u hu
      obtain hu | hu := List.mem_append.1 hu
      · cases Value.functions_of_asFunction? hf
        cases x with
        | none => cases hu
        | some r =>
          cases List.mem_singleton.1 hu
          exact .receiver (f := f) (.held List.mem_cons_self)
      · exact .held (List.mem_append_left _ (List.mem_cons_of_mem _ hu))
    have hgrows := Watched.fresh_lt_call hdefs n _ _ List.mem_cons_self hf
      (hheld.plus hreceived) hlen
    rw [hrefused] at hgrows
    exact Nat.lt_irrefl _ hgrows
  · intro hlen
    rw [Eval.call, if_neg hlen]
    rfl

end Session

namespace Program

/-- In every state of programs that are run one after the other in one store, every function that
there is has as many parameters as its type, and one more for its receiver if it has one; without
one, methods are in the table of members only. So a call fails for the number of its arguments,
before a scope is opened for it, exactly if that is not the number of parameters of the function's
type. A call in the body that fails so does it for its own arguments, and later. -/
theorem arity_coherent {programs : List (Program × Bool)}
    (hread : ∀ p ∈ programs, ∃ tokens Γ, p.1 = (ofTokens tokens Γ).1) (fuel : Nat) :
    (∀ (p : Program) w, (p.watched fuel w).1 = p.evaluate .standard fuel w.roots w.store) ∧
    ∀ w ∈ watchedAll fuel .initial programs,
      (∀ {v f r}, w.Live v → v.asFunction? = some (f, r) →
        f.parameters.length = f.signature.parameters.length + r.toList.length ∧
        v.ty = .func f.signature.parameters f.signature.result ∧
        ∀ {args}, (∀ u ∈ args, w.Live u) → ∀ n,
          (Eval.call .standard (n + 1) (w.roots.plus (v :: args)) f (r.toList ++ args) w.store =
              (.error (.failed (.arityMismatch f.parameters.length (r.toList ++ args).length)),
                w.store) ↔
            args.length ≠ f.signature.parameters.length)) ∧
      ∀ {key f r}, w.store.members.get? key = some (.method f r) →
        r = none ∧ f.parameters.length = f.signature.parameters.length + 1 := by
  refine ⟨fun p w => watched_fst fuel w p, fun w hw => ?_⟩
  have h := watchedAll_accounted fuel programs w hw
  have htyped : ∀ d ∈ functionsOf programs, d.1.IsTyped := by
    intro d hd
    obtain ⟨p, hp, hd⟩ := List.mem_flatMap.1 hd
    obtain ⟨tokens, Γ, he⟩ := hread p hp
    exact headed_ofTokens tokens Γ d (he ▸ hd)
  refine ⟨fun {v f r} hv hf => ?_, fun {key f r} hm => ?_⟩
  · have hself : v ∈ v.functions := by
      cases Value.functions_of_asFunction? hf
      rw [Value.functions_ofFunction]
      exact List.mem_cons_self
    obtain ⟨d, hd, hof, hreceiver⟩ := h.live hv v hself f r hf
    have hlen := hof.length_parameters (htyped d hd)
    rw [length_toList_eq hreceiver] at hlen
    refine ⟨hlen, ?_, fun {args} hargs n => ?_⟩
    · cases Value.functions_of_asFunction? hf
      cases r <;> rfl
    · rw [h.call_refused_iff (functionsOf_closed programs) hv hf hargs n, hlen, List.length_append]
      omega
  · obtain ⟨hnone, d, hd, hof, hreceiver⟩ := h.store.members hm
    refine ⟨hnone, ?_⟩
    rw [hof.length_parameters (htyped d hd), length_toList_eq (y := some ()) hreceiver]
    rfl

theorem parse_fst (source : String) (file : Option String) :
    ∃ tokens Γ, (parse source file).1 = (ofTokens tokens Γ).1 := by
  rw [parse]
  split
  · exact ⟨_, _, rfl⟩
  · exact ⟨[], .initial, rfl⟩

/-- A method that is bound to `x` and kept. -/
def boundMethod : String :=
  "func int.plus(n: int) -> int \x7b return this + n; \x7d let x = 5; x.plus;"

theorem arity_coherent_of_method :
    ∃ w ∈ watchedAll 20 .initial [((parse boundMethod none).1, true)], ∃ v f r,
      w.Live v ∧ v.asFunction? = some (f, some r) ∧
      f.parameters.length = f.signature.parameters.length + 1 ∧
      Eval.call .standard 20 (w.roots.plus [v]) f [r] w.store =
        (.error (.failed (.arityMismatch 2 1)), w.store) := by
  have hend : ((watchedAll 20 .initial [((parse boundMethod none).1, true)]).getLast?.any fun w =>
      (w.roots.values.head?.bind Value.asFunction?).any fun x =>
        x.2.isSome && x.1.parameters.length == 2) = true := by decide +kernel
  have hread := parse_fst boundMethod none
  generalize (parse boundMethod none).1 = p at hend hread ⊢
  obtain ⟨w, hw, hend⟩ := (Option.any_eq_true _ _).1 hend
  obtain ⟨⟨f, r⟩, hf, hend⟩ := (Option.any_eq_true _ _).1 hend
  obtain ⟨v, hv, hf⟩ := Option.bind_eq_some_iff.1 hf
  rw [Bool.and_eq_true, beq_iff_eq] at hend
  obtain ⟨hr, htwo⟩ := hend
  obtain ⟨r, rfl⟩ := Option.isSome_iff_exists.1 hr
  have hmem := List.mem_of_getLast? hw
  have hlive : w.Live v := .held (List.mem_of_head? hv)
  obtain ⟨hlen, -, hcall⟩ := ((arity_coherent (List.forall_mem_singleton.2 hread) 20).2 w hmem).1
    hlive hf
  have hone : f.signature.parameters.length = 1 := Nat.succ.inj (hlen.symm.trans htwo)
  have hrefused := (hcall (List.forall_mem_nil _) 19).2 (by rw [hone]; decide)
  refine ⟨w, hmem, v, f, r, hlive, hf, hlen, ?_⟩
  rwa [htwo] at hrefused

end Program

end TypedScript
