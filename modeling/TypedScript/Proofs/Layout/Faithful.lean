import Mathlib.Logic.Equiv.Fintype
import TypedScript.Proofs.Layout.Relocate
import TypedScript.Proofs.Layout.Scan

namespace TypedScript

structure Relocation.Faithful (ρ : Relocation) : Prop where
  starts : ρ.starts.Injective
  stops : ρ.stops.Injective

namespace Relocation.Faithful

variable {ρ : Relocation}

theorem span_beq (h : ρ.Faithful) (s t : Span) : (s.relocate ρ == t.relocate ρ) = (s == t) := by
  rw [Bool.eq_iff_iff, beq_iff_eq, beq_iff_eq]
  refine ⟨fun heq => ?_, fun heq => by rw [heq]⟩
  obtain ⟨hstart, hstop⟩ := Span.mk.inj heq
  exact Span.mk.injEq .. ▸ ⟨h.starts hstart, h.stops hstop⟩

theorem ann_beq (h : ρ.Faithful) (a b : Ann) : (a.relocate ρ == b.relocate ρ) = (a == b) := by
  have hsplit (a b : Ann) : (a == b) = (a.ty == b.ty && a.span == b.span) := by
    rw [Bool.eq_iff_iff, Bool.and_eq_true, beq_iff_eq, beq_iff_eq, beq_iff_eq]
    cases a
    cases b
    exact Ann.mk.injEq .. ▸ .rfl
  rw [hsplit, hsplit a b, Ann.relocate, Ann.relocate, h.span_beq]

mutual
theorem expr_beq (h : ρ.Faithful) : ∀ e f : Expr, (e.relocate ρ).beq (f.relocate ρ) = e.beq f
  | .name a x, f => by cases f <;> simp only [Expr.relocate, Expr.beq, h.ann_beq]
  | .literal a v, f => by cases f <;> simp only [Expr.relocate, Expr.beq, h.ann_beq]
  | .unary a op e, f => by cases f <;> simp only [Expr.relocate, Expr.beq, h.ann_beq, expr_beq h e]
  | .binary a op l r, f => by
    cases f <;> simp only [Expr.relocate, Expr.beq, h.ann_beq, expr_beq h l, expr_beq h r]
  | .call a g args, f => by
    cases f <;> simp only [Expr.relocate, Expr.beq, h.ann_beq, expr_beq h g, exprs_beq h args]
  | .assign a x e, f => by cases f <;> simp only [Expr.relocate, Expr.beq, h.ann_beq, expr_beq h e]
  | .step a op before x, f => by cases f <;> simp only [Expr.relocate, Expr.beq, h.ann_beq]
  | .member a e m, f => by cases f <;> simp only [Expr.relocate, Expr.beq, h.ann_beq, expr_beq h e]

theorem exprs_beq (h : ρ.Faithful) : ∀ es fs : List Expr,
    Expr.beqList (Expr.relocateAll ρ es) (Expr.relocateAll ρ fs) = Expr.beqList es fs
  | [], fs => by cases fs <;> simp only [Expr.relocateAll, Expr.beqList]
  | e :: es, fs => by
    cases fs <;> simp only [Expr.relocateAll, Expr.beqList, expr_beq h e, exprs_beq h es]
end

mutual
theorem stmt_beq (h : ρ.Faithful) : ∀ s t : Stmt, (s.relocate ρ).beq (t.relocate ρ) = s.beq t
  | .define x ty e r p, t => by
    cases t <;> simp only [Stmt.relocate, Stmt.beq, h.expr_beq, h.span_beq]
  | .ret e p, t => by cases t <;> simp only [Stmt.relocate, Stmt.beq, h.expr_beq, h.span_beq]
  | .func heading b p, t => by
    cases t <;> simp only [Stmt.relocate, Stmt.beq, block_beq h b, h.span_beq]
  | .block b, t => by cases t <;> simp only [Stmt.relocate, Stmt.beq, block_beq h b]
  | .cond c y n p, t => by
    cases t <;>
      simp only [Stmt.relocate, Stmt.beq, h.expr_beq, stmt_beq h y, stmtOption_beq h n, h.span_beq]
  | .loop c b p, t => by
    cases t <;> simp only [Stmt.relocate, Stmt.beq, h.expr_beq, stmt_beq h b, h.span_beq]
  | .expr e p, t => by cases t <;> simp only [Stmt.relocate, Stmt.beq, h.expr_beq, h.span_beq]
  | .typeDecl x p, t => by cases t <;> simp only [Stmt.relocate, Stmt.beq, h.span_beq]

theorem stmtOption_beq (h : ρ.Faithful) : ∀ s t : Option Stmt,
    Stmt.beqOption (Stmt.relocateOption ρ s) (Stmt.relocateOption ρ t) = Stmt.beqOption s t
  | none, t => by cases t <;> simp only [Stmt.relocateOption, Stmt.beqOption]
  | some s, t => by cases t <;> simp only [Stmt.relocateOption, Stmt.beqOption, stmt_beq h s]

theorem block_beq (h : ρ.Faithful) : ∀ b c : Block, (b.relocate ρ).beq (c.relocate ρ) = b.beq c
  | .mk ss p, .mk ts q => by simp only [Block.relocate, Block.beq, stmts_beq h ss, h.span_beq]

theorem stmts_beq (h : ρ.Faithful) : ∀ ss ts : List Stmt,
    Stmt.beqList (Stmt.relocateAll ρ ss) (Stmt.relocateAll ρ ts) = Stmt.beqList ss ts
  | [], ts => by cases ts <;> simp only [Stmt.relocateAll, Stmt.beqList]
  | s :: ss, ts => by
    cases ts <;> simp only [Stmt.relocateAll, Stmt.beqList, stmt_beq h s, stmts_beq h ss]
end

end Relocation.Faithful

namespace Token

def bare (t : Token) : Kind × String := (t.kind, t.value)

namespace Laid

variable {file : String} {stop : Nat} {ts : List Token}

theorem nodup_starts (h : Laid file stop ts) :
    (ts.map (fun t : Token => t.span.start) ++ [(⟨stop, file⟩ : Position)]).Nodup := by
  have hne {p q : Position} (hlt : p.offset < q.offset) : p ≠ q := fun heq => by
    rw [heq] at hlt
    exact Nat.lt_irrefl _ hlt
  refine List.pairwise_append.2 ⟨List.pairwise_map.2 ?_, List.pairwise_singleton _ _, ?_⟩
  · exact h.order.imp_of_mem fun ht _ hle => hne (Nat.lt_of_lt_of_le (h.solid _ ht) hle)
  · intro p hp q hq
    obtain ⟨t, ht, rfl⟩ := List.mem_map.1 hp
    cases List.mem_singleton.1 hq
    exact hne (Nat.lt_of_lt_of_le (h.solid t ht) (h.before t ht))

theorem nodup_stops (h : Laid file stop ts) : (ts.map fun t => t.span.stop).Nodup := by
  refine List.pairwise_map.2 (h.order.imp_of_mem fun _ hu hle heq => ?_)
  rw [heq] at hle
  exact Nat.not_le_of_lt (h.solid _ hu) hle

end Laid

theorem exists_perm_map {α : Type} {xs ys : List α} (hlen : xs.length = ys.length)
    (hxs : xs.Nodup) (hys : ys.Nodup) : ∃ f : Equiv.Perm α, xs.map f = ys := by
  obtain ⟨f, hf⟩ := Equiv.Perm.exists_extending_pair xs.get (fun i => ys.get (i.cast hlen))
    (List.nodup_iff_injective_get.1 hxs)
    ((List.nodup_iff_injective_get.1 hys).comp (Fin.cast_injective hlen))
  refine ⟨f, List.ext_get (by simpa using hlen) fun i hi hj => ?_⟩
  simpa using hf ⟨i, by simpa using hi⟩

theorem map_relocate_eq {ρ : Relocation} {ts us : List Token} (hbare : ts.map bare = us.map bare)
    (hstarts : ts.map (fun t => ρ.starts t.span.start) = us.map fun u => u.span.start)
    (hstops : ts.map (fun t => ρ.stops t.span.stop) = us.map fun u => u.span.stop) :
    ts.map (relocate ρ) = us := by
  induction ts generalizing us with
  | nil => exact (List.map_eq_nil_iff.1 hbare.symm).symm
  | cons t ts ih =>
    cases us with
    | nil => cases hbare
    | cons u us =>
      obtain ⟨hb, hbare⟩ := List.cons.inj hbare
      obtain ⟨hstart, hstarts⟩ := List.cons.inj hstarts
      obtain ⟨hstop, hstops⟩ := List.cons.inj hstops
      rw [List.map_cons, ih hbare hstarts hstops]
      obtain ⟨hkind, hvalue⟩ := Prod.mk.inj hb
      have hspan : t.span.relocate ρ = u.span := Span.mk.injEq .. ▸ ⟨hstart, hstop⟩
      rw [relocate, hspan, hkind, hvalue]

/-- Of two texts with the same tokens, each is the other at other places. -/
theorem exists_faithful {file file' : String} {stop stop' : Nat} {ts us : List Token}
    (hts : Laid file stop ts) (hus : Laid file' stop' us) (h : ts.map bare = us.map bare) :
    ∃ ρ : Relocation, ρ.Faithful ∧ ts.map (relocate ρ) = us ∧
      ρ.starts ⟨stop, file⟩ = ⟨stop', file'⟩ := by
  have hlen : ts.length = us.length := by simpa using congrArg List.length h
  -- Starts and stops are paired apart: a token may stop where the next one starts.
  obtain ⟨f, hf⟩ := exists_perm_map (by simp [hlen]) hts.nodup_starts hus.nodup_starts
  obtain ⟨g, hg⟩ := exists_perm_map (by simp [hlen]) hts.nodup_stops hus.nodup_stops
  rw [List.map_append, List.map_map] at hf
  rw [List.map_map] at hg
  obtain ⟨hstarts, hend⟩ := List.append_inj hf (by simp [hlen])
  refine ⟨⟨f, g⟩, ⟨f.injective, g.injective⟩, map_relocate_eq h hstarts hg, ?_⟩
  exact List.head_eq_of_cons_eq hend

end Token

end TypedScript
