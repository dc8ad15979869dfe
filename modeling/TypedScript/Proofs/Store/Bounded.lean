import TypedScript.Proofs.Store.Activity
import TypedScript.Proofs.Store.History

/-! How many scopes a store can hold. A collection is due when as many scopes are allocated as
the threshold says, and the threshold follows from what the latest collection left: so all that
can come on top of it is active. -/

namespace TypedScript

namespace Store

section collectAt

variable (σ : Store)

@[simp] theorem vacate_collectAt (id : Slot) : (σ.vacate id).collectAt = σ.collectAt := by
  rw [vacate]; split <;> rfl

@[simp] theorem dropChild_collectAt (parent : Option Slot) :
    (σ.dropChild parent).collectAt = σ.collectAt := by cases parent <;> rfl

@[simp] theorem sweep_collectAt (garbage : List (Nat × Scope)) :
    (σ.sweep garbage).collectAt = σ.collectAt := by
  rw [sweep, foldl_dropChild_keeps garbage Store.collectAt dropChild_collectAt,
    foldl_vacate_keeps garbage Store.collectAt vacate_collectAt]

@[simp] theorem openScope_collectAt (parent : Slot) :
    (σ.openScope parent).2.collectAt = σ.collectAt := by
  rw [openScope]
  cases h : σ.free <;> simp [h, modifyScope]

theorem giveBack_collectAt (roots : Roots) (n : Nat) (id : Slot) :
    (σ.giveBack roots n id).collectAt = σ.collectAt := by
  induction n generalizing σ id with
  | zero => rfl
  | succ n ih =>
    rw [giveBack_succ]
    split
    · rfl
    · split
      · split
        · exact sweep_collectAt σ _
        · rw [ih, sweep_collectAt]
      · rfl

end collectAt

def retire (σ : Store) (roots : Roots) (id : Slot) : Store :=
  match σ.scope? id with
  | none => σ
  | some _ => giveBack roots (σ.live + 1) id (σ.deactivate id)

def collects (σ : Store) (roots : Roots) (id : Slot) : Bool :=
  (σ.scope? id).isSome && (σ.retire roots id).collectAt ≤ (σ.retire roots id).live

theorem close_eq (σ : Store) (roots : Roots) (id : Slot) :
    σ.close roots id =
      if σ.collects roots id then (σ.retire roots id).collect roots else σ.retire roots id := by
  rw [close, collects, retire]
  cases σ.scope? id with
  | none => rfl
  | some s => simp

theorem retire_collectAt (σ : Store) (roots : Roots) (id : Slot) :
    (σ.retire roots id).collectAt = σ.collectAt := by
  rw [retire]
  split
  · rfl
  · exact giveBack_collectAt (σ.deactivate id) roots _ id

/-- The next collection is due at a number of scopes that follows from what the latest one has
left, and fewer scopes than that are idle. -/
structure Thrifty (σ : Store) (survivors : Nat) : Prop where
  collectAt_eq : σ.collectAt = max threshold (2 * survivors)
  live_lt : σ.live < σ.collectAt + σ.activeSlots.card

namespace Thrifty

variable {σ τ : Store} {roots : Roots} {r : Nat}

theorem initial : Store.initial.Thrifty 0 where
  collectAt_eq := rfl
  live_lt := by
    show 1 < 64 + _
    omega

theorem congr (h : σ.Thrifty r) (collectAt : τ.collectAt = σ.collectAt) (live : τ.live = σ.live)
    (activity : τ.activity = σ.activity) : τ.Thrifty r where
  collectAt_eq := collectAt.trans h.collectAt_eq
  live_lt := by
    rw [collectAt, live, activeSlots_congr activity]
    exact h.live_lt

theorem bind (h : σ.Thrifty r) (id : Slot) (name : String) (v : Value) :
    (σ.bind id name v).Thrifty r := h.congr rfl rfl (activity_bind id name v)

theorem openScope (h : σ.Thrifty r) (hf : σ.FreeIsEmpty) (parent : Slot) :
    (σ.openScope parent).2.Thrifty r where
  collectAt_eq := (openScope_collectAt σ parent).trans h.collectAt_eq
  live_lt := by
    have hlt := h.live_lt
    rw [openScope_live, openScope_collectAt, card_activeSlots_openScope hf]
    omega

theorem collect (h : σ.Intact roots) :
    (σ.collect roots).Thrifty (σ.collect roots).occupied.card := by
  have hlive : (σ.collect roots).live = (σ.collect roots).occupied.card := h.collect.1.live_eq
  have hat : (σ.collect roots).collectAt = max (2 * (σ.collect roots).live) threshold := by
    rw [collect_eq]
  have h64 : threshold = 64 := rfl
  constructor
  · rw [hat, hlive, max_comm]
  · omega

theorem close (h : σ.Thrifty r) (hi : σ.Intact roots) (id : Slot) :
    (σ.close roots id).Thrifty
      (if σ.collects roots id then (σ.close roots id).occupied.card else r) := by
  rw [close_eq]
  by_cases hc : σ.collects roots id
  · have hr : (σ.retire roots id).Intact roots := by
      rw [retire]
      split
      · exact hi
      · exact ((hi.deactivate id).giveBack _ id).1
    rw [if_pos hc, if_pos hc]
    exact collect hr
  · rw [if_neg hc, if_neg hc]
    cases hs : σ.scope? id with
    | none =>
      have he : σ.retire roots id = σ := by rw [retire, hs]
      rwa [he]
    | some s =>
      constructor
      · rw [retire_collectAt, h.collectAt_eq]
      · rw [collects, hs] at hc
        simp at hc
        omega

end Thrifty

end Store

namespace Session

def survivorsAfter (w : Session) (op : Op) (w' : Session) (r : Nat) : Nat :=
  match op with
  | .collect => w'.store.occupied.card
  | .release scope => if w.store.collects w.roots scope then w'.store.occupied.card else r
  | _ => r

def survivors (w : Session) (r : Nat) : List Op → Nat
  | [] => r
  | op :: ops => match w.perform op with
    | none => r
    | some w' => survivors w' (w.survivorsAfter op w' r) ops

variable {w w' : Session} {r : Nat}

theorem perform_thrifty (hi : w.Sound) (h : w.store.Thrifty r) {op : Op}
    (hp : w.perform op = some w') : w'.store.Thrifty (w.survivorsAfter op w' r) := by
  cases op with
  | extend parent =>
    obtain ⟨s, hs, rfl⟩ := Option.map_eq_some_iff.1 hp
    exact h.openScope hi.freeIsEmpty parent
  | capture scope =>
    obtain ⟨s, hs, rfl⟩ := Option.map_eq_some_iff.1 hp
    rw [Store.handleFor, hs]
    exact h
  | cloneHandle i =>
    obtain ⟨x, hx, rfl⟩ := Option.map_eq_some_iff.1 hp
    exact h
  | cloneHome i =>
    obtain ⟨v, hi, hp⟩ := Option.bind_eq_some_iff.1 hp
    obtain ⟨⟨f, r⟩, hf, hp⟩ := Option.bind_eq_some_iff.1 hp
    cases hp
    exact h
  | dropHandle i =>
    cases hp
    exact h
  | plain v =>
    rw [perform] at hp
    split at hp <;> cases hp
    exact h
  | function home parameters body signature receiver =>
    obtain ⟨x, hx, hp⟩ := Option.bind_eq_some_iff.1 hp
    obtain ⟨r, hr, hp⟩ := Option.bind_eq_some_iff.1 hp
    cases hp
    exact h.congr rfl rfl rfl
  | cloneValue i =>
    obtain ⟨v, hv, rfl⟩ := Option.map_eq_some_iff.1 hp
    exact h
  | cloneReceiver i =>
    obtain ⟨v, hi, hp⟩ := Option.bind_eq_some_iff.1 hp
    obtain ⟨⟨f, r⟩, hf, hp⟩ := Option.bind_eq_some_iff.1 hp
    obtain ⟨u, hu, rfl⟩ := Option.map_eq_some_iff.1 hp
    exact h
  | dropValue i =>
    cases hp
    exact h
  | release scope =>
    cases hp
    exact h.close hi scope
  | collect =>
    cases hp
    exact .collect hi
  | define scope name i =>
    obtain ⟨v, hv, rfl⟩ := Option.map_eq_some_iff.1 hp
    exact h.bind scope name v
  | assign scope name i =>
    obtain ⟨v, hv, rfl⟩ := Option.map_eq_some_iff.1 hp
    obtain ⟨found, he⟩ | he := rebind?_getD w.store scope name v
    · rw [he]
      exact h.bind found name v
    · rw [he]
      exact h
  | get scope name =>
    obtain ⟨v, hv, rfl⟩ := Option.map_eq_some_iff.1 hp
    exact h
  | setField ty name i =>
    obtain ⟨v, hv, rfl⟩ := Option.map_eq_some_iff.1 hp
    exact h.congr rfl rfl rfl
  | setMethod ty name i =>
    obtain ⟨v, hi, hp⟩ := Option.bind_eq_some_iff.1 hp
    obtain ⟨⟨f, r⟩, hf, hp⟩ := Option.bind_eq_some_iff.1 hp
    cases hp
    exact h.congr rfl rfl rfl
  | member i ty name =>
    obtain ⟨r, hr, hp⟩ := Option.bind_eq_some_iff.1 hp
    obtain ⟨⟨v, store⟩, hm, hp⟩ := Option.bind_eq_some_iff.1 hp
    cases hp
    rw [Store.member?] at hm
    split at hm <;> cases hm
    · exact h
    · exact h.congr rfl rfl rfl

theorem run_thrifty (hi : w.Sound) (h : w.store.Thrifty r) {ops : List Op}
    (hr : w.run ops = some w') : w'.store.Thrifty (w.survivors r ops) := by
  induction ops generalizing w r with
  | nil =>
    cases hr
    exact h
  | cons op ops ih =>
    obtain ⟨u, hu, hr⟩ := Option.bind_eq_some_iff.1 hr
    rw [survivors, hu]
    exact ih (perform_sound hi hu).1 (perform_thrifty hi h hu) hr

/-- Whatever has been done, fewer scopes are allocated than the active ones and twice what the
latest collection has left, or 64 if that is more. -/
theorem allocated_bounded (ops : List Op) {w : Session} (hr : initial.run ops = some w) :
    w.store.occupied.card <
      max 64 (2 * initial.survivors 0 ops) + w.store.activeSlots.card := by
  have h := run_thrifty initial_sound .initial hr
  have hlt := h.live_lt
  rw [h.collectAt_eq, (run_sound initial_sound hr).1.live_eq] at hlt
  exact hlt

/-- Of the two finished scopes a collection leaves one; then another scope is opened. -/
theorem allocated_bounded_twoLoops :
    ∃ w, initial.run (twoLoops ++ [.collect, .extend ⟨0⟩]) = some w ∧
      initial.survivors 0 (twoLoops ++ [.collect, .extend ⟨0⟩]) = 2 ∧
      w.store.occupied.card = 3 ∧ w.store.activeSlots.card = 2 ∧
      w.store.occupied.card < max 64 (2 * 2) + w.store.activeSlots.card :=
  ⟨_, rfl, rfl, rfl, rfl, allocated_bounded (twoLoops ++ [.collect, .extend ⟨0⟩]) rfl⟩

end Session

end TypedScript
