/-
Folds over items that name keys, where no two items may name the same key.
-/

import Mathlib.Data.List.Basic
import Mathlib.Data.List.Pairwise

namespace Chapulin.Lib

open List

variable {σ ι κ ρ : Type} {note : σ → ι → σ} {view : σ → ρ} {items : List ι} {start state final : σ}

theorem foldl_keeps (blind : ∀ item ∈ items, ∀ state, view (note state item) = view state) :
    view (items.foldl note start) = view start := by
  induction items generalizing start with
  | nil => rfl
  | cons item items ih =>
    obtain ⟨here,later⟩ := forall_mem_cons.mp blind
    rw [foldl_cons,ih later,here]

/-- What no item apart from this one writes is what this one wrote. -/
theorem foldl_writes {Apart : ι → ι → Prop} {item : ι} {value : ρ} (among : item ∈ items)
    (apart : items.Pairwise Apart) (writes : ∀ state, view (note state item) = value)
    (blind : ∀ other, Apart item other → ∀ state, view (note state other) = view state) :
    view (items.foldl note start) = value := by
  obtain ⟨front,back,rfl⟩ := append_of_mem among
  have behind := (pairwise_cons.mp (pairwise_append.mp apart).2.1).1
  rw [foldl_append,foldl_cons,foldl_keeps fun other later => blind other (behind other later),
    writes]

/-- A step that takes an item exactly when it is judged well and no key it names is held,
and then holds those keys. -/
structure TakesOnce (take : σ → ι → Option σ) (judged : ι → Prop) (names : ι → κ → Prop)
    (held : σ → κ → Prop) (note : σ → ι → σ) : Prop where
  takes : ∀ state item next, take state item = some next ↔
    judged item ∧ (∀ key, names item key → ¬ held state key) ∧ next = note state item
  holds : ∀ state item key, held (note state item) key ↔ held state key ∨ names item key

variable {take : σ → ι → Option σ} {judged : ι → Prop} {names : ι → κ → Prop} {held : σ → κ → Prop}

theorem countP_le_one [∀ item key, Decidable (names item key)] :
    (∀ key, items.countP (fun item => names item key) ≤ 1) ↔
      items.Pairwise (fun item other => ∀ key, names item key → ¬ names other key) := by
  induction items with
  | nil => simp
  | cons item items ih =>
    rw [pairwise_cons,← ih]
    constructor
    · intro once
      refine ⟨fun other later key here again => ?_,fun key => ?_⟩
      · have counted : 0 < items.countP (fun item => names item key) :=
          countP_pos_iff.mpr ⟨other,later,decide_eq_true again⟩
        have atMost := once key
        simp only [countP_cons,here,decide_true,if_true] at atMost
        omega
      · exact Nat.le_trans (sublist_cons_self item items).countP_le (once key)
    · rintro ⟨first,once⟩ key
      by_cases here : names item key
      · have others : items.countP (fun item => names item key) = 0 := countP_eq_zero.mpr
          fun other later again => first other later key here (of_decide_eq_true again)
        simp only [countP_cons,here,others,decide_true,if_true,Nat.le_refl]
      · simpa [countP_cons,here] using once key

/-- All the items are taken exactly when each is judged well and no key is named twice or
was held. -/
theorem TakesOnce.foldlM_eq_some (once : TakesOnce take judged names held note) :
    items.foldlM take state = some final ↔ (∀ item ∈ items, judged item) ∧
      items.Pairwise (fun item other => ∀ key, names item key → ¬ names other key) ∧
      (∀ item ∈ items, ∀ key, names item key → ¬ held state key) ∧
      final = items.foldl note state := by
  induction items generalizing state with
  | nil => simp [eq_comm]
  | cons item items ih =>
    simp only [foldlM_cons,Option.bind_eq_bind,Option.bind_eq_some_iff,once.takes,ih,
      forall_mem_cons,pairwise_cons,foldl_cons]
    constructor
    · rintro ⟨_,⟨here,fresh,rfl⟩,judged,apart,unheld,rfl⟩
      simp only [once.holds,not_or] at unheld
      exact ⟨⟨here,judged⟩,
        ⟨fun other later key named again => (unheld other later key again).2 named,
        apart⟩,⟨fresh,fun other later key named => (unheld other later key named).1⟩,rfl⟩
    · rintro ⟨⟨here,judged⟩,⟨first,apart⟩,⟨fresh,unheld⟩,rfl⟩
      refine ⟨_,⟨here,fresh,rfl⟩,judged,apart,fun other later key named => ?_,rfl⟩
      rw [once.holds,not_or]
      exact ⟨unheld other later key named,fun again => first other later key again named⟩

end Chapulin.Lib
