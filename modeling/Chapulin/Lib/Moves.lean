/-
Computations that go by steps of a relation.

What a stateful function may do to its state is said once, as a relation between
states, and a function goes by it when each of its runs is a sequence of such
steps, with one stop at the end of a run that does not return.  An invariant of
the relation is then one of every function that goes by it.
-/

import Mathlib.Logic.Relation
import Chapulin.Lib.Proc

namespace Chapulin.Lib.Proc

open Relation

variable {σ τ ε α β : Type}

/-- The computation returns after steps, or stops by `stop` from a state it
stepped to. -/
def Moves (step : σ → σ → Prop) (stop : ε → σ → σ → Prop) (proc : Proc σ ε α) : Prop :=
  ∀ state, Ends (fun _ next => ReflTransGen step state next)
    (fun code next => ∃ last, ReflTransGen step state last ∧ stop code last next) (proc state)

section Rules

variable {step : σ → σ → Prop} {stop : ε → σ → σ → Prop}

theorem moves_pure (value : α) : Moves step stop (pure value : Proc σ ε α) := fun _ => .refl

theorem moves_get : Moves step stop (get : Proc σ ε σ) := fun _ => .refl

theorem moves_stop {code : ε} (stays : ∀ state, stop code state state) :
    Moves step stop (Proc.stop code : Proc σ ε α) := fun state => ⟨state,.refl,stays state⟩

theorem moves_modify {edit : σ → σ} (steps : ∀ state, ReflTransGen step state (edit state)) :
    Moves step stop (modify edit : Proc σ ε Unit) := steps

theorem Moves.after {proc : Proc σ ε α} (moves : Moves step stop proc) {state middle : σ}
    (steps : ReflTransGen step state middle) :
    Ends (fun _ next => ReflTransGen step state next)
      (fun code next => ∃ last, ReflTransGen step state last ∧ stop code last next)
      (proc middle) := by
  have went := moves middle
  rcases ran : proc middle with ⟨result,next⟩
  rw [ran] at went
  cases result with
  | error code =>
    obtain ⟨last,more,stopped⟩ := went
    exact ⟨last,steps.trans more,stopped⟩
  | ok value => exact ReflTransGen.trans steps went

/-- Acts in sequence make the steps of the first, then those of the second. -/
theorem Moves.bind {first : Proc σ ε α} {rest : α → Proc σ ε β} (head : Moves step stop first)
    (tail : ∀ value, Moves step stop (rest value)) : Moves step stop (first >>= rest) := by
  intro state
  have began := head state
  rw [bind_apply]
  rcases ran : first state with ⟨result,middle⟩
  rw [ran] at began
  cases result with
  | error code => exact began
  | ok value => exact (tail value).after began

theorem Moves.ite {condition : Prop} [Decidable condition] {yes no : Proc σ ε α}
    (left : Moves step stop yes) (right : Moves step stop no) :
    Moves step stop (if condition then yes else no) := by
  split
  · exact left
  · exact right

/-- What is kept of a view, for relations that contain every change the view
does not see. -/
theorem Keeps.moves {ρ : Type} {view : σ → ρ} {proc : Proc σ ε α} (kept : Keeps view proc)
    (steps : ∀ state next, view next = view state → step state next)
    (stops : ∀ code state next, view next = view state → stop code state next) :
    Moves step stop proc := by
  intro state
  have same := kept state
  rcases ran : proc state with ⟨result,next⟩
  rw [ran] at same
  cases result with
  | error code => exact ⟨state,.refl,stops code state next same⟩
  | ok value => exact .single (steps state next same)

/-- A procedure on a part moves the whole as it moves the part. -/
theorem Moves.within {part : τ → σ} {put : σ → τ → τ} {inner : Proc σ ε α}
    (moves : Moves step stop inner) (lens : ∀ piece state, part (put piece state) = piece)
    (back : ∀ state, put (part state) state = state) :
    Moves (fun state next => step (part state) (part next))
      (fun code state next => stop code (part state) (part next)) (Proc.within part put inner) := by
  intro state
  have went := moves (part state)
  have lifted {piece : σ} (steps : ReflTransGen step (part state) piece) :
      ReflTransGen (fun state next => step (part state) (part next)) state (put piece state) := by
    induction steps with
    | refl => rw [back]
    | tail _ one ih =>
      refine ih.tail ?_
      rw [lens,lens]
      exact one
  unfold Proc.within
  rcases ran : inner (part state) with ⟨result,piece⟩
  rw [ran] at went
  cases result with
  | error code =>
    obtain ⟨last,steps,stopped⟩ := went
    refine ⟨put last state,lifted steps,?_⟩
    change stop code (part (put last state)) (part (put piece state))
    rw [lens,lens]
    exact stopped
  | ok value => exact lifted went

/-! ### Invariants -/

theorem invariant_of_steps {inv : σ → Prop}
    (kept : ∀ state next, step state next → inv state → inv next)
    {state next : σ} (steps : ReflTransGen step state next) (holds : inv state) : inv next := by
  induction steps with
  | refl => exact holds
  | tail _ one ih => exact kept _ _ one ih

/-- What every step keeps holds after every run. -/
theorem Moves.triple {proc : Proc σ ε α} (moves : Moves step stop proc) {inv : σ → Prop}
    {fault : ε → σ → Prop} (kept : ∀ state next, step state next → inv state → inv next)
    (stops : ∀ code state next, stop code state next → inv state → fault code next) :
    Triple inv proc (fun _ => inv) fault := by
  intro state holds
  have went := moves state
  rcases ran : proc state with ⟨result,next⟩
  rw [ran] at went
  cases result with
  | error code =>
    obtain ⟨last,steps,stopped⟩ := went
    exact stops code last next stopped (invariant_of_steps kept steps holds)
  | ok value => exact invariant_of_steps kept went holds

end Rules

end Chapulin.Lib.Proc

/-! ### Runs of calls -/

namespace Chapulin.Lib

variable {σ γ : Type} {step : σ → γ → Option σ} {calls : List γ} {state last : σ}

theorem foldlM_cons_eq_some {call : γ} :
    (call :: calls).foldlM step state = some last ↔
      ∃ next, step state call = some next ∧ calls.foldlM step next = some last := by
  rw [List.foldlM_cons]
  exact Option.bind_eq_some_iff

/-- What every call keeps, a run of calls keeps. -/
theorem invariant_of_calls {inv : σ → Prop}
    (kept : ∀ state call next, call ∈ calls → inv state → step state call = some next → inv next)
    (holds : inv state) (ran : calls.foldlM step state = some last) : inv last := by
  induction calls generalizing state with
  | nil =>
    cases ran
    exact holds
  | cons call calls ih =>
    obtain ⟨next,one,ran⟩ := foldlM_cons_eq_some.mp ran
    refine ih (fun state other next among => kept state other next (.tail _ among)) ?_ ran
    exact kept state call next List.mem_cons_self holds one

end Chapulin.Lib
