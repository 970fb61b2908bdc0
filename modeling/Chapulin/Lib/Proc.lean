/-
Computations that return a value or stop with a code, over a state that keeps
every write made before the stop.

A function that reports failure through its result and edits its argument in
place is one of these: a caller that sees the failure still sees the edits.
The module gives the computations, their equations, the two ways a sequence
can end, and the frame rule for a part of the state a computation never edits.
-/

import Mathlib.Tactic.Common

namespace Chapulin.Lib

/-- A computation over `σ` that returns an `α` or stops with an `ε`; the state
handed back holds the edits made up to that point in both cases. -/
def Proc (σ ε α : Type) : Type := σ → Except ε α × σ

namespace Proc

variable {σ τ ε α β : Type}

def ret (value : α) : Proc σ ε α := fun state => (.ok value, state)

def andThen (first : Proc σ ε α) (rest : α → Proc σ ε β) : Proc σ ε β := fun state =>
  match first state with
  | (.ok value, next) => rest value next
  | (.error code, next) => (.error code, next)

instance : Monad (Proc σ ε) where
  pure := ret
  bind := andThen

def stop (code : ε) : Proc σ ε α := fun state => (.error code, state)

def get : Proc σ ε σ := fun state => (.ok state, state)

def gets (view : σ → α) : Proc σ ε α := fun state => (.ok (view state), state)

def modify (edit : σ → σ) : Proc σ ε Unit := fun state => (.ok (), edit state)

/-- Goes on when the condition holds and stops with the code when it does not. -/
def require (condition : Bool) (code : ε) : Proc σ ε Unit :=
  if condition then ret () else stop code

def within (part : σ → τ) (put : τ → σ → σ) (inner : Proc τ ε α) : Proc σ ε α := fun state =>
  match inner (part state) with
  | (result, edited) => (result, put edited state)

@[simp] theorem pure_apply (value : α) (state : σ) :
    (pure value : Proc σ ε α) state = (.ok value, state) := rfl

@[simp] theorem ret_apply (value : α) (state : σ) :
    (ret value : Proc σ ε α) state = (.ok value, state) := rfl

@[simp] theorem stop_apply (code : ε) (state : σ) :
    (stop code : Proc σ ε α) state = (.error code, state) := rfl

@[simp] theorem get_apply (state : σ) :
    (get : Proc σ ε σ) state = (.ok state, state) := rfl

@[simp] theorem gets_apply (view : σ → α) (state : σ) :
    (gets view : Proc σ ε α) state = (.ok (view state), state) := rfl

@[simp] theorem modify_apply (edit : σ → σ) (state : σ) :
    (modify edit : Proc σ ε Unit) state = (.ok (), edit state) := rfl

theorem bind_apply (first : Proc σ ε α) (rest : α → Proc σ ε β) (state : σ) :
    (first >>= rest) state =
      match first state with
      | (.ok value, next) => rest value next
      | (.error code, next) => (.error code, next) := rfl

theorem bind_assoc {γ : Type} (first : Proc σ ε α) (next : α → Proc σ ε β) (last : β → Proc σ ε γ) :
    (first >>= next) >>= last = first >>= fun value => next value >>= last := by
  funext state
  simp only [bind_apply]
  rcases first state with ⟨_ | value,middle⟩ <;> rfl

variable {rest : α → Proc σ ε β}

theorem bind_of_ok {first : Proc σ ε α} {state next : σ} {value : α}
    (returned : first state = (.ok value, next)) : (first >>= rest) state = rest value next := by
  rw [bind_apply,returned]

theorem bind_of_error {first : Proc σ ε α} {state next : σ} {code : ε}
    (stopped : first state = (.error code, next)) :
    (first >>= rest) state = (.error code, next) := by
  rw [bind_apply,stopped]

theorem stopped_bind {first : Proc σ ε α} {state : σ} {code : ε}
    (stopped : (first state).1 = .error code) : ((first >>= rest) state).1 = .error code := by
  rcases ran : first state with ⟨result,next⟩
  rw [ran] at stopped
  cases stopped
  rw [bind_of_error ran]

/-- A sequence returns exactly when its first part returns and the rest returns
from the state the first part left. -/
theorem bind_eq_ok {first : Proc σ ε α} {state last : σ} {value : β} :
    (first >>= rest) state = (.ok value, last) ↔
      ∃ middle next, first state = (.ok middle, next) ∧ rest middle next = (.ok value, last) := by
  rw [bind_apply]
  constructor
  · intro returned
    rcases ran : first state with ⟨result,next⟩
    rw [ran] at returned
    cases result with
    | error code => simp at returned
    | ok middle => exact ⟨middle,next,rfl,returned⟩
  · rintro ⟨middle,next,ran,returned⟩
    rw [ran]
    exact returned

theorem require_eq_ok {condition : Bool} {code : ε} {state last : σ} {value : Unit} :
    (require condition code : Proc σ ε Unit) state = (.ok value, last) ↔
      condition = true ∧ last = state := by
  cases condition
  · simp [require]
  · simp [require,eq_comm]

/-! ### What a computation leaves alone -/

/-- However it ends, the computation leaves the view of the state as it was. -/
def Keeps {ρ : Type} (view : σ → ρ) (proc : Proc σ ε α) : Prop :=
  ∀ state, view (proc state).2 = view state

section Keeps

variable {ρ : Type} {view : σ → ρ}

theorem keeps_ret (value : α) : Keeps view (ret value : Proc σ ε α) := fun _ => rfl

theorem keeps_pure (value : α) : Keeps view (pure value : Proc σ ε α) := fun _ => rfl

theorem keeps_stop (code : ε) : Keeps view (stop code : Proc σ ε α) := fun _ => rfl

theorem keeps_get : Keeps view (get : Proc σ ε σ) := fun _ => rfl

theorem keeps_gets (part : σ → α) : Keeps view (gets part : Proc σ ε α) := fun _ => rfl

theorem keeps_require (condition : Bool) (code : ε) :
    Keeps view (require condition code : Proc σ ε Unit) := by
  intro state
  cases condition <;> rfl

theorem keeps_modify {edit : σ → σ} (same : ∀ state, view (edit state) = view state) :
    Keeps view (modify edit : Proc σ ε Unit) := same

/-- A view that both parts leave alone is left alone by their sequence. -/
theorem Keeps.bind {first : Proc σ ε α} {rest : α → Proc σ ε β} (head : Keeps view first)
    (tail : ∀ value, Keeps view (rest value)) : Keeps view (first >>= rest) := by
  intro state
  have middle := head state
  rw [bind_apply]
  rcases ran : first state with ⟨result,next⟩
  rw [ran] at middle
  cases result with
  | error code => exact middle
  | ok value => exact (tail value next).trans middle

theorem Keeps.ite {condition : Prop} [Decidable condition] {yes no : Proc σ ε α}
    (left : Keeps view yes) (right : Keeps view no) :
    Keeps view (if condition then yes else no) := by
  split
  · exact left
  · exact right

theorem Keeps.within {part : σ → τ} {put : τ → σ → σ} {inner : Proc τ ε α} {ω : Type}
    {narrow : τ → ω} (kept : Keeps narrow inner)
    (lens : ∀ piece state, part (put piece state) = piece) :
    Keeps (fun state => narrow (part state)) (within part put inner) := by
  intro state
  change narrow (part (put (inner (part state)).2 state)) = narrow (part state)
  rw [lens]
  exact kept (part state)

theorem keeps_within {part : σ → τ} {put : τ → σ → σ} (inner : Proc τ ε α)
    (blind : ∀ piece state, view (put piece state) = view state) :
    Keeps view (within part put inner) := fun state => blind _ state

theorem Keeps.map {ω : Type} {proc : Proc σ ε α} (kept : Keeps view proc) (coarse : ρ → ω) :
    Keeps (fun state => coarse (view state)) proc := fun state => congrArg coarse (kept state)

theorem Keeps.of_eq {proc : Proc σ ε α} (kept : Keeps view proc) {state next : σ}
    {result : Except ε α} (ran : proc state = (result, next)) : view next = view state := by
  have same := kept state
  rw [ran] at same
  exact same

end Keeps

/-- However it ends, the computation takes states with the property to such states. -/
def Preserves (holds : σ → Prop) (proc : Proc σ ε α) : Prop :=
  ∀ state, holds state → holds (proc state).2

section Preserves

variable {holds : σ → Prop}

theorem preserves_modify {edit : σ → σ} (kept : ∀ state, holds state → holds (edit state)) :
    Preserves holds (modify edit : Proc σ ε Unit) := kept

theorem Preserves.bind {first : Proc σ ε α} {rest : α → Proc σ ε β} (head : Preserves holds first)
    (tail : ∀ value, Preserves holds (rest value)) : Preserves holds (first >>= rest) := by
  intro state given
  have middle := head state given
  rw [bind_apply]
  rcases ran : first state with ⟨result,next⟩
  rw [ran] at middle
  cases result with
  | error code => exact middle
  | ok value => exact tail value next middle

end Preserves

def Returns (post : σ → Prop) (proc : Proc σ ε α) : Prop :=
  ∀ state value next, proc state = (.ok value, next) → post next

section Returns

variable {post : σ → Prop}

theorem returns_stop (code : ε) : Returns post (stop code : Proc σ ε α) := nofun

theorem returns_modify {edit : σ → σ} (sets : ∀ state, post (edit state)) :
    Returns post (modify edit : Proc σ ε Unit) := by
  intro state value next ran
  cases ran
  exact sets state

theorem Returns.bind {first : Proc σ ε α} {rest : α → Proc σ ε β}
    (tail : ∀ value, Returns post (rest value)) : Returns post (first >>= rest) := by
  intro state value last ran
  obtain ⟨middle,next,_,returned⟩ := bind_eq_ok.mp ran
  exact tail middle next value last returned

theorem Returns.then_preserves {first : Proc σ ε α} {rest : α → Proc σ ε β}
    (head : Returns post first) (tail : ∀ value, Preserves post (rest value)) :
    Returns post (first >>= rest) := by
  intro state value last ran
  obtain ⟨middle,next,started,returned⟩ := bind_eq_ok.mp ran
  have kept := tail middle next (head state middle next started)
  rwa [returned] at kept

theorem Returns.ite {condition : Prop} [Decidable condition] {yes no : Proc σ ε α}
    (left : Returns post yes) (right : Returns post no) :
    Returns post (if condition then yes else no) := by
  split
  · exact left
  · exact right

end Returns

/-! ### What a computation establishes -/

/-- The property of how a run ended: what it returned into, or what it stopped in. -/
def Ends (post : α → σ → Prop) (fault : ε → σ → Prop) : Except ε α × σ → Prop
  | (.ok value, next) => post value next
  | (.error code, next) => fault code next

section Ends

variable {post wider : α → σ → Prop} {fault worse : ε → σ → Prop} {result : Except ε α × σ}

theorem Ends.mono (ends : Ends post fault result)
    (returned : ∀ value next, post value next → wider value next)
    (stopped : ∀ code next, fault code next → worse code next) : Ends wider worse result := by
  rcases result with ⟨code | value,next⟩
  · exact stopped code next ends
  · exact returned value next ends

theorem ends_of_state (holds : σ → Prop) {left : σ → Prop} (kept : holds result.2)
    (stopped : ∀ next, holds next → left next) : Ends (fun _ => holds) (fun _ => left) result := by
  rcases result with ⟨code | value,next⟩
  · exact stopped next kept
  · exact kept

theorem Ends.state (holds : σ → Prop) (ends : Ends (fun _ => holds) (fun _ => holds) result) :
    holds result.2 := by
  rcases result with ⟨code | value,next⟩ <;> exact ends

end Ends

/-- From a state with `pre` the computation returns into `post` or stops in `fault`. -/
def Triple (pre : σ → Prop) (proc : Proc σ ε α) (post : α → σ → Prop) (fault : ε → σ → Prop) :
    Prop :=
  ∀ state, pre state → Ends post fault (proc state)

section Triple

variable {pre : σ → Prop} {post : α → σ → Prop} {fault : ε → σ → Prop}

/-- The first part establishes what the second one assumes. -/
theorem Triple.bind {first : Proc σ ε α} {rest : α → Proc σ ε β} {last : β → σ → Prop}
    (head : Triple pre first post fault)
    (tail : ∀ value, Triple (post value) (rest value) last fault) :
    Triple pre (first >>= rest) last fault := by
  intro state holds
  have middle := head state holds
  rw [bind_apply]
  rcases ran : first state with ⟨result,next⟩
  rw [ran] at middle
  cases result with
  | error code => exact middle
  | ok value => exact tail value next middle

theorem Triple.ite {condition : Prop} [Decidable condition] {yes no : Proc σ ε α}
    (left : Triple pre yes post fault) (right : Triple pre no post fault) :
    Triple pre (if condition then yes else no) post fault := by
  split
  · exact left
  · exact right

variable {proc : Proc σ ε α}

theorem Triple.given {fact : Prop} (holds : fact → Triple pre proc post fault) :
    Triple (fun state => pre state ∧ fact) proc post fault :=
  fun state both => holds both.2 state both.1

theorem triple_pure {value : α} (holds : ∀ state, pre state → post value state) :
    Triple pre (pure value) post fault := holds

theorem Triple.of_ok (holds : Triple pre proc post fault) {state next : σ}
    {value : α} (given : pre state) (ran : proc state = (.ok value, next)) : post value next := by
  have met := holds state given
  rw [ran] at met
  exact met

theorem Triple.of_error (holds : Triple pre proc post fault) {state next : σ}
    {code : ε} (given : pre state) (ran : proc state = (.error code, next)) : fault code next := by
  have met := holds state given
  rw [ran] at met
  exact met

theorem Keeps.triple {ρ : Type} {view : σ → ρ} (kept : Keeps view proc)
    (before : ∀ state next, pre state → view next = view state →
      (∀ value, post value next) ∧ ∀ code, fault code next) : Triple pre proc post fault := by
  intro state given
  have same := kept state
  rcases ran : proc state with ⟨result,next⟩
  rw [ran] at same
  have met := before state next given same
  cases result with
  | error code => exact met.2 code
  | ok value => exact met.1 value

end Triple

/-! ### Computations made of parts -/

/-- The computations made of parts, one after another.  What a sequence has
where its two halves have it is proved of these from their parts. -/
inductive Built (part : (α : Type) → Proc σ ε α → Prop) : {α : Type} → Proc σ ε α → Prop
  | one {α : Type} {proc : Proc σ ε α} (is : part α proc) : Built part proc
  | bind {α β : Type} {first : Proc σ ε α} {rest : α → Proc σ ε β} (head : Built part first)
      (tail : ∀ value, Built part (rest value)) : Built part (first >>= rest)

section Built

variable {part : (α : Type) → Proc σ ε α → Prop}

theorem Built.ite {condition : Prop} [Decidable condition] {yes no : Proc σ ε α}
    (left : Built part yes) (right : Built part no) :
    Built part (if condition then yes else no) := by
  split
  · exact left
  · exact right

theorem Built.of_states {proc : Proc σ ε α} (reads : part σ get)
    (runs : ∀ state, ∃ other, Built part other ∧ proc state = other state) : Built part proc := by
  choose other built same using runs
  have whole : proc = get >>= other := funext same
  rw [whole]
  exact .bind (.one reads) built

end Built

end Proc

end Chapulin.Lib
