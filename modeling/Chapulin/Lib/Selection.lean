/-
Sorting by repeated selection.

A pass over a list finds the element of the least key from a bound on, and the
next pass starts above the key it found.  Nothing is kept between passes but the
bound, so the list itself is never changed; with distinct keys the passes still
meet every element once and come to an end.
-/

import Mathlib.Data.List.Nodup
import Mathlib.Data.List.Perm.Basic

namespace Chapulin.Lib.Selection

open List

variable {α : Type} (key : α → Nat)

/-- Whether a pass takes `x` over what it has found. -/
def takes (lowest : Nat) (found : Option α) (x : α) : Bool :=
  lowest ≤ key x && found.all fun y => decide (key x < key y)

/-- The element of the least key from `lowest` on, and the first of several. -/
def leastFrom (lowest : Nat) (found : Option α) (xs : List α) : Option α :=
  xs.foldl (fun found x => if takes key lowest found x then some x else found) found

def least (lowest : Nat) (xs : List α) : Option α := leastFrom key lowest none xs

/-- The elements found by passes from `lowest` on; nothing when the number of
passes does not reach one that finds none. -/
def ascending (xs : List α) : Nat → Nat → Option (List α)
  | 0, _ => none
  | passes + 1, lowest =>
    (least key lowest xs).elim (some [])
      fun x => (ascending xs passes (key x + 1)).map fun ys => x :: ys

variable {key} {lowest : Nat}

theorem leastFrom_cons (found : Option α) (x : α) (xs : List α) :
    leastFrom key lowest found (x :: xs) =
      leastFrom key lowest (if takes key lowest found x then some x else found) xs := rfl

theorem leastFrom_some (xs : List α) {held : α} (bounded : lowest ≤ key held) :
    ∃ x, leastFrom key lowest (some held) xs = some x ∧ (x = held ∨ x ∈ xs) ∧ lowest ≤ key x ∧
      key x ≤ key held ∧ ∀ y ∈ xs, lowest ≤ key y → key x ≤ key y := by
  induction xs generalizing held with
  | nil => exact ⟨held,rfl,.inl rfl,bounded,Nat.le_refl _,by simp⟩
  | cons y xs ih =>
    by_cases smaller : lowest ≤ key y ∧ key y < key held
    · have taken : takes key lowest (some held) y = true := by simp [takes,smaller]
      obtain ⟨x,found,among,above,below,minimal⟩ := ih smaller.1
      exact ⟨x,by rw [leastFrom_cons,if_pos taken,found],.inr (mem_cons.mpr among),above,by omega,
        forall_mem_cons.mpr ⟨fun _ => below,minimal⟩⟩
    · have left : ¬ takes key lowest (some held) y = true := by simpa [takes] using smaller
      obtain ⟨x,found,among,above,below,minimal⟩ := ih bounded
      exact ⟨x,by rw [leastFrom_cons,if_neg left,found],among.imp_right (mem_cons_of_mem _),above,
        below,forall_mem_cons.mpr ⟨by omega,minimal⟩⟩

/-- A pass finds nothing where nothing reaches the bound, and otherwise a least
element from the bound on. -/
theorem least_cases (key : α → Nat) (lowest : Nat) (xs : List α) :
    (least key lowest xs = none ∧ ∀ y ∈ xs, key y < lowest) ∨
      ∃ x, least key lowest xs = some x ∧ x ∈ xs ∧ lowest ≤ key x ∧
        ∀ y ∈ xs, lowest ≤ key y → key x ≤ key y := by
  induction xs with
  | nil => exact .inl ⟨rfl,by simp⟩
  | cons y xs ih =>
    by_cases high : lowest ≤ key y
    · obtain ⟨x,found,among,above,below,minimal⟩ := leastFrom_some xs high
      have taken : takes key lowest none y = true := by simp [takes,high]
      exact .inr ⟨x,by rw [least,leastFrom_cons,if_pos taken,found],mem_cons.mpr among,above,
        forall_mem_cons.mpr ⟨fun _ => below,minimal⟩⟩
    · have left : ¬ takes key lowest none y = true := by simp [takes,high]
      have pass : least key lowest (y :: xs) = least key lowest xs := by
        rw [least,leastFrom_cons,if_neg left,least]
      rw [pass]
      rcases ih with ⟨nothing,low⟩ | ⟨x,found,among,above,minimal⟩
      · exact .inl ⟨nothing,forall_mem_cons.mpr ⟨Nat.lt_of_not_le high,low⟩⟩
      · exact .inr ⟨x,found,mem_cons_of_mem _ among,above,
          forall_mem_cons.mpr ⟨fun reached => absurd reached high,minimal⟩⟩

theorem filter_perm_cons {xs : List α} (distinct : (xs.map key).Nodup) {x : α} (among : x ∈ xs)
    (above : lowest ≤ key x) (minimal : ∀ y ∈ xs, lowest ≤ key y → key x ≤ key y) :
    (xs.filter fun y => lowest ≤ key y).Perm (x :: xs.filter fun y => key x + 1 ≤ key y) := by
  have nodup := Nodup.of_map key distinct
  have apart : x ∉ xs.filter fun y => key x + 1 ≤ key y := by simp
  rw [perm_ext_iff_of_nodup (nodup.filter _)
    (nodup_cons.mpr ⟨apart,nodup.filter _⟩)]
  intro y
  simp only [mem_filter,mem_cons,decide_eq_true_eq]
  constructor
  · rintro ⟨member,high⟩
    by_cases same : key y = key x
    · exact .inl (inj_on_of_nodup_map distinct member among same)
    · have least := minimal y member high
      exact .inr ⟨member,by omega⟩
  · rintro (rfl | ⟨member,higher⟩)
    · exact ⟨among,above⟩
    · exact ⟨member,by omega⟩

/-- With distinct keys the passes end, after one for each element from the bound
on and one more, and list those elements by ascending key. -/
theorem ascending_sorts {xs : List α} (distinct : (xs.map key).Nodup) (passes : Nat)
    (enough : (xs.filter fun y => lowest ≤ key y).length < passes) :
    ∃ ys, ascending key xs passes lowest = some ys ∧
      ys.Perm (xs.filter fun y => lowest ≤ key y) ∧ ys.Pairwise fun x y => key x < key y := by
  induction passes generalizing lowest with
  | zero => omega
  | succ passes ih =>
    rw [ascending]
    rcases least_cases key lowest xs with ⟨nothing,low⟩ | ⟨x,found,among,above,minimal⟩
    · have absent : (xs.filter fun y => lowest ≤ key y) = [] := by
        rw [filter_eq_nil_iff]
        intro y member
        have below := low y member
        simpa using below
      exact ⟨[],by rw [nothing]; rfl,by rw [absent],Pairwise.nil⟩
    · have split := filter_perm_cons distinct among above minimal
      have fewer : (xs.filter fun y => key x + 1 ≤ key y).length < passes := by
        have counted := split.length_eq
        rw [length_cons] at counted
        omega
      obtain ⟨ys,rest,perm,sorted⟩ := ih fewer
      refine ⟨x :: ys,by rw [found,Option.elim_some,rest]; rfl,(perm.cons x).trans split.symm,
        pairwise_cons.mpr ⟨?_,sorted⟩⟩
      intro y member
      have higher := (mem_filter.mp (perm.mem_iff.mp member)).2
      exact of_decide_eq_true higher

theorem eq_of_sorted_perm {xs ys : List α} (left : xs.Pairwise fun x y => key x < key y)
    (right : ys.Pairwise fun x y => key x < key y) (perm : xs.Perm ys) : xs = ys := by
  refine Perm.eq_of_pairwise ?_ left right perm
  intro x y _ _ less more
  omega

end Chapulin.Lib.Selection
