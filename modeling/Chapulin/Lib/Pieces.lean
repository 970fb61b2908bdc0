/-
Cutting a length into pieces of at most `limit`, where every piece costs a fixed
overhead, and counting the renewals of a supply that serves only so many pieces.
-/

import Mathlib.Algebra.Order.Floor.Div
import Mathlib.Tactic.Ring

namespace Chapulin.Lib

open List

section Pieces

variable {limit : Nat} (positive : 0 < limit)
include positive

theorem ceilDiv_le {n m : Nat} : n ⌈/⌉ limit ≤ m ↔ n ≤ m * limit := by
  rw [ceilDiv_le_iff_le_mul positive,Nat.mul_comm]

theorem lt_ceilDiv {n m : Nat} : m < n ⌈/⌉ limit ↔ m * limit < n := by
  rw [← Nat.not_le,ceilDiv_le positive,Nat.not_le]

theorem ceilDiv_mono {n m : Nat} (le : n ≤ m) : n ⌈/⌉ limit ≤ m ⌈/⌉ limit :=
  (ceilDiv_le positive).mpr (Nat.le_trans le ((ceilDiv_le positive).mp (Nat.le_refl _)))

theorem ceilDiv_eq {n m : Nat} (low : n ≤ m * limit) (high : m = 0 ∨ (m - 1) * limit < n) :
    n ⌈/⌉ limit = m := by
  apply Nat.le_antisymm ((ceilDiv_le positive).mpr low)
  rcases high with rfl | high
  · exact Nat.zero_le _
  · have above := (lt_ceilDiv positive).mpr high
    omega

theorem ceilDiv_mul_add (n m : Nat) : (m * limit + n) ⌈/⌉ limit = m + n ⌈/⌉ limit := by
  have shift : m * limit + n + limit - 1 = n + limit - 1 + m * limit := by omega
  rw [Nat.ceilDiv_eq_add_pred_div,Nat.ceilDiv_eq_add_pred_div,shift,
    Nat.add_mul_div_right _ _ positive,Nat.add_comm]

theorem ceilDiv_step {n : Nat} (filled : 0 < n) :
    n ⌈/⌉ limit = (n - min limit n) ⌈/⌉ limit + 1 := by
  rcases Nat.le_total limit n with whole | short
  · have split : n = 1 * limit + (n - min limit n) := by
      rw [Nat.min_eq_left whole,Nat.one_mul]
      omega
    conv_lhs => rw [split]
    rw [ceilDiv_mul_add positive,Nat.add_comm]
  · rw [Nat.min_eq_right short,Nat.sub_self,zero_ceilDiv]
    exact ceilDiv_eq positive (by omega) (.inr (by omega))

/-- The most that fits `cap` is the content of the whole pieces, or what the
overhead of one piece more leaves. -/
theorem fits_iff {cap overhead n : Nat} :
    n + overhead * (n ⌈/⌉ limit) ≤ cap ↔
      n ≤ max (cap / (limit + overhead) * limit)
        (cap - (cap / (limit + overhead) + 1) * overhead) := by
  have size : 0 < limit + overhead := by omega
  have low : cap / (limit + overhead) * limit + cap / (limit + overhead) * overhead ≤ cap := by
    rw [← Nat.mul_add]
    exact Nat.div_mul_le_self cap (limit + overhead)
  have high : cap < (cap / (limit + overhead) + 1) * limit +
      (cap / (limit + overhead) + 1) * overhead := by
    rw [← Nat.mul_add,Nat.add_one_mul]
    exact Nat.lt_div_mul_add size
  generalize cap / (limit + overhead) = whole at low high
  rw [le_max_iff,Nat.mul_comm overhead]
  constructor
  · intro fits
    by_cases few : n ⌈/⌉ limit ≤ whole
    · exact .inl ((ceilDiv_le positive).mp few)
    · have more := Nat.mul_le_mul_right overhead (by omega : whole + 1 ≤ n ⌈/⌉ limit)
      exact .inr (by omega)
  · rintro (inWhole | inMore)
    · have cost := Nat.mul_le_mul_right overhead ((ceilDiv_le positive).mpr inWhole)
      omega
    · rcases Nat.eq_zero_or_pos n with rfl | filled
      · simp
      · have few : n ⌈/⌉ limit ≤ whole + 1 := (ceilDiv_le positive).mpr (by omega)
        have cost := Nat.mul_le_mul_right overhead few
        omega

end Pieces

/-! ### The pieces of a list -/

section Cut

variable {α : Type}

/-- A list cut after every `limit` elements. -/
def cut (limit : Nat) (l : List α) : List (List α) :=
  if 0 < limit ∧ l ≠ [] then l.take limit :: cut limit (l.drop limit) else []
termination_by l.length
decreasing_by
  rename_i more
  have filled := length_pos_iff.mpr more.2
  rw [length_drop]
  omega

@[simp] theorem cut_nil (limit : Nat) : cut limit ([] : List α) = [] := by
  rw [cut,if_neg (fun more => more.2 rfl)]

variable {limit : Nat} (positive : 0 < limit)
include positive

theorem cut_of_ne_nil {l : List α} (full : l ≠ []) :
    cut limit l = l.take limit :: cut limit (l.drop limit) := by
  rw [cut,if_pos ⟨positive,full⟩]

theorem cut_flatten (l : List α) : (cut limit l).flatten = l := by
  induction l using cut.induct limit with
  | case1 l full ih => rw [cut_of_ne_nil positive full.2,flatten_cons,ih,take_append_drop]
  | case2 l done =>
    have empty : l = [] := by
      by_contra full
      exact done ⟨positive,full⟩
    rw [empty,cut_nil,flatten_nil]

theorem cut_length_le (l : List α) : ∀ piece ∈ cut limit l, piece ≠ [] ∧ piece.length ≤ limit := by
  induction l using cut.induct limit with
  | case1 l full ih =>
    rw [cut_of_ne_nil positive full.2,forall_mem_cons,Ne,take_eq_nil_iff,not_or]
    exact ⟨⟨⟨by omega,full.2⟩,length_take_le _ _⟩,ih⟩
  | case2 l done =>
    rw [cut,if_neg done]
    simp

theorem cut_dropLast (l : List α) : ∀ piece ∈ (cut limit l).dropLast, piece.length = limit := by
  induction l using cut.induct limit with
  | case1 l full ih =>
    rw [cut_of_ne_nil positive full.2]
    by_cases last : l.drop limit = []
    · rw [last,cut_nil]
      simp
    · rw [cut_of_ne_nil positive last] at ih ⊢
      rw [dropLast_cons_cons,forall_mem_cons]
      rw [drop_eq_nil_iff,Nat.not_le] at last
      exact ⟨length_take_of_le last.le,ih⟩
  | case2 l done =>
    rw [cut,if_neg done]
    simp

/-! ### Packing a list as it comes -/

/-- What a buffer of `limit` places has made of the elements fed to it: full
pieces, and fewer elements that it still holds. -/
structure Packed (limit : Nat) (fed : List α) (full : List (List α)) (held : List α) : Prop where
  whole : full.flatten ++ held = fed
  each : ∀ piece ∈ full, piece.length = limit
  short : held.length < limit

theorem packed_nil : Packed limit ([] : List α) [] [] := ⟨rfl,by simp,positive⟩

omit positive in
theorem Packed.hold {fed held more : List α} {full : List (List α)}
    (packed : Packed limit fed full held) (room : (held ++ more).length < limit) :
    Packed limit (fed ++ more) full (held ++ more) := by
  refine ⟨?_,packed.each,room⟩
  rw [← packed.whole,append_assoc]

theorem Packed.fill {fed held more : List α} {full : List (List α)}
    (packed : Packed limit fed full held) (filled : (held ++ more).length = limit) :
    Packed limit (fed ++ more) (full ++ [held ++ more]) [] := by
  refine ⟨?_,?_,positive⟩
  · rw [← packed.whole]
    simp
  · rw [forall_mem_append]
    exact ⟨packed.each,by simpa using filled⟩

/-- What is packed is the cut, its last piece the one held. -/
theorem Packed.cut_eq {fed held : List α} {full : List (List α)}
    (packed : Packed limit fed full held) :
    cut limit fed = full ++ if held = [] then [] else [held] := by
  obtain ⟨rfl,each,short⟩ := packed
  induction full with
  | nil =>
    rw [flatten_nil,nil_append,nil_append]
    by_cases empty : held = []
    · rw [empty,cut_nil,if_pos rfl]
    · rw [cut_of_ne_nil positive empty,if_neg empty,take_of_length_le (Nat.le_of_lt short),
        drop_of_length_le (Nat.le_of_lt short),cut_nil]
  | cons piece full ih =>
    have length := each piece mem_cons_self
    have rest := ih (forall_mem_cons.mp each).2
    have filled : piece ++ (full.flatten ++ held) ≠ [] := by
      intro empty
      rw [(append_eq_nil_iff.mp empty).1,length_nil] at length
      omega
    rw [flatten_cons,append_assoc,cut_of_ne_nil positive filled,← length,take_left,drop_left,length,
      rest,cons_append]

end Cut

/-! ### Renewals -/

section Renewals

/-- How often a supply is renewed before `uses` uses: it serves `left` uses as
it is and `each` after a renewal, any number of them when that is none. -/
def renewals (each : Option Nat) : Option Nat → Nat → Nat
  | _, 0 => 0
  | none, _ => 0
  | some 0, uses + 1 => renewals each (each.map (· - 1)) uses + 1
  | some (left + 1), uses + 1 => renewals each (some left) uses

variable {each : Option Nat} {uses left : Nat}

@[simp] theorem renewals_none (each : Option Nat) (uses : Nat) : renewals each none uses = 0 := by
  cases uses <;> rfl

@[simp] theorem renewals_zero (each left : Option Nat) : renewals each left 0 = 0 := by
  cases left <;> simp [renewals]

theorem renewals_eq_zero : renewals each (some left) uses = 0 ↔ uses ≤ left := by
  induction uses generalizing left with
  | zero => simp
  | succ uses ih =>
    cases left with
    | zero => simp [renewals]
    | succ left => simpa [renewals] using ih

theorem renewals_skip : renewals each (some left) (left + uses) = renewals each (some 0) uses := by
  induction left with
  | zero => rw [Nat.zero_add]
  | succ left ih =>
    rw [Nat.add_right_comm]
    exact ih

theorem renewals_le_one {more : Nat} (serves : 0 < more) :
    renewals (some more) (some left) uses ≤ 1 ↔ uses ≤ left + more := by
  induction uses generalizing left with
  | zero => simp
  | succ uses ih =>
    cases left with
    | zero =>
      have next : renewals (some more) (some 0) (uses + 1) =
          renewals (some more) (some (more - 1)) uses + 1 := rfl
      have served := @renewals_eq_zero (some more) uses (more - 1)
      rw [next]
      omega
    | succ left =>
      have next : renewals (some more) (some (left + 1)) (uses + 1) =
          renewals (some more) (some left) uses := rfl
      rw [next,ih]
      omega

theorem renewals_le (each left : Option Nat) (uses : Nat) : renewals each left uses ≤ uses := by
  induction uses generalizing left with
  | zero => simp
  | succ uses ih =>
    rcases left with _ | _ | left
    · simp
    · exact Nat.succ_le_succ (ih _)
    · exact Nat.le_succ_of_le (ih _)

theorem renewals_unlimited : renewals none (some left) uses ≤ 1 := by
  induction uses generalizing left with
  | zero => simp
  | succ uses ih =>
    cases left with
    | zero => simp [renewals]
    | succ left => exact ih

end Renewals

end Chapulin.Lib
