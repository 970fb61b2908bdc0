/-
Numbers sent with their low bits only, and the masks that stand for a
comparison of machine words.

A receiver that knows which number to expect recovers the whole number from its
remainder as long as the number lies in a window around the expected one.
-/

import Mathlib.Algebra.Ring.Nat
import Mathlib.Tactic.Common

namespace Chapulin.Lib

/-- The number with the given remainder that lies nearest to `expected`, unless
it would reach `limit`. -/
def nearest (limit expected window truncated : Nat) : Nat :=
  let candidate := expected / window * window + truncated
  if candidate + window / 2 ≤ expected ∧ candidate + window < limit then candidate + window
  else if expected + window / 2 < candidate ∧ window ≤ candidate then candidate - window
  else candidate

/-- Two numbers less than a window apart lie in one block of numbers with equal
quotients or in neighbouring ones. -/
theorem div_near {expected window number : Nat} (positive : 0 < window)
    (above : expected < number + window) (within : number < expected + window) :
    number / window = expected / window ∨ number / window = expected / window + 1 ∨
      number / window + 1 = expected / window := by
  have most : number / window ≤ expected / window + 1 := by
    rw [← Nat.add_div_right _ positive]
    exact Nat.div_le_div_right (Nat.le_of_lt within)
  have least : expected / window ≤ number / window + 1 := by
    rw [← Nat.add_div_right _ positive]
    exact Nat.div_le_div_right (Nat.le_of_lt above)
  omega

/-- A number within half a window of the expected one is recovered from its
remainder. -/
theorem nearest_eq {limit expected window number : Nat} (even : window = 2 * (window / 2))
    (positive : 0 < window) (below : number < limit) (above : expected < number + window / 2)
    (within : number ≤ expected + window / 2) :
    nearest limit expected window (number % window) = number := by
  have expectedSplit := Nat.div_add_mod' expected window
  have numberSplit := Nat.div_add_mod' number window
  have expectedRest := Nat.mod_lt expected positive
  unfold nearest
  dsimp only
  rcases div_near positive (by omega) (by omega : number < expected + window) with
    same | more | less
  · rw [same] at numberSplit
    rw [numberSplit,if_neg (by omega),if_neg (by omega)]
  · rw [more,Nat.add_mul,Nat.one_mul] at numberSplit
    rw [if_pos (by omega)]
    omega
  · rw [← less,Nat.add_mul,Nat.one_mul] at expectedSplit ⊢
    rw [if_neg (by omega),if_pos (by omega)]
    omega

section Nearest

variable {limit expected window truncated : Nat} (short : truncated < window)
include short

/-- The recovered number has the remainder that was sent. -/
theorem nearest_mod : nearest limit expected window truncated % window = truncated := by
  have base : (expected / window * window + truncated) % window = truncated := by
    rw [Nat.mul_add_mod',Nat.mod_eq_of_lt short]
  unfold nearest
  dsimp only
  split
  · rw [Nat.add_mod_right,base]
  split
  · rename_i down
    rw [← Nat.mod_eq_sub_mod down.2,base]
  · exact base

/-- No number below the limit with that remainder is closer to the expected one. -/
theorem nearest_closest {number : Nat} (even : window = 2 * (window / 2)) (below : number < limit)
    (remainder : number % window = truncated) :
    ((nearest limit expected window truncated : Int) - expected).natAbs ≤
      ((number : Int) - expected).natAbs := by
  have expectedSplit := Nat.div_add_mod' expected window
  have expectedRest := Nat.mod_lt expected (by omega : 0 < window)
  have numberSplit := Nat.div_add_mod' number window
  rw [remainder] at numberSplit
  -- the quotient of the other number is that of the candidate, or away from it
  -- by at least one block
  have apart (low high : Nat) (less : low < high) : low * window + window ≤ high * window := by
    rw [← Nat.add_one_mul]
    exact Nat.mul_le_mul_right _ less
  unfold nearest
  dsimp only
  rcases Nat.lt_trichotomy (number / window) (expected / window) with less | same | more
  · have gap := apart _ _ less
    split
    · omega
    split
    · omega
    · omega
  · rw [same] at numberSplit
    split
    · omega
    split <;> omega
  · have gap := apart _ _ more
    split
    · rename_i up
      by_cases near : number / window = expected / window + 1
      · rw [near,Nat.add_one_mul] at numberSplit
        omega
      · have further := apart (expected / window + 1) (number / window)
          (Nat.lt_of_le_of_ne more (Ne.symm near))
        rw [Nat.add_one_mul] at further
        omega
    split <;> omega

variable (whole : window ∣ limit) (within : expected ≤ limit)
include whole within

/-- Only from the very end of the range is a number out of it recovered. -/
theorem nearest_lt_limit (filled : 0 < limit) :
    nearest limit expected window truncated < limit ↔
      ¬ (expected = limit ∧ truncated ≤ window / 2) := by
  obtain ⟨count,rfl⟩ := whole
  have positive : 0 < count := Nat.pos_of_mul_pos_left filled
  have least : window ≤ window * count := Nat.le_mul_of_pos_right _ positive
  rcases Nat.lt_or_eq_of_le within with below | rfl
  · have quotient : expected / window + 1 ≤ count := Nat.div_lt_of_lt_mul below
    have block : (expected / window + 1) * window ≤ window * count := by
      rw [Nat.mul_comm window]
      exact Nat.mul_le_mul_right _ quotient
    rw [Nat.add_mul,Nat.one_mul] at block
    unfold nearest
    dsimp only
    split
    · omega
    split <;> omega
  · have same : window * count / window * window = window * count := by
      rw [Nat.mul_div_cancel_left _ (by omega),Nat.mul_comm]
    unfold nearest
    dsimp only
    rw [same,if_neg (by omega)]
    split <;> omega

end Nearest

/-! ### Words -/

/-- The borrow of a subtraction, without a branch. -/
theorem borrow_eq (a b : UInt64) :
    ((~~~a &&& b) ||| ((~~~a ||| b) &&& (a - b))) >>> 63 = if a < b then 1 else 0 := by
  have sign : ((~~~a &&& b) ||| ((~~~a ||| b) &&& (a - b))).toBitVec.msb = decide (a < b) := by
    simp only [UInt64.toBitVec_or,UInt64.toBitVec_and,UInt64.toBitVec_not,UInt64.toBitVec_sub,
      BitVec.msb_or,BitVec.msb_and,BitVec.msb_not]
    simp only [BitVec.msb_eq_decide,BitVec.toNat_sub,UInt64.lt_iff_toNat_lt,UInt64.toNat_toBitVec]
    have boundA := a.toNat_lt
    have boundB := b.toNat_lt
    -- the halves of the range the two words lie in decide which term counts
    by_cases less : a.toNat < b.toNat <;> by_cases highA : 2 ^ 63 ≤ a.toNat <;>
      by_cases highB : 2 ^ 63 ≤ b.toNat <;> simp [less] <;> omega
  generalize (~~~a &&& b) ||| ((~~~a ||| b) &&& (a - b)) = word at sign
  rw [BitVec.msb_eq_decide,UInt64.toNat_toBitVec] at sign
  apply UInt64.toNat_inj.mp
  have bound := word.toNat_lt
  rw [UInt64.toNat_shiftRight,Nat.shiftRight_eq_div_pow]
  change word.toNat / 2 ^ 63 = _
  split <;> rename_i less <;> simp only [less,decide_true,decide_false,decide_eq_true_eq,
    decide_eq_false_iff_not] at sign
  · change word.toNat / 2 ^ 63 = 1
    omega
  · change word.toNat / 2 ^ 63 = 0
    omega

theorem clear_low (word : UInt64) {k : Nat} (short : k < 64) :
    (word &&& ~~~(UInt64.ofNat (2 ^ k - 1))).toNat = (word.toNat / 2 ^ k) <<< k := by
  have small : 2 ^ k - 1 < 2 ^ 64 := by
    have power := Nat.pow_lt_pow_right (show 1 < 2 by decide) short
    omega
  have flip : UInt64.size - 1 - (2 ^ k - 1) = 2 ^ 64 - (2 ^ k - 1 + 1) := by
    have size : UInt64.size = 2 ^ 64 := rfl
    omega
  apply Nat.eq_of_testBit_eq
  intro i
  rw [UInt64.toNat_and,UInt64.toNat_not,UInt64.toNat_ofNat',Nat.mod_eq_of_lt small,Nat.testBit_and,
    Nat.testBit_shiftLeft,Nat.testBit_div_two_pow,flip,Nat.testBit_two_pow_sub_succ small,
    Nat.testBit_two_pow_sub_one]
  by_cases above : k ≤ i
  · have index : i - k + k = i := by omega
    rw [index]
    by_cases inside : i < 64
    · simp [above,inside]
    · have clear : word.toNat.testBit i = false :=
        Nat.testBit_lt_two_pow (Nat.lt_of_lt_of_le word.toNat_lt
          (Nat.pow_le_pow_right (by decide) (by omega)))
      simp [clear]
  · simp [above,Nat.lt_of_not_le above]

theorem replace_low (word : UInt64) {low : UInt64} {k : Nat} (short : k < 64)
    (fits : low.toNat < 2 ^ k) :
    ((word &&& ~~~(UInt64.ofNat (2 ^ k - 1))) ||| low).toNat =
      word.toNat / 2 ^ k * 2 ^ k + low.toNat := by
  rw [UInt64.toNat_or,clear_low word short,← Nat.shiftLeft_add_eq_or_of_lt fits,Nat.shiftLeft_eq]

theorem select_new (old new : UInt32) : old ^^^ ((old ^^^ new) &&& -1) = new := by
  rw [UInt32.and_neg_one,← UInt32.xor_assoc,UInt32.xor_self,UInt32.zero_xor]

theorem select_old (old new : UInt32) : old ^^^ ((old ^^^ new) &&& 0) = old := by
  rw [UInt32.and_zero,UInt32.xor_zero]

theorem push_byte {value : UInt32} (octet : UInt8) (room : value.toNat < 2 ^ 24) :
    ((value <<< 8) ||| octet.toUInt32).toNat = value.toNat * 256 + octet.toNat := by
  have fits : value.toNat <<< 8 < 2 ^ 32 := by
    rw [Nat.shiftLeft_eq]
    omega
  rw [UInt32.toNat_or,UInt32.toNat_shiftLeft,UInt8.toNat_toUInt32]
  change (value.toNat <<< 8 % 2 ^ 32) ||| octet.toNat = _
  rw [Nat.mod_eq_of_lt fits,← Nat.shiftLeft_add_eq_or_of_lt octet.toNat_lt,Nat.shiftLeft_eq]

def pushAll (value : UInt32) (octets : List UInt8) : UInt32 :=
  octets.foldl (fun value octet => (value <<< 8) ||| octet.toUInt32) value

def bigEndian (octets : List UInt8) : Nat :=
  octets.foldl (fun number octet => number * 256 + octet.toNat) 0

private theorem pushAll_from {value : UInt32} (octets : List UInt8) {k : Nat}
    (bound : value.toNat < 256 ^ k) (room : k + octets.length ≤ 4) :
    (pushAll value octets).toNat =
      octets.foldl (fun number octet => number * 256 + octet.toNat) value.toNat := by
  induction octets generalizing value k with
  | nil => rfl
  | cons octet octets ih =>
    rw [List.length_cons] at room
    have small : value.toNat < 2 ^ 24 :=
      Nat.lt_of_lt_of_le bound
        (show 256 ^ k ≤ 256 ^ 3 from Nat.pow_le_pow_right (by decide) (by omega))
    have pushed := push_byte octet small
    have octetBound := octet.toNat_lt
    have grown : ((value <<< 8) ||| octet.toUInt32).toNat < 256 ^ (k + 1) := by
      rw [pushed,Nat.pow_succ]
      omega
    have rest := ih grown (by omega)
    rw [pushed] at rest
    exact rest

theorem pushAll_toNat {octets : List UInt8} (few : octets.length ≤ 4) :
    (pushAll 0 octets).toNat = bigEndian octets :=
  @pushAll_from 0 octets 0 (by decide) (by omega)

end Chapulin.Lib
