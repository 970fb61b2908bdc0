/-
Strings of bits, lowest bit first, and their groupings into numbers and octets.

A number of `held` bits with a further number above it spells the string of the first and then
that of the second, which is how an accumulator takes bits in at the top and gives them out at
the bottom.
-/

import Chapulin.Lib.Octets

namespace Chapulin.Lib

open List

def integerToBits : Nat → Nat → List Bool
  | 0, _ => []
  | width + 1, x => decide (x % 2 = 1) :: integerToBits width (x / 2)

def bitsToInteger : List Bool → Nat
  | [] => 0
  | bit :: bits => bit.toNat + 2 * bitsToInteger bits

/-- The numbers that the first `count` groups of `width` bits spell. -/
def bitGroups (width : Nat) : Nat → List Bool → List Nat
  | 0, _ => []
  | count + 1, bits => bitsToInteger (bits.take width) :: bitGroups width count (bits.drop width)

def bitsToBytes (bits : List Bool) : Bytes := (bitGroups 8 ((bits.length + 7) / 8) bits).map byte

variable {width held acc : Nat}

@[simp] theorem integerToBits_length (width x : Nat) : (integerToBits width x).length = width := by
  induction width generalizing x with
  | zero => rfl
  | succ width ih => rw [integerToBits,length_cons,ih]

theorem bitsToInteger_integerToBits {x : Nat} (small : x < 2 ^ width) :
    bitsToInteger (integerToBits width x) = x := by
  induction width generalizing x with
  | zero =>
    rw [Nat.lt_one_iff.mp small]
    rfl
  | succ width ih =>
    rw [integerToBits,bitsToInteger,ih (by rw [Nat.pow_succ] at small; omega)]
    rcases Nat.mod_two_eq_zero_or_one x with even | odd
    · simp only [even,Nat.zero_ne_one,decide_false,Bool.toNat_false]
      omega
    · simp only [odd,decide_true,Bool.toNat_true]
      omega

theorem integerToBits_split (width rest x : Nat) :
    integerToBits (width + rest) x =
      integerToBits width x ++ integerToBits rest (x / 2 ^ width) := by
  induction width generalizing x with
  | zero => rw [Nat.zero_add,Nat.pow_zero,Nat.div_one]; rfl
  | succ width ih =>
    rw [Nat.add_right_comm,integerToBits,ih,Nat.div_div_eq_div_mul,← Nat.pow_succ']
    rfl

theorem integerToBits_mod (width x : Nat) :
    integerToBits width (x % 2 ^ width) = integerToBits width x := by
  induction width generalizing x with
  | zero => rfl
  | succ width ih =>
    rw [integerToBits,integerToBits,Nat.pow_succ',Nat.mod_mul_right_mod,Nat.mod_mul_right_div_self,
      ih]

theorem integerToBits_join (small : acc < 2 ^ held) (x : Nat) :
    integerToBits (held + width) (acc ||| x <<< held) =
      integerToBits held acc ++ integerToBits width x := by
  have sum : acc ||| x <<< held = x * 2 ^ held + acc := by
    rw [Nat.or_comm,← Nat.shiftLeft_add_eq_or_of_lt small,Nat.shiftLeft_eq]
  have positive := Nat.two_pow_pos held
  rw [sum,integerToBits_split,← integerToBits_mod,Nat.mul_add_mod_self_right,Nat.mod_eq_of_lt small,
    Nat.add_comm,Nat.add_mul_div_right _ _ positive,Nat.div_eq_of_lt small,Nat.zero_add]

theorem shiftLeft_lt {x : Nat} (fits : x < 2 ^ width) (held : Nat) :
    x <<< held < 2 ^ (held + width) := by
  rw [Nat.shiftLeft_eq,Nat.pow_add,Nat.mul_comm]
  exact Nat.mul_lt_mul_of_pos_left fits (Nat.two_pow_pos held)

theorem join_lt (small : acc < 2 ^ held) {x : Nat} (fits : x < 2 ^ width) :
    acc ||| x <<< held < 2 ^ (held + width) :=
  Nat.or_lt_two_pow (Nat.lt_of_lt_of_le small (Nat.pow_le_pow_right (by decide) (by omega)))
    (shiftLeft_lt fits held)

theorem length_flatMap_integerToBits (xs : List Nat) :
    (xs.flatMap (integerToBits width)).length = xs.length * width := by
  induction xs with
  | nil => exact (Nat.zero_mul width).symm
  | cons x xs ih =>
    rw [flatMap_cons,length_append,integerToBits_length,ih,length_cons,Nat.succ_mul,Nat.add_comm]

theorem bitGroups_flatMap {xs : List Nat} (small : ∀ x ∈ xs, x < 2 ^ width) :
    bitGroups width xs.length (xs.flatMap (integerToBits width)) = xs := by
  induction xs with
  | nil => rfl
  | cons x xs ih =>
    obtain ⟨first,others⟩ := forall_mem_cons.mp small
    have front := integerToBits_length width x
    rw [length_cons,flatMap_cons,bitGroups,take_left' front,drop_left' front,
      bitsToInteger_integerToBits first,ih others]

def octetBits (octets : Bytes) : List Bool := (octets.map UInt8.toNat).flatMap (integerToBits 8)

theorem octetBits_length (octets : Bytes) : (octetBits octets).length = 8 * octets.length := by
  rw [octetBits,length_flatMap_integerToBits,length_map,Nat.mul_comm]

theorem octetBits_append (front back : Bytes) :
    octetBits (front ++ back) = octetBits front ++ octetBits back := by
  rw [octetBits,map_append,flatMap_append]
  rfl

theorem bitsToBytes_octetBits (octets : Bytes) : bitsToBytes (octetBits octets) = octets := by
  have count : ((octetBits octets).length + 7) / 8 = (octets.map UInt8.toNat).length := by
    rw [octetBits_length,length_map]
    omega
  have small : ∀ x ∈ octets.map UInt8.toNat, x < 2 ^ 8 := by
    intro x among
    obtain ⟨octet,-,rfl⟩ := mem_map.mp among
    exact octet.toNat_lt
  rw [bitsToBytes,count,octetBits,bitGroups_flatMap small,map_map]
  exact (map_congr_left fun octet _ => byte_of_toNat octet).trans (map_id octets)

end Chapulin.Lib
