/-
Base64 with padding (RFC 4648, section 4): the alphabet and the one canonical
encoding of a byte string.

A quantum of four symbols carries three octets.  The last quantum may carry two
or one, and then the bits no octet fills are zero and pad characters complete
it.  `Encodes` spells the encoding by the values of its symbols, which is the
form a decoder meets; `encodes_encode` and `Encodes.eq_encode` identify it with the
encoder.
-/

import Chapulin.Lib.Octets

namespace Chapulin.Lib.Base64

open List

def pad : UInt8 := 0x3d

def symbol (value : Nat) : UInt8 :=
  if value < 26 then byte (0x41 + value)
  else if value < 52 then byte (0x61 + (value - 26))
  else if value < 62 then byte (0x30 + (value - 52))
  else if value = 62 then 0x2b
  else 0x2f

def encode : Bytes → Bytes
  | first :: second :: third :: rest =>
    symbol (first.toNat / 4) ::
      symbol (first.toNat % 4 * 16 + second.toNat / 16) ::
      symbol (second.toNat % 16 * 4 + third.toNat / 64) ::
      symbol (third.toNat % 64) :: encode rest
  | [first,second] =>
    [symbol (first.toNat / 4),symbol (first.toNat % 4 * 16 + second.toNat / 16),
      symbol (second.toNat % 16 * 4),pad]
  | [first] => [symbol (first.toNat / 4),symbol (first.toNat % 4 * 16),pad,pad]
  | [] => []

def octet1 (first second : Nat) : UInt8 := byte (first * 4 + second / 16)

def octet2 (second third : Nat) : UInt8 := byte (second % 16 * 16 + third / 4)

def octet3 (third fourth : Nat) : UInt8 := byte (third % 4 * 64 + fourth)

/-- The characters of an encoding and the octets they carry, quantum by quantum. -/
inductive Encodes : Bytes → Bytes → Prop
  | done : Encodes [] []
  | one {first second : Nat} : first < 64 → second < 64 → second % 16 = 0 →
      Encodes [symbol first,symbol second,pad,pad] [octet1 first second]
  | two {first second third : Nat} : first < 64 → second < 64 → third < 64 → third % 4 = 0 →
      Encodes [symbol first,symbol second,symbol third,pad]
        [octet1 first second,octet2 second third]
  | full {first second third fourth : Nat} {chars octets : Bytes} :
      first < 64 → second < 64 → third < 64 → fourth < 64 → Encodes chars octets →
      Encodes (symbol first :: symbol second :: symbol third :: symbol fourth :: chars)
        (octet1 first second :: octet2 second third :: octet3 third fourth :: octets)

section Cut

variable {first second third fourth : Nat}

theorem octet1_div (small : first < 64) (small' : second < 64) :
    (octet1 first second).toNat / 4 = first := by
  rw [octet1,byte_toNat]
  omega

theorem octet1_mod (small : second < 64) :
    (octet1 first second).toNat % 4 * 16 = second / 16 * 16 := by
  rw [octet1,byte_toNat]
  omega

theorem octet2_div (small : third < 64) : (octet2 second third).toNat / 16 = second % 16 := by
  rw [octet2,byte_toNat]
  omega

theorem octet2_mod (small : third < 64) :
    (octet2 second third).toNat % 16 * 4 = third / 4 * 4 := by
  rw [octet2,byte_toNat]
  omega

theorem octet3_div (small : fourth < 64) : (octet3 third fourth).toNat / 64 = third % 4 := by
  rw [octet3,byte_toNat]
  omega

theorem octet3_mod (small : fourth < 64) : (octet3 third fourth).toNat % 64 = fourth := by
  rw [octet3,byte_toNat]
  omega

end Cut

theorem Encodes.eq_encode {chars octets : Bytes} (encodes : Encodes chars octets) :
    chars = encode octets := by
  induction encodes with
  | done => rfl
  | one first second unused =>
    rw [encode,octet1_div first second,octet1_mod second,
      Nat.div_mul_cancel (Nat.dvd_of_mod_eq_zero unused)]
  | two first second third unused =>
    rw [encode,octet1_div first second,octet1_mod second,octet2_div third,octet2_mod third,
      Nat.div_add_mod',Nat.div_mul_cancel (Nat.dvd_of_mod_eq_zero unused)]
  | full first second third fourth _ ih =>
    rw [encode,octet1_div first second,octet1_mod second,octet2_div third,octet2_mod third,
      octet3_div fourth,octet3_mod fourth,Nat.div_add_mod',Nat.div_add_mod',← ih]

/-! The values an encoder cuts an octet into give the octet back. -/

theorem octet1_cut (octet : UInt8) {low : Nat} (small : low < 16) :
    octet1 (octet.toNat / 4) (octet.toNat % 4 * 16 + low) = octet := by
  have below := octet.toNat_lt
  apply UInt8.toNat_inj.mp
  rw [octet1,byte_toNat]
  omega

theorem octet2_cut (octet : UInt8) (high : Nat) {low : Nat} (small : low < 4) :
    octet2 (high * 16 + octet.toNat / 16) (octet.toNat % 16 * 4 + low) = octet := by
  have below := octet.toNat_lt
  apply UInt8.toNat_inj.mp
  rw [octet2,byte_toNat]
  omega

theorem octet3_cut (octet : UInt8) (high : Nat) :
    octet3 (high * 4 + octet.toNat / 64) (octet.toNat % 64) = octet := by
  have below := octet.toNat_lt
  apply UInt8.toNat_inj.mp
  rw [octet3,byte_toNat]
  omega

/-- The encoder's output is an encoding of its input. -/
theorem encodes_encode (octets : Bytes) : Encodes (encode octets) octets := by
  induction octets using encode.induct with
  | case1 first second third rest ih =>
    have belowFirst := first.toNat_lt
    have belowSecond := second.toNat_lt
    have belowThird := third.toNat_lt
    have quantum := Encodes.full
      (by omega : first.toNat / 4 < 64)
      (by omega : first.toNat % 4 * 16 + second.toNat / 16 < 64)
      (by omega : second.toNat % 16 * 4 + third.toNat / 64 < 64)
      (by omega : third.toNat % 64 < 64) ih
    rw [octet1_cut first (by omega),octet2_cut second _ (by omega),octet3_cut] at quantum
    exact quantum
  | case2 first second =>
    have belowFirst := first.toNat_lt
    have belowSecond := second.toNat_lt
    have quantum := Encodes.two
      (by omega : first.toNat / 4 < 64)
      (by omega : first.toNat % 4 * 16 + second.toNat / 16 < 64)
      (by omega : second.toNat % 16 * 4 + 0 < 64) (by omega)
    rw [octet1_cut first (by omega),octet2_cut second _ (by omega)] at quantum
    exact quantum
  | case3 first =>
    have belowFirst := first.toNat_lt
    have quantum := Encodes.one
      (by omega : first.toNat / 4 < 64) (by omega : first.toNat % 4 * 16 + 0 < 64) (by omega)
    rw [octet1_cut first (by omega)] at quantum
    exact quantum
  | case4 => exact .done

theorem Encodes.mem {chars octets : Bytes} (encodes : Encodes chars octets) :
    ∀ c ∈ chars, c = pad ∨ ∃ value, value < 64 ∧ c = symbol value := by
  induction encodes with
  | done => simp
  | one first second _ =>
    simp only [forall_mem_cons]
    exact ⟨.inr ⟨_,first,rfl⟩,.inr ⟨_,second,rfl⟩,.inl trivial,.inl trivial,by simp⟩
  | two first second third _ =>
    simp only [forall_mem_cons]
    exact ⟨.inr ⟨_,first,rfl⟩,.inr ⟨_,second,rfl⟩,.inr ⟨_,third,rfl⟩,.inl trivial,by simp⟩
  | full first second third fourth _ ih =>
    simp only [forall_mem_cons]
    exact ⟨.inr ⟨_,first,rfl⟩,.inr ⟨_,second,rfl⟩,.inr ⟨_,third,rfl⟩,.inr ⟨_,fourth,rfl⟩,ih⟩

end Chapulin.Lib.Base64
