/-
Byte strings: big-endian numbers of fixed width, copies into a fixed buffer,
and strings of zeros.

Numbers are naturals and a byte is what is left of one after truncation, so an
encoder is total and the width of the field decides which numbers survive it.
-/

import Mathlib.Algebra.Ring.Nat
import Mathlib.Tactic.Common

namespace Chapulin.Lib

open List

abbrev Bytes := List UInt8

variable {mask target : Bytes} {offset : Nat}

def byte (number : Nat) : UInt8 := UInt8.ofNat number

variable (number : Nat)

@[simp] theorem byte_toNat : (byte number).toNat = number % 256 := by
  simp [byte,UInt8.toNat_ofNat']

@[simp] theorem byte_of_toNat (octet : UInt8) : byte octet.toNat = octet := by
  simp [byte]

theorem mod_eq_of_byte {left right : Nat} (same : byte left = byte right) :
    left % 256 = right % 256 := by
  rw [← byte_toNat,same,byte_toNat]

theorem byte_congr {left right : Nat} (same : left % 256 = right % 256) :
    byte left = byte right := by
  apply UInt8.toNat_inj.mp
  rw [byte_toNat,byte_toNat,same]

def be16 (number : Nat) : Bytes := [byte (number / 256),byte number]

def be24 (number : Nat) : Bytes := [byte (number / 65536),byte (number / 256),byte number]

def be32 (number : Nat) : Bytes := be16 (number / 65536) ++ be16 number

def be64 (number : Nat) : Bytes := be32 (number / 4294967296) ++ be32 number

def zeros (n : Nat) : Bytes := replicate n 0

/-- The string cut or filled with zeros to exactly `n` bytes, as a fixed array
holds it after a wipe and a copy. -/
def fitTo (n : Nat) (source : Bytes) : Bytes := source.take n ++ zeros (n - source.length)

@[simp] theorem be16_length : (be16 number).length = 2 := rfl

@[simp] theorem be24_length : (be24 number).length = 3 := rfl

@[simp] theorem be32_length : (be32 number).length = 4 := rfl

@[simp] theorem be64_length : (be64 number).length = 8 := rfl

@[simp] theorem zeros_length (n : Nat) : (zeros n).length = n := by simp [zeros]

@[simp] theorem fitTo_length (n : Nat) (source : Bytes) : (fitTo n source).length = n := by
  simp only [fitTo,length_append,length_take,zeros_length]
  omega

def ofBe16 (high low : UInt8) : Nat := high.toNat * 256 + low.toNat

def ofBe24 (high middle low : UInt8) : Nat :=
  high.toNat * 65536 + middle.toNat * 256 + low.toNat

theorem ofBe16_byte (bounded : number < 65536) :
    ofBe16 (byte (number / 256)) (byte number) = number := by
  simp only [ofBe16,byte_toNat]
  omega

theorem be16_inj {first second : Nat} (firstFits : first < 65536) (secondFits : second < 65536)
    (same : be16 first = be16 second) : first = second := by
  have octets := List.cons.inj same
  rw [← ofBe16_byte first firstFits,← ofBe16_byte second secondFits,octets.1,
    (List.cons.inj octets.2).1]

theorem counted_inj {first second left right : Bytes} (firstFits : first.length < 256)
    (secondFits : second.length < 256)
    (same : byte first.length :: (first ++ left) = byte second.length :: (second ++ right)) :
    first = second ∧ left = right := by
  have octets : byte first.length = byte second.length := (List.cons.inj same).1
  have numbers := mod_eq_of_byte octets
  have lengths : first.length = second.length := by omega
  exact append_inj (List.cons.inj same).2 lengths

theorem ofBe24_byte (bounded : number < 16777216) :
    ofBe24 (byte (number / 65536)) (byte (number / 256)) (byte number) = number := by
  simp only [ofBe24,byte_toNat]
  omega

theorem be16_ofBe16 (high low : UInt8) : be16 (ofBe16 high low) = [high,low] := by
  have lowBound := low.toNat_lt
  have highEq : byte (ofBe16 high low / 256) = high := by
    rw [← byte_of_toNat high]
    apply byte_congr
    simp only [ofBe16,byte_of_toNat]
    omega
  have lowEq : byte (ofBe16 high low) = low := by
    rw [← byte_of_toNat low]
    apply byte_congr
    simp only [ofBe16,byte_of_toNat]
    omega
  simp only [be16,highEq,lowEq]

theorem be24_ofBe24 (high middle low : UInt8) :
    be24 (ofBe24 high middle low) = [high,middle,low] := by
  have middleBound := middle.toNat_lt
  have lowBound := low.toNat_lt
  have highEq : byte (ofBe24 high middle low / 65536) = high := by
    rw [← byte_of_toNat high]
    apply byte_congr
    simp only [ofBe24,byte_of_toNat]
    omega
  have middleEq : byte (ofBe24 high middle low / 256) = middle := by
    rw [← byte_of_toNat middle]
    apply byte_congr
    simp only [ofBe24,byte_of_toNat]
    omega
  have lowEq : byte (ofBe24 high middle low) = low := by
    rw [← byte_of_toNat low]
    apply byte_congr
    simp only [ofBe24,byte_of_toNat]
    omega
  simp only [be24,highEq,middleEq,lowEq]

theorem ofBe16_lt (high low : UInt8) : ofBe16 high low < 65536 := by
  have highBound := high.toNat_lt
  have lowBound := low.toNat_lt
  simp only [ofBe16]
  omega

/-- The bytes of `source` copied over those of `target` from `offset` on. -/
def copyAt (target : Bytes) (offset : Nat) (source : Bytes) : Bytes :=
  target.take offset ++ source ++ target.drop (offset + source.length)

/-- Exclusive or of `mask` into the bytes of `target` from `offset` on. -/
def xorAt (target : Bytes) (offset : Nat) (mask : Bytes) : Bytes :=
  copyAt target offset
    (zipWith (· ^^^ ·) ((target.drop offset).take mask.length) mask)

theorem copyAt_length {source : Bytes} (fits : offset + source.length ≤ target.length) :
    (copyAt target offset source).length = target.length := by
  simp only [copyAt,length_append,length_take,length_drop]
  omega

theorem copyAt_take {source : Bytes} (inside : offset ≤ target.length) :
    (copyAt target offset source).take offset = target.take offset := by
  simp [copyAt,inside]

theorem copyAt_take_through {target source : Bytes} {offset : Nat}
    (inside : offset ≤ target.length) :
    (copyAt target offset source).take (offset + source.length) =
      target.take offset ++ source := by
  have leftLength : (target.take offset ++ source).length = offset + source.length := by
    simp [inside]
  rw [copyAt,← leftLength]
  exact take_left

/-! ### Exclusive or into a part of a string -/

theorem xorAt_first (first mask : UInt8) (rest : Bytes) :
    xorAt (first :: rest) 0 [mask] = (first ^^^ mask) :: rest := by
  simp [xorAt,copyAt]

theorem xorAt_succ (first : UInt8) (rest : Bytes) (offset : Nat) (mask : Bytes) :
    xorAt (first :: rest) (offset + 1) mask = first :: xorAt rest offset mask := by
  simp [xorAt,copyAt,Nat.add_right_comm offset 1]

theorem xorAt_split (before middle after mask : Bytes) (same : middle.length = mask.length) :
    xorAt (before ++ (middle ++ after)) before.length mask =
      before ++ (zipWith (· ^^^ ·) middle mask ++ after) := by
  simp [xorAt,copyAt,← same,drop_append]

theorem zipWith_xor_twice {bytes : Bytes} (same : bytes.length = mask.length) :
    zipWith (· ^^^ ·) (zipWith (· ^^^ ·) bytes mask) mask = bytes := by
  induction bytes generalizing mask with
  | nil => rfl
  | cons first rest ih =>
    cases mask with
    | nil => cases same
    | cons head tail =>
      have tails := ih (Nat.succ.inj same)
      simp only [zipWith_cons_cons,tails,UInt8.xor_assoc,UInt8.xor_self,UInt8.xor_zero]

private theorem cut_at (fits : offset + mask.length ≤ target.length) :
    ∃ before middle after, target = before ++ (middle ++ after) ∧ before.length = offset ∧
      middle.length = mask.length ∧ (zipWith (· ^^^ ·) middle mask).length = mask.length := by
  have width : ((target.drop offset).take mask.length).length = mask.length := by
    rw [length_take,length_drop]
    omega
  refine ⟨target.take offset,(target.drop offset).take mask.length,
    (target.drop offset).drop mask.length,?_,?_,width,?_⟩
  · rw [take_append_drop,take_append_drop]
  · rw [length_take]
    omega
  · rw [length_zipWith,width,Nat.min_self]

theorem xorAt_twice (fits : offset + mask.length ≤ target.length) :
    xorAt (xorAt target offset mask) offset mask = target := by
  obtain ⟨before,middle,after,rfl,rfl,same,width⟩ := cut_at fits
  rw [xorAt_split before middle after mask same,xorAt_split _ _ _ _ width,zipWith_xor_twice same]

theorem xorAt_drop {target mask : Bytes} {offset : Nat}
    (fits : offset + mask.length ≤ target.length) :
    (xorAt target offset mask).drop (offset + mask.length) =
      target.drop (offset + mask.length) := by
  obtain ⟨before,middle,after,rfl,rfl,same,width⟩ := cut_at fits
  rw [xorAt_split before middle after mask same,← drop_drop,← drop_drop,drop_left,drop_left,← width,
    drop_left,width,← same,drop_left]

theorem xorAt_length (fits : offset + mask.length ≤ target.length) :
    (xorAt target offset mask).length = target.length := by
  apply copyAt_length
  simp only [length_zipWith,length_take,length_drop]
  omega

end Chapulin.Lib
