/-
Strings of length-prefixed vectors, one inside the other.

A frame says where the vectors of a string lie and how wide each length field
is.  The fields are what the encoding writes; `Frame.Exact` says of every one
of them that it reads back as the number of bytes behind it.
-/

import Chapulin.Lib.Der

namespace Chapulin.Lib

open List

/-- A number in `width` bytes, the most significant first. -/
def beOf : Nat → Nat → Bytes
  | 0, _ => []
  | width + 1, number => byte (number / 256 ^ width) :: beOf width number

@[simp] theorem beOf_length (width number : Nat) : (beOf width number).length = width := by
  induction width with
  | zero => rfl
  | succ width ih => rw [beOf,length_cons,ih]

theorem ofBytes_beOf_mod (width number : Nat) :
    Der.ofBytes (beOf width number) = number % 256 ^ width := by
  induction width with
  | zero => simp [beOf,Der.ofBytes,Nat.mod_one]
  | succ width ih =>
    rw [beOf,Der.ofBytes_cons,beOf_length,byte_toNat,ih,pow_succ,Nat.mod_mul,
      Nat.mul_comm (256 ^ width),Nat.add_comm]

theorem ofBytes_beOf {width number : Nat} (bounded : number < 256 ^ width) :
    Der.ofBytes (beOf width number) = number := by
  rw [ofBytes_beOf_mod,Nat.mod_eq_of_lt bounded]

theorem beOf_one (number : Nat) : beOf 1 number = [byte number] := by simp [beOf]

theorem beOf_two (number : Nat) : beOf 2 number = be16 number := by simp [beOf,be16]

theorem beOf_three (number : Nat) : beOf 3 number = be24 number := by simp [beOf,be24]

inductive Frame where
  | raw (bytes : Bytes)
  | seq (first rest : Frame)
  | vector (width : Nat) (body : Frame)

namespace Frame

def encode : Frame → Bytes
  | raw bytes => bytes
  | seq first rest => first.encode ++ rest.encode
  | vector width body => beOf width body.encode.length ++ body.encode

def lengthFields : Frame → List (Bytes × Bytes)
  | raw _ => []
  | seq first rest => first.lengthFields ++ rest.lengthFields
  | vector width body => (beOf width body.encode.length, body.encode) :: body.lengthFields

def Exact (frame : Frame) : Prop :=
  ∀ field ∈ frame.lengthFields, Der.ofBytes field.1 = field.2.length

def size : Frame → Nat
  | raw bytes => bytes.length
  | seq first rest => first.size + rest.size
  | vector width body => width + body.size

def all (frames : List Frame) : Frame := frames.foldr seq (raw [])

def NarrowFit : Frame → Prop
  | raw _ => True
  | seq first rest => first.NarrowFit ∧ rest.NarrowFit
  | vector width body => (2 ≤ width ∨ body.size < 256 ^ width) ∧ body.NarrowFit

@[simp] theorem encode_length (frame : Frame) : frame.encode.length = frame.size := by
  induction frame with
  | raw bytes => rfl
  | seq first rest first_ih rest_ih =>
    rw [encode,size,length_append,first_ih,rest_ih]
  | vector width body ih => rw [encode,size,length_append,beOf_length,ih]

@[simp] theorem all_nil : all [] = raw [] := rfl

@[simp] theorem all_cons (frame : Frame) (frames : List Frame) :
    all (frame :: frames) = seq frame (all frames) := rfl

theorem encode_all (frames : List Frame) : (all frames).encode = (frames.map encode).flatten := by
  induction frames with
  | nil => rfl
  | cons frame frames ih => rw [all_cons,encode,ih,map_cons,flatten_cons]

theorem size_all_append (frames more : List Frame) :
    (all (frames ++ more)).size = (all frames).size + (all more).size := by
  rw [← encode_length,← encode_length,← encode_length,encode_all,encode_all,encode_all,map_append,
    flatten_append,length_append]

theorem narrowFit_all {frames : List Frame} (each : ∀ frame ∈ frames, frame.NarrowFit) :
    (all frames).NarrowFit := by
  induction frames with
  | nil => exact trivial
  | cons frame frames ih =>
    exact ⟨each frame mem_cons_self,ih fun later among =>
      each later (mem_cons_of_mem frame among)⟩

theorem exact_of_narrowFit {frame : Frame} (short : frame.size < 65536)
    (narrow : frame.NarrowFit) : frame.Exact := by
  induction frame with
  | raw bytes => exact fun field none => absurd none not_mem_nil
  | seq first rest first_ih rest_ih =>
    rw [size] at short
    exact forall_mem_append.mpr ⟨first_ih (by omega) narrow.1,rest_ih (by omega) narrow.2⟩
  | vector width body ih =>
    rw [size] at short
    intro field among
    rcases mem_cons.mp among with rfl | inside
    · refine ofBytes_beOf ?_
      rw [encode_length]
      rcases narrow.1 with wide | fits
      · have power : 256 ^ 2 ≤ 256 ^ width := Nat.pow_le_pow_right (by decide) wide
        omega
      · exact fits
    · exact ih (by omega) narrow.2 field inside

end Frame

end Chapulin.Lib
