/-
A key stream added to one part of a memory and written to another part, byte by
byte upwards.  The parts may be the same, apart, or overlap with the target
below; a byte is then read before anything is written over it.
-/

import Chapulin.Lib.Octets
import Mathlib.Data.List.Basic

namespace Chapulin.Lib

open List

/-- The `n` bytes of a memory from `offset` on. -/
def slice (memory : Bytes) (offset n : Nat) : Bytes := (memory.drop offset).take n

theorem slice_length {memory : Bytes} {offset n : Nat} (fits : offset + n ≤ memory.length) :
    (slice memory offset n).length = n := by
  rw [slice,length_take,length_drop]
  omega

theorem slice_succ {memory : Bytes} {offset n : Nat} (fits : offset + n < memory.length) :
    slice memory offset (n + 1) = slice memory offset n ++ [memory.getD (offset + n) 0] := by
  rw [slice,slice,take_add_one,getElem?_drop,getD_eq_getElem?_getD,
    getElem?_eq_getElem (by omega : offset + n < memory.length)]
  rfl

section Copy

variable {memory source : Bytes} {offset : Nat} (fits : offset + source.length ≤ memory.length)
include fits

theorem copyAt_slice : slice (copyAt memory offset source) offset source.length = source := by
  rw [slice,copyAt,append_assoc,drop_left' (length_take_of_le (by omega)),take_left]

theorem copyAt_slice_apart {from' n : Nat}
    (apart : from' + n ≤ offset ∨ offset + source.length ≤ from') :
    slice (copyAt memory offset source) from' n = slice memory from' n := by
  have before : (memory.take offset).length = offset := length_take_of_le (by omega)
  rcases apart with low | high
  · have front : (copyAt memory offset source).take (from' + n) = memory.take (from' + n) := by
      rw [copyAt,append_assoc,take_append_of_le_length (by omega),take_take,Nat.min_eq_left low]
    rw [slice,slice,take_drop,take_drop,front]
  · obtain ⟨more,rfl⟩ : ∃ more, from' = offset + source.length + more :=
      ⟨from' - (offset + source.length),by omega⟩
    have through : (memory.take offset ++ source).length = offset + source.length := by
      rw [length_append,before]
    rw [slice,slice,← drop_drop,copyAt,drop_left' through,drop_drop]

end Copy

theorem copyAt_copyAt {memory first second : Bytes} {offset : Nat}
    (fits : offset + first.length ≤ memory.length) (same : first.length = second.length) :
    copyAt (copyAt memory offset first) offset second = copyAt memory offset second := by
  have through : (memory.take offset ++ first).length = offset + second.length := by
    rw [length_append,length_take_of_le (by omega),same]
  have front : (copyAt memory offset first).take offset = memory.take offset :=
    copyAt_take (by omega)
  rw [copyAt,front,copyAt,drop_left' through,same]
  rfl

theorem getD_eq_slice {memory : Bytes} {offset : Nat} (inside : offset < memory.length) :
    slice memory offset 1 = [memory.getD offset 0] := by
  have one := @slice_succ memory offset 0 inside
  simpa [slice] using one

theorem copyAt_set {memory source : Bytes} {offset : Nat} {next : UInt8}
    (fits : offset + source.length < memory.length) :
    (copyAt memory offset source).set (offset + source.length) next =
      copyAt memory offset (source ++ [next]) := by
  have before : (memory.take offset ++ source).length = offset + source.length := by
    rw [length_append,length_take_of_le (by omega)]
  obtain ⟨head,tail,split⟩ : ∃ head tail,
      memory.drop (offset + source.length) = head :: tail :=
    exists_cons_of_length_pos (by rw [length_drop]; omega)
  have behind : memory.drop (offset + (source ++ [next]).length) = tail := by
    rw [length_append,length_singleton,← Nat.add_assoc,← drop_drop,split]
    rfl
  rw [copyAt,copyAt,split,behind,set_append_right _ _ (by omega),before,Nat.sub_self,← append_assoc,
    append_assoc (_ ++ _)]
  rfl

/-! ### A key stream -/

section Stream

variable (keystream : Nat → UInt8)

def addStream (bytes : Bytes) : Bytes := bytes.mapIdx fun i b => b ^^^ keystream i

@[simp] theorem addStream_length (bytes : Bytes) :
    (addStream keystream bytes).length = bytes.length := by
  rw [addStream,length_mapIdx]

theorem addStream_twice (bytes : Bytes) :
    addStream keystream (addStream keystream bytes) = bytes := by
  rw [addStream,addStream,mapIdx_mapIdx]
  have same : (fun i => (fun b => b ^^^ keystream i) ∘ fun b : UInt8 => b ^^^ keystream i) =
      fun _ b => b := by
    funext i b
    rw [Function.comp_apply,UInt8.xor_assoc,UInt8.xor_self,UInt8.xor_zero]
  rw [same]
  exact mapIdx_eq_iff.mpr fun i => by simp

def addLoop (source target : Nat) : Nat → Bytes → Bytes
  | 0, memory => memory
  | n + 1, memory =>
    let memory := addLoop source target n memory
    memory.set (target + n) (memory.getD (source + n) 0 ^^^ keystream n)

/-- The loop writes the source with the stream added, where no source byte is
overwritten before it is read. -/
theorem addLoop_eq {memory : Bytes} {source target n : Nat}
    (reads : source + n ≤ memory.length) (writes : target + n ≤ memory.length)
    (safe : target ≤ source ∨ source + n ≤ target) :
    addLoop keystream source target n memory =
      copyAt memory target (addStream keystream (slice memory source n)) := by
  induction n with
  | zero => simp [addLoop,slice,addStream,copyAt]
  | succ n ih =>
    have length : (addStream keystream (slice memory source n)).length = n := by
      rw [addStream_length,slice_length (by omega)]
    have written := ih (by omega) (by omega) (by omega)
    have inside : source + n <
        (copyAt memory target (addStream keystream (slice memory source n))).length := by
      rw [copyAt_length (by omega)]
      omega
    have unread : (copyAt memory target (addStream keystream (slice memory source n))).getD
        (source + n) 0 = memory.getD (source + n) 0 := by
      have same := @copyAt_slice_apart memory (addStream keystream (slice memory source n)) target
        (by omega) (source + n) 1 (by omega)
      rw [getD_eq_slice inside,getD_eq_slice (by omega)] at same
      exact singleton_inj.mp same
    have extends' := @copyAt_set memory (addStream keystream (slice memory source n)) target
      (memory.getD (source + n) 0 ^^^ keystream n) (by omega)
    rw [length] at extends'
    rw [addLoop,written,unread,extends',slice_succ (by omega)]
    congr 1
    rw [addStream,addStream,mapIdx_append,slice_length (by omega)]
    simp

end Stream

end Chapulin.Lib
