/-
Formats of byte strings: which values a field may hold and the bytes that spell
each of them, with vectors of bytes and lists of fields behind their lengths.

A format says nothing of a reader.  A reader is compared with it in two
directions: what it does on a spelled value with anything behind, and that what
it takes is a spelled value.
-/

import Chapulin.Lib.Octets

namespace Chapulin.Lib

open List

structure Format (α : Type) where
  Form : α → Prop
  encode : α → Bytes

namespace Format

variable {α : Type}

def encodeAll (f : Format α) (xs : List α) : Bytes := (xs.map f.encode).flatten

@[simp] theorem encodeAll_nil (f : Format α) : f.encodeAll [] = [] := rfl

@[simp] theorem encodeAll_cons (f : Format α) (x : α) (xs : List α) :
    f.encodeAll (x :: xs) = f.encode x ++ f.encodeAll xs := rfl

def code : Format Nat := ⟨fun number => number < 65536,be16⟩

/-- At least `least` bytes behind a length of one byte. -/
def vector8 (least : Nat) : Format Bytes :=
  ⟨fun bytes => least ≤ bytes.length ∧ bytes.length < 256,fun bytes => byte bytes.length :: bytes⟩

/-- At least `least` bytes behind a length of two bytes. -/
def vector16 (least : Nat) : Format Bytes :=
  ⟨fun bytes => least ≤ bytes.length ∧ bytes.length < 65536,fun bytes => be16 bytes.length ++ bytes⟩

/-- Fields that fill at least `least` bytes, behind a length of one byte. -/
def list8 (f : Format α) (least : Nat) : Format (List α) :=
  ⟨fun xs => (∀ x ∈ xs, f.Form x) ∧ least ≤ (f.encodeAll xs).length ∧
      (f.encodeAll xs).length < 256,fun xs => byte (f.encodeAll xs).length :: f.encodeAll xs⟩

/-- Fields that fill at least `least` bytes, behind a length of two bytes. -/
def list16 (f : Format α) (least : Nat) : Format (List α) :=
  ⟨fun xs => (∀ x ∈ xs, f.Form x) ∧ least ≤ (f.encodeAll xs).length ∧
      (f.encodeAll xs).length < 65536,fun xs => be16 (f.encodeAll xs).length ++ f.encodeAll xs⟩

@[simp] theorem code_encodeAll_length (codes : List Nat) :
    (code.encodeAll codes).length = 2 * codes.length := by
  induction codes with
  | nil => rfl
  | cons first rest ih =>
    rw [encodeAll_cons,length_append,ih,length_cons]
    change 2 + 2 * rest.length = _
    omega

theorem exists_codes (count : Nat) (bytes : Bytes) (even : bytes.length = 2 * count) :
    ∃ codes : List Nat, (∀ number ∈ codes, code.Form number) ∧ codes.length = count ∧
      bytes = code.encodeAll codes := by
  induction count generalizing bytes with
  | zero => exact ⟨[],by simp,rfl,length_eq_zero_iff.mp even⟩
  | succ count ih =>
    rcases bytes with _ | ⟨high,_ | ⟨low,rest⟩⟩
    · simp at even
    · simp at even
      omega
    · obtain ⟨codes,formed,counted,rfl⟩ := ih rest (by simp at even; omega)
      refine ⟨ofBe16 high low :: codes,forall_mem_cons.mpr ⟨ofBe16_lt high low,formed⟩,
        by simp [counted],?_⟩
      rw [encodeAll_cons]
      change _ = be16 (ofBe16 high low) ++ _
      rw [be16_ofBe16]
      rfl

/-! ### Where a spelling ends -/

def Delimited (f : Format α) : Prop :=
  ∀ ⦃x y : α⦄ ⦃left right : Bytes⦄, f.Form x → f.Form y →
    f.encode x ++ left = f.encode y ++ right → x = y ∧ left = right

theorem delimited_code : code.Delimited := by
  intro x y left right xForm yForm same
  obtain ⟨codes,rests⟩ := append_inj same rfl
  exact ⟨be16_inj xForm yForm codes,rests⟩

theorem delimited_vector8 (least : Nat) : (vector8 least).Delimited := by
  intro x y left right xForm yForm same
  exact counted_inj xForm.2 yForm.2 same

variable {f : Format α}

theorem Delimited.encodeAll_inj (each : f.Delimited) (solid : ∀ x, f.encode x ≠ [])
    {xs ys : List α} (xsForm : ∀ x ∈ xs, f.Form x) (ysForm : ∀ y ∈ ys, f.Form y)
    (same : f.encodeAll xs = f.encodeAll ys) : xs = ys := by
  induction xs generalizing ys with
  | nil =>
    cases ys with
    | nil => rfl
    | cons y ys => exact absurd (append_eq_nil_iff.mp same.symm).1 (solid y)
  | cons x xs ih =>
    cases ys with
    | nil => exact absurd (append_eq_nil_iff.mp same).1 (solid x)
    | cons y ys =>
      obtain ⟨rfl,rests⟩ := each (xsForm x mem_cons_self) (ysForm y mem_cons_self) same
      rw [ih (forall_mem_cons.mp xsForm).2 (forall_mem_cons.mp ysForm).2 rests]

theorem Delimited.list16 (each : f.Delimited) (solid : ∀ x, f.encode x ≠ []) (least : Nat) :
    (f.list16 least).Delimited := by
  intro xs ys left right xsForm ysForm same
  change be16 _ ++ _ ++ left = be16 _ ++ _ ++ right at same
  rw [append_assoc,append_assoc] at same
  obtain ⟨lengths,behind⟩ := append_inj same rfl
  obtain ⟨spellings,rests⟩ :=
    append_inj behind (be16_inj xsForm.2.2 ysForm.2.2 lengths)
  exact ⟨each.encodeAll_inj solid xsForm.1 ysForm.1 spellings,rests⟩

end Format

end Chapulin.Lib
