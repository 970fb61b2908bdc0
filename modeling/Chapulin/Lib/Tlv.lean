/-
Blocks of items, each a two-byte type, a two-byte length and that many bytes.

A block is the concatenation of its items' encodings.  Reading an item off the
front of a string inverts the encoding, so a string is a block of at most one
list of items.
-/

import Chapulin.Lib.Octets

namespace Chapulin.Lib

open List

abbrev Item := Nat × Bytes

namespace Item

def Fits (item : Item) : Prop := item.1 < 65536 ∧ item.2.length < 65536

def encode (item : Item) : Bytes := be16 item.1 ++ (be16 item.2.length ++ item.2)

def encodeAll (items : List Item) : Bytes := (items.map encode).flatten

def read : Bytes → Option (Item × Bytes)
  | typeHigh :: typeLow :: lengthHigh :: lengthLow :: rest =>
    let length := ofBe16 lengthHigh lengthLow
    if rest.length < length then none
    else some ((ofBe16 typeHigh typeLow, rest.take length), rest.drop length)
  | _ => none

/-- All items of a string, none when something is left that is not an item.
The fuel bounds the number of items. -/
def readAll : Nat → Bytes → Option (List Item)
  | _, [] => some []
  | 0, _ :: _ => none
  | fuel + 1, head :: tail => do
      let (item, rest) ← read (head :: tail)
      let items ← readAll fuel rest
      some (item :: items)

@[simp] theorem encode_length (item : Item) : (encode item).length = 4 + item.2.length := by
  simp only [encode,length_append,be16_length]
  omega

@[simp] theorem encodeAll_nil : encodeAll [] = [] := rfl

@[simp] theorem encodeAll_cons (item : Item) (items : List Item) :
    encodeAll (item :: items) = encode item ++ encodeAll items := rfl

@[simp] theorem encodeAll_append (left right : List Item) :
    encodeAll (left ++ right) = encodeAll left ++ encodeAll right := by
  simp [encodeAll]

theorem read_encode {item : Item} (fits : Fits item) (rest : Bytes) :
    read (encode item ++ rest) = some (item, rest) := by
  obtain ⟨type,data⟩ := item
  obtain ⟨typeFits,dataFits⟩ := fits
  have shape : encode (type, data) ++ rest =
      byte (type / 256) :: byte type :: byte (data.length / 256) :: byte data.length ::
        (data ++ rest) := by
    simp [encode,be16]
  rw [shape]
  simp only [read,ofBe16_byte type typeFits,ofBe16_byte data.length dataFits]
  simp

theorem readAll_encodeAll {items : List Item} (fits : ∀ item ∈ items, Fits item) {fuel : Nat}
    (enough : items.length ≤ fuel) : readAll fuel (encodeAll items) = some items := by
  induction items generalizing fuel with
  | nil => cases fuel <;> rfl
  | cons item items ih =>
    obtain ⟨fuel,rfl⟩ : ∃ less, fuel = less + 1 := ⟨fuel - 1,by simp at enough; omega⟩
    have readHead := read_encode (fits item mem_cons_self) (encodeAll items)
    have readTail := @ih (forall_mem_cons.mp fits).2 fuel (by simpa using enough)
    rw [encodeAll_cons]
    have nonempty : encode item ++ encodeAll items =
        byte (item.1 / 256) :: (byte item.1 :: (be16 item.2.length ++ item.2) ++
          encodeAll items) := by
      simp [encode,be16]
    rw [nonempty] at readHead ⊢
    rw [readAll,readHead]
    simp [readTail]

theorem length_le_encodeAll {item : Item} {items : List Item} (among : item ∈ items) :
    item.2.length ≤ (encodeAll items).length := by
  induction items with
  | nil => simp at among
  | cons head tail ih =>
    rw [encodeAll_cons,length_append,encode_length]
    rcases mem_cons.mp among with rfl | later
    · omega
    · have := ih later
      omega

theorem length_le_encodeAll_length (items : List Item) :
    items.length ≤ (encodeAll items).length := by
  induction items with
  | nil => simp
  | cons head tail ih =>
    rw [encodeAll_cons,length_append,encode_length,length_cons]
    omega

def Absent (bytes : Bytes) : Prop := ∀ item rest, Fits item → bytes ≠ encode item ++ rest

theorem absent_nil : Absent [] := by
  intro item rest _ same
  have length := congrArg List.length same
  simp only [length_nil,length_append,encode_length] at length
  omega

theorem exists_split (bytes : Bytes) :
    ∃ items rest, (∀ item ∈ items, Fits item) ∧ Absent rest ∧ bytes = encodeAll items ++ rest := by
  by_cases absent : Absent bytes
  · exact ⟨[],bytes,by simp,absent,rfl⟩
  · unfold Absent at absent
    push Not at absent
    obtain ⟨item,tail,fits,rfl⟩ := absent
    have shorter : tail.length < (encode item ++ tail).length := by
      simp only [length_append,encode_length]
      omega
    obtain ⟨items,rest,allFit,ended,rfl⟩ := exists_split tail
    exact ⟨item :: items,rest,forall_mem_cons.mpr ⟨fits,allFit⟩,ended,by simp⟩
termination_by bytes.length

/-- Bytes have one reading as items and a rest no item starts. -/
theorem split_unique {left right : List Item} {leftRest rightRest : Bytes}
    (leftFits : ∀ item ∈ left, Fits item) (rightFits : ∀ item ∈ right, Fits item)
    (leftEnds : Absent leftRest) (rightEnds : Absent rightRest)
    (same : encodeAll left ++ leftRest = encodeAll right ++ rightRest) :
    left = right ∧ leftRest = rightRest := by
  induction left generalizing right with
  | nil =>
    cases right with
    | nil => exact ⟨rfl,same⟩
    | cons item items =>
      rw [encodeAll_cons,append_assoc] at same
      exact absurd same (leftEnds item _ (rightFits item mem_cons_self))
  | cons item items ih =>
    cases right with
    | nil =>
      rw [encodeAll_cons,append_assoc] at same
      exact absurd same.symm (rightEnds item _ (leftFits item mem_cons_self))
    | cons other others =>
      rw [encodeAll_cons,encodeAll_cons,append_assoc,append_assoc] at same
      have first := read_encode (leftFits item mem_cons_self) (encodeAll items ++ leftRest)
      have second := read_encode (rightFits other mem_cons_self)
        (encodeAll others ++ rightRest)
      rw [same,second] at first
      simp only [Option.some.injEq,Prod.mk.injEq] at first
      obtain ⟨rfl,tails⟩ := first
      obtain ⟨rfl,rests⟩ := ih (forall_mem_cons.mp leftFits).2 (forall_mem_cons.mp rightFits).2
        tails.symm
      exact ⟨rfl,rests⟩

end Item

end Chapulin.Lib
