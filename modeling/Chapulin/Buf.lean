/-
The bounded writer and reader every message builder and parser runs on
(`buf.c`).  Both carry a sticky error: once a call does not fit, every later
call leaves the error set, and the caller checks it once at the end.

`Writes step bytes` says what one builder step does to every writer: it appends
`bytes` when they fit and sets the error when they do not.  The rules below
compose such facts, so a builder's output is read off its steps.
-/

import Chapulin.Lib.Proc
import Chapulin.Lib.Tlv

namespace Chapulin

open Lib Proc List

structure Wbuf where
  out : Bytes
  cap : Nat
  err : Bool
  deriving DecidableEq, Repr

abbrev Writer := Wbuf → Wbuf

variable {bytes : Bytes} {content : Writer}

def wbInit (cap : Nat) : Wbuf := { out := [], cap := cap, err := false }

def wbRoom (w : Wbuf) (n : Nat) : Bool := !(w.err || decide (n > w.cap - w.out.length))

def wbBytes (src : Bytes) : Writer := fun w =>
  if wbRoom w src.length then { w with out := w.out ++ src } else { w with err := true }

def wbU8 (v : Nat) : Writer := wbBytes [byte v]

def wbU16 (v : Nat) : Writer := fun w => wbU8 v (wbU8 (v / 256) w)

def wbMark (n : Nat) : Writer := wbBytes (replicate n 0)

/-- Rewrites a marked length field of `width` bytes at `off` with the number of
bytes written after it. -/
def wbPatch (width : Nat) (encode : Nat → Bytes) (off : Nat) : Writer := fun w =>
  if w.err then w else { w with out := copyAt w.out off (encode (w.out.length - off - width)) }

def wbPatch16 (off : Nat) : Writer := wbPatch 2 be16 off

def wbPatch24 (off : Nat) : Writer := wbPatch 3 be24 off

def wbAll (steps : List Writer) : Writer := fun w => steps.foldl (fun w step => step w) w

/-- The `wb_mark(w, 2)` .. `wb_patch16` bracket around a vector's content. -/
def wbNest16 (content : Writer) : Writer := fun w =>
  wbPatch16 w.out.length (content (wbMark 2 w))

/-- The `wb_mark(w, 3)` .. `wb_patch24` bracket around a message body. -/
def wbNest24 (content : Writer) : Writer := fun w =>
  wbPatch24 w.out.length (content (wbMark 3 w))

/-- The builder's result: its bytes, or none (a length of 0 in the source) when
some step did not fit. -/
def wbResult (w : Wbuf) : Option Bytes := if w.err then none else some w.out

/-! ### What a builder step writes -/

structure Writes (step : Writer) (bytes : Bytes) : Prop where
  sticky : ∀ w, w.err = true → (step w).err = true
  overrun : ∀ w, w.err = false → w.out.length ≤ w.cap →
    w.cap < w.out.length + bytes.length → (step w).err = true
  fits : ∀ w, w.err = false → w.out.length + bytes.length ≤ w.cap →
    step w = { w with out := w.out ++ bytes }

theorem writes_bytes (src : Bytes) : Writes (wbBytes src) src where
  sticky w failed := by simp [wbBytes,wbRoom,failed]
  overrun w live inside beyond := by
    have noRoom : src.length > w.cap - w.out.length := by omega
    simp [wbBytes,wbRoom,noRoom]
  fits w live room := by
    have roomLeft : ¬ src.length > w.cap - w.out.length := by omega
    simp only [wbBytes,wbRoom,live,roomLeft,decide_false,Bool.or_self,Bool.not_false,if_true]

theorem Writes.id : Writes (fun w => w) [] where
  sticky _ failed := failed
  overrun w live inside beyond := by simp at beyond; omega
  fits w live room := by simp

/-- Writers in sequence write their bytes in sequence. -/
theorem Writes.comp {first second : Writer} {left right : Bytes}
    (writesFirst : Writes first left) (writesSecond : Writes second right) :
    Writes (fun w => second (first w)) (left ++ right) where
  sticky w failed := writesSecond.sticky _ (writesFirst.sticky w failed)
  overrun w live inside beyond := by
    by_cases firstFits : w.out.length + left.length ≤ w.cap
    · rw [writesFirst.fits w live firstFits]
      apply writesSecond.overrun { w with out := w.out ++ left } live
      · simpa using firstFits
      · simp only [length_append] at beyond ⊢
        omega
    · exact writesSecond.sticky _ (writesFirst.overrun w live inside (by omega))
  fits w live room := by
    simp only [length_append] at room
    rw [writesFirst.fits w live (by omega),
      writesSecond.fits { w with out := w.out ++ left } live (by simp; omega)]
    simp

theorem writes_u8 (v : Nat) : Writes (wbU8 v) [byte v] := writes_bytes _

theorem writes_u16 (v : Nat) : Writes (wbU16 v) (be16 v) :=
  (writes_u8 (v / 256)).comp (writes_u8 v)

theorem writes_mark (n : Nat) : Writes (wbMark n) (replicate n 0) := writes_bytes _

theorem writes_all {steps : List Writer} {pieces : List Bytes}
    (each : List.Forall₂ Writes steps pieces) : Writes (wbAll steps) pieces.flatten := by
  induction each with
  | nil => exact Writes.id
  | cons writesHead _ ih => exact writesHead.comp ih

private theorem copyAt_mark (before body : Bytes) (n : Nat) (patch : Bytes)
    (width : patch.length = n) :
    copyAt (before ++ (replicate n 0 ++ body)) before.length patch =
      before ++ (patch ++ body) := by
  simp [copyAt,width,drop_append]

private theorem writes_patched {width : Nat} {encode : Nat → Bytes} (inner : Writes content bytes)
    (fixed : ∀ n, (encode n).length = width) :
    Writes (fun w => wbPatch width encode w.out.length (content (wbMark width w)))
      (encode bytes.length ++ bytes) := by
  have whole := (writes_mark width).comp inner
  have sameLength : (encode bytes.length ++ bytes).length =
      (replicate width (0 : UInt8) ++ bytes).length := by
    simp [fixed]
  refine ⟨?_,?_,?_⟩
  · intro w failed
    have failedInside := whole.sticky w failed
    simp only [wbPatch,failedInside,if_true]
  · intro w live inside beyond
    have failedInside := whole.overrun w live inside (by rw [← sameLength]; exact beyond)
    simp only [wbPatch,failedInside,if_true]
  · intro w live room
    have written := whole.fits w live (by rw [← sameLength]; exact room)
    simp only [wbPatch]
    rw [written]
    have length :
        (w.out ++ (replicate width 0 ++ bytes)).length - w.out.length - width =
          bytes.length := by
      simp only [length_append,length_replicate]
      omega
    simp only [live,Bool.false_eq_true,if_false,length]
    rw [copyAt_mark w.out bytes width _ (fixed _)]

theorem writes_nest16 (inner : Writes content bytes) :
    Writes (wbNest16 content) (be16 bytes.length ++ bytes) :=
  writes_patched inner be16_length

theorem writes_nest24 (inner : Writes content bytes) :
    Writes (wbNest24 content) (be24 bytes.length ++ bytes) :=
  writes_patched inner be24_length

theorem wbResult_of_writes {step : Writer} (writes : Writes step bytes) (cap : Nat) :
    wbResult (step (wbInit cap)) = if bytes.length ≤ cap then some bytes else none := by
  by_cases room : bytes.length ≤ cap
  · rw [writes.fits (wbInit cap) rfl (by simpa [wbInit] using room)]
    simp [wbResult,wbInit,room]
  · have failed := writes.overrun (wbInit cap) rfl (by simp [wbInit])
      (by simp [wbInit]; omega)
    simp [wbResult,failed,room]

theorem wbResult_length {step : Writer} {out : Bytes} (writes : Writes step bytes) {cap : Nat}
    (built : wbResult (step (wbInit cap)) = some out) : out.length ≤ cap := by
  rw [wbResult_of_writes writes] at built
  split at built
  · rename_i room
    cases built
    exact room
  · cases built

/-! ### The reader -/

structure Rbuf where
  rest : Bytes
  err : Bool
  deriving DecidableEq, Repr

variable {r : Rbuf}

def rbInit (data : Bytes) : Rbuf := { rest := data, err := false }

/-- The next `n` bytes, or none (`NULL`) with the error set when fewer are left. -/
def rbBytes (n : Nat) (r : Rbuf) : Option Bytes × Rbuf :=
  if r.err || decide (n > r.rest.length) then (none, { r with err := true })
  else (some (r.rest.take n), { r with rest := r.rest.drop n })

def rbU8 (r : Rbuf) : Nat × Rbuf :=
  match r.err, r.rest with
  | false, octet :: rest => (octet.toNat, { rest := rest, err := false })
  | _, _ => (0, { r with err := true })

def rbU16 (r : Rbuf) : Nat × Rbuf :=
  let (hi, r) := rbU8 r
  let (lo, r) := rbU8 r
  (hi * 256 + lo, r)

def rbU24 (r : Rbuf) : Nat × Rbuf :=
  let (hi, r) := rbU8 r
  let (mid, r) := rbU8 r
  let (lo, r) := rbU8 r
  (hi * 65536 + mid * 256 + lo, r)

def rbLeft (r : Rbuf) : Nat := if r.err then 0 else r.rest.length

@[simp] theorem rbInit_rest (data : Bytes) : (rbInit data).rest = data := rfl

@[simp] theorem rbInit_err (data : Bytes) : (rbInit data).err = false := rfl

@[simp] theorem rbU8_cons (octet : UInt8) (rest : Bytes) :
    rbU8 ⟨octet :: rest,false⟩ = (octet.toNat, ⟨rest,false⟩) := rfl

@[simp] theorem rbU16_cons (hi lo : UInt8) (rest : Bytes) :
    rbU16 ⟨hi :: lo :: rest,false⟩ = (ofBe16 hi lo, ⟨rest,false⟩) := rfl

@[simp] theorem rbU24_cons (hi mid lo : UInt8) (rest : Bytes) :
    rbU24 ⟨hi :: mid :: lo :: rest,false⟩ = (ofBe24 hi mid lo, ⟨rest,false⟩) := rfl

@[simp] theorem rbLeft_live (rest : Bytes) : rbLeft ⟨rest,false⟩ = rest.length := rfl

theorem rbU16_be16 (number : Nat) (rest : Bytes) (bounded : number < 65536) :
    rbU16 ⟨be16 number ++ rest,false⟩ = (number, ⟨rest,false⟩) := by
  change rbU16 ⟨byte (number / 256) :: byte number :: rest,false⟩ = _
  rw [rbU16_cons,ofBe16_byte number bounded]

theorem rbU24_be24 (number : Nat) (rest : Bytes) (bounded : number < 16777216) :
    rbU24 ⟨be24 number ++ rest,false⟩ = (number, ⟨rest,false⟩) := by
  change rbU24 ⟨byte (number / 65536) :: byte (number / 256) :: byte number :: rest,false⟩ = _
  rw [rbU24_cons,ofBe24_byte number bounded]

theorem rbBytes_append (taken rest : Bytes) :
    rbBytes taken.length ⟨taken ++ rest,false⟩ = (some taken, ⟨rest,false⟩) := by
  simp [rbBytes]

theorem rbU8_inv (live : (rbU8 r).2.err = false) :
    ∃ octet rest, r = ⟨octet :: rest,false⟩ ∧ rbU8 r = (octet.toNat, ⟨rest,false⟩) := by
  rcases r with ⟨rest,err⟩
  cases err with
  | true => simp [rbU8] at live
  | false =>
    cases rest with
    | nil => simp [rbU8] at live
    | cons octet rest => exact ⟨octet,rest,rfl,rfl⟩

theorem rbU8_err_of_err (failed : r.err = true) : (rbU8 r).2.err = true := by
  rcases r with ⟨rest,err⟩
  cases failed
  rfl

theorem rbU16_inv (live : (rbU16 r).2.err = false) :
    ∃ hi lo rest, r = ⟨hi :: lo :: rest,false⟩ ∧
      rbU16 r = (ofBe16 hi lo, ⟨rest,false⟩) := by
  have second : (rbU8 (rbU8 r).2).2.err = false := live
  have first : (rbU8 r).2.err = false := by
    by_contra failed
    have stuck := rbU8_err_of_err (r := (rbU8 r).2) (by simpa using failed)
    rw [stuck] at second
    cases second
  obtain ⟨hi,tail,rfl,read⟩ := rbU8_inv first
  rw [read] at second
  obtain ⟨lo,rest,same,_⟩ := rbU8_inv second
  cases same
  exact ⟨hi,lo,rest,rfl,rfl⟩

theorem rbU16_err_of_err (failed : r.err = true) : (rbU16 r).2.err = true :=
  rbU8_err_of_err (rbU8_err_of_err failed)

theorem rbU24_inv (live : (rbU24 r).2.err = false) :
    ∃ hi mid lo rest, r = ⟨hi :: mid :: lo :: rest,false⟩ ∧
      rbU24 r = (ofBe24 hi mid lo, ⟨rest,false⟩) := by
  have last : (rbU16 (rbU8 r).2).2.err = false := live
  have first : (rbU8 r).2.err = false := by
    by_contra failed
    have stuck := rbU16_err_of_err (r := (rbU8 r).2) (by simpa using failed)
    rw [stuck] at last
    cases last
  obtain ⟨hi,tail,rfl,read⟩ := rbU8_inv first
  rw [read] at last
  obtain ⟨mid,lo,rest,same,_⟩ := rbU16_inv last
  cases same
  exact ⟨hi,mid,lo,rest,rfl,rfl⟩

theorem rbBytes_eq_some {n : Nat} {next : Rbuf} {taken : Bytes}
    (read : rbBytes n r = (some taken, next)) :
    r = ⟨taken ++ next.rest,false⟩ ∧ next.err = false ∧ taken.length = n := by
  rcases r with ⟨rest,err⟩
  cases err with
  | true => simp [rbBytes] at read
  | false =>
    by_cases short : n > rest.length
    · simp [rbBytes,short] at read
    · simp only [rbBytes,Bool.false_or,short,decide_false,Bool.false_eq_true,if_false,Prod.mk.injEq,
        Option.some.injEq] at read
      obtain ⟨rfl,rfl⟩ := read
      simp only [take_append_drop,length_take,true_and]
      omega

theorem rbU8_cases (bytes : Bytes) :
    (∃ octet rest, bytes = octet :: rest ∧ rbU8 ⟨bytes,false⟩ = (octet.toNat, ⟨rest,false⟩)) ∨
      (bytes = [] ∧ (rbU8 ⟨bytes,false⟩).2.err = true) := by
  cases bytes with
  | nil => exact .inr ⟨rfl,rfl⟩
  | cons octet rest => exact .inl ⟨octet,rest,rfl,rfl⟩

/-- A read of a two-byte number finds one or leaves the reader failed. -/
theorem rbU16_cases (bytes : Bytes) :
    (∃ number rest, number < 65536 ∧ bytes = be16 number ++ rest ∧
        rbU16 ⟨bytes,false⟩ = (number, ⟨rest,false⟩)) ∨
      (bytes.length < 2 ∧ (rbU16 ⟨bytes,false⟩).2.err = true) := by
  rcases bytes with _ | ⟨hi,_ | ⟨lo,rest⟩⟩
  · exact .inr ⟨by simp,rfl⟩
  · exact .inr ⟨by simp,rfl⟩
  · refine .inl ⟨ofBe16 hi lo,rest,ofBe16_lt hi lo,?_,rfl⟩
    rw [be16_ofBe16]
    rfl

/-- A read takes the bytes it asks for, or fails and takes none. -/
theorem rbBytes_cases (n : Nat) (bytes : Bytes) :
    (∃ taken rest, taken.length = n ∧ bytes = taken ++ rest ∧
        rbBytes n ⟨bytes,false⟩ = (some taken, ⟨rest,false⟩)) ∨
      (bytes.length < n ∧ rbBytes n ⟨bytes,false⟩ = (none, ⟨bytes,true⟩)) := by
  by_cases short : bytes.length < n
  · exact .inr ⟨short,by simp [rbBytes,short]⟩
  · refine .inl ⟨bytes.take n,bytes.drop n,by simp; omega,(take_append_drop n bytes).symm,?_⟩
    simp [rbBytes,short]

theorem rbBytes_failed {n : Nat} (failed : r.err = true) :
    rbBytes n r = (none, { r with err := true }) := by
  simp [rbBytes,failed]

/-! ### Loops over a block of items -/

/-- An item's type, length and bytes; the bytes are none when they run short. -/
def rbItem (r : Rbuf) : Nat × Option Bytes × Rbuf :=
  let (type, r) := rbU16 r
  let (length, r) := rbU16 r
  let (data, r) := rbBytes length r
  (type, data, r)

/-- The `while (rb_left(&r) > 0)` loop over a block of extensions: `onShort` is
the return when an extension runs past the block.  The fuel is the number of
bytes, and an extension takes at least four. -/
def rbForItems {σ ε : Type} (onShort : Proc σ ε Unit) (step : Nat → Bytes → Proc σ ε Unit) :
    Nat → Rbuf → Proc σ ε Unit
  | 0, _ => Proc.ret ()
  | fuel + 1, r =>
    if rbLeft r = 0 then Proc.ret ()
    else
      match rbItem r with
      | (_, none, _) => onShort
      | (type, some data, r) => do
          step type data
          rbForItems onShort step fuel r

theorem rbForItems_keeps {σ ε ρ : Type} {view : σ → ρ} {onShort : Proc σ ε Unit}
    {step : Nat → Bytes → Proc σ ε Unit} (short : Keeps view onShort)
    (kept : ∀ type data, Keeps view (step type data)) (fuel : Nat) (r : Rbuf) :
    Keeps view (rbForItems onShort step fuel r) := by
  induction fuel generalizing r with
  | zero => exact keeps_ret _
  | succ fuel ih =>
    unfold rbForItems
    refine .ite (keeps_ret _) ?_
    rcases rbItem r with ⟨type,_ | data,rest⟩
    · exact short
    · exact (kept type data).bind fun _ => ih rest

def runItems {σ ε : Type} (step : Nat → Bytes → Proc σ ε Unit) : List Item → Proc σ ε Unit
  | [] => Proc.ret ()
  | item :: items => do
      step item.1 item.2
      runItems step items

theorem rbItem_encode {item : Item} (fits : item.Fits) (rest : Bytes) :
    rbItem ⟨item.encode ++ rest,false⟩ = (item.1, some item.2, ⟨rest,false⟩) := by
  have shape : item.encode ++ rest = be16 item.1 ++ (be16 item.2.length ++ (item.2 ++ rest)) := by
    simp [Item.encode]
  rw [shape]
  simp only [rbItem,rbU16_be16 _ _ fits.1,rbU16_be16 _ _ fits.2,rbBytes_append]

theorem rbItem_eq_some {next : Rbuf} {type : Nat} {data : Bytes}
    (read : rbItem r = (type, some data, next)) :
    r = ⟨Item.encode (type, data) ++ next.rest,false⟩ ∧ next.err = false ∧
      Item.Fits (type, data) := by
  simp only [rbItem,Prod.mk.injEq] at read
  obtain ⟨rfl,dataEq,rfl⟩ := read
  obtain ⟨afterLength,nextLive,lengthEq⟩ := rbBytes_eq_some (Prod.ext dataEq rfl)
  have lengthLive : (rbU16 (rbU16 r).2).2.err = false := by rw [afterLength]
  obtain ⟨lengthHigh,lengthLow,tail,afterType,-⟩ := rbU16_inv lengthLive
  have typeLive : (rbU16 r).2.err = false := by rw [afterType]
  obtain ⟨typeHigh,typeLow,whole,rfl,-⟩ := rbU16_inv typeLive
  simp only [rbU16_cons,Rbuf.mk.injEq,and_true] at afterType
  subst afterType
  simp only [rbU16_cons,Rbuf.mk.injEq,and_true] at afterLength lengthEq nextLive ⊢
  refine ⟨?_,nextLive,ofBe16_lt ..,by rw [lengthEq]; exact ofBe16_lt ..⟩
  simp only [Item.encode,lengthEq,be16_ofBe16,cons_append,nil_append]
  rw [← afterLength]

theorem rbItem_absent (absent : Item.Absent bytes) :
    ∃ type next, rbItem ⟨bytes,false⟩ = (type, none, next) := by
  rcases read : rbItem ⟨bytes,false⟩ with ⟨type,_ | data,next⟩
  · exact ⟨type,next,rfl⟩
  · obtain ⟨whole,_,fits⟩ := rbItem_eq_some read
    exact absurd (congrArg Rbuf.rest whole) (absent (type, data) next.rest fits)

/-- Over any block the loop runs the steps of the items at its front and then
returns or answers what is left. -/
theorem rbForItems_split {σ ε : Type} (onShort : Proc σ ε Unit)
    (step : Nat → Bytes → Proc σ ε Unit) {items : List Item} {rest : Bytes}
    (fits : ∀ item ∈ items, item.Fits) (absent : Item.Absent rest) {fuel : Nat}
    (enough : (Item.encodeAll items ++ rest).length ≤ fuel) :
    rbForItems onShort step fuel ⟨Item.encodeAll items ++ rest,false⟩ =
      (do runItems step items; if rest = [] then Proc.ret () else onShort) := by
  induction items generalizing fuel with
  | nil =>
    by_cases ended : rest = []
    · subst ended
      cases fuel <;> rfl
    · obtain ⟨type,next,read⟩ := rbItem_absent absent
      have filled : rest.length ≠ 0 := fun lacking => ended (length_eq_zero_iff.mp lacking)
      have more : ¬ rbLeft ⟨rest,false⟩ = 0 := filled
      obtain ⟨fuel,rfl⟩ : ∃ less, fuel = less + 1 :=
        ⟨fuel - 1,by simp at enough; omega⟩
      rw [Item.encodeAll_nil,nil_append,rbForItems,if_neg more,read,if_neg ended]
      rfl
  | cons item items ih =>
    rw [Item.encodeAll_cons,append_assoc,length_append,Item.encode_length] at enough
    obtain ⟨fuel,rfl⟩ : ∃ less, fuel = less + 1 := ⟨fuel - 1,by omega⟩
    have readHead := rbItem_encode (fits item mem_cons_self) (Item.encodeAll items ++ rest)
    have others := @ih (forall_mem_cons.mp fits).2 fuel
      (by omega)
    have more : ¬ rbLeft ⟨item.encode ++ (Item.encodeAll items ++ rest),false⟩ = 0 := by
      simp [Item.encode_length]
    rw [Item.encodeAll_cons,append_assoc,rbForItems,if_neg more,readHead,runItems]
    simp only [others,Proc.bind_assoc]

theorem rbForItems_encodeAll {σ ε : Type} (onShort : Proc σ ε Unit)
    (step : Nat → Bytes → Proc σ ε Unit) {items : List Item}
    (fits : ∀ item ∈ items, item.Fits) {fuel : Nat}
    (enough : (Item.encodeAll items).length ≤ fuel) :
    rbForItems onShort step fuel ⟨Item.encodeAll items,false⟩ = runItems step items := by
  have split := rbForItems_split onShort step fits Item.absent_nil
    (show (Item.encodeAll items ++ []).length ≤ fuel by simpa using enough)
  rw [append_nil,if_pos rfl] at split
  refine split.trans (funext fun state => ?_)
  rw [Proc.bind_apply]
  rcases runItems step items state with ⟨rc | _,after⟩ <;> rfl

theorem rbForItems_eq_ok {σ ε : Type} {onShort : Proc σ ε Unit}
    {step : Nat → Bytes → Proc σ ε Unit} (short : ∀ state next, onShort state ≠ (.ok (), next))
    {fuel : Nat} {state last : σ} (enough : bytes.length ≤ fuel)
    (returned : rbForItems onShort step fuel ⟨bytes,false⟩ state = (.ok (), last)) :
    ∃ items : List Item, (∀ item ∈ items, item.Fits) ∧ bytes = Item.encodeAll items ∧
      runItems step items state = (.ok (), last) := by
  obtain ⟨items,rest,fits,absent,rfl⟩ := Item.exists_split bytes
  rw [rbForItems_split onShort step fits absent enough] at returned
  obtain ⟨_,middle,ran,ended⟩ := bind_eq_ok.mp returned
  split at ended
  · rename_i empty
    cases ended
    exact ⟨items,fits,by rw [empty,append_nil],ran⟩
  · exact absurd ended (short _ _)

end Chapulin
