/-
What a sealed packet opens to.

The receiver of a packet knows its header protection key before it knows the
length of the packet number; it takes the sample as if that length were the
longest, removes the mask from the first byte and only then knows which bytes
carry the number.
-/

import Chapulin.Lib.Window
import Chapulin.Quic.Session
import Mathlib.Tactic.IntervalCases

namespace Chapulin

open Lib List

variable {pnOff version : Nat} {h : QuicHpKey} {k sealed : QuicKeys} {keyPhase : UInt8}

/-! ### Packet numbers -/

theorem belowMask_eq (a b : UInt64) : belowMask a b = if a < b then -1 else 0 := by
  simp only [belowMask,borrow_eq]
  split <;> rfl

theorem byteInUse_eq {i pnLen : Nat} (few : i < 4) (short : pnLen ≤ 4) :
    byteInUse (UInt32.ofNat i) (UInt32.ofNat pnLen) = if i < pnLen then -1 else 0 := by
  have all : ∀ i : Fin 4, ∀ pnLen : Fin 5,
      byteInUse (UInt32.ofNat i.val) (UInt32.ofNat pnLen.val) =
        if i.val < pnLen.val then -1 else 0 := by decide
  exact all ⟨i,few⟩ ⟨pnLen,by omega⟩

def pnField (pnLen pn : Nat) : Bytes := (be32 pn).drop (quicPnMaxLen - pnLen)

variable {pkt : Bytes} {pnLen pn : Nat}

/-- The masked read of the number's field gives the number's low bits. -/
theorem quicPnRead_toNat (least : 1 ≤ pnLen) (few : pnLen ≤ 4)
    (field : (pkt.drop pnOff).take pnLen = pnField pnLen pn) :
    (quicPnRead pkt pnOff pnLen).toNat = pn % 2 ^ (8 * pnLen) := by
  have read : ∀ i, i < pnLen → pkt.getD (pnOff + i) 0 = (pnField pnLen pn).getD i 0 := by
    intro i inside
    rw [← field,getD_eq_getElem?_getD,getD_eq_getElem?_getD,getElem?_take_of_lt inside,
      getElem?_drop]
  have folded : quicPnRead pkt pnOff pnLen = (pushAll 0 (pnField pnLen pn)).toUInt64 := by
    have steps : range quicPnMaxLen = [0,1,2,3] := by decide
    have used : ∀ i, i < 4 → byteInUse (UInt32.ofNat i) (UInt32.ofNat pnLen) =
        if i < pnLen then -1 else 0 := fun i inside => byteInUse_eq inside few
    simp only [quicPnRead,steps,foldl_cons,foldl_nil,used 0 (by decide),used 1 (by decide),
      used 2 (by decide),used 3 (by decide)]
    interval_cases pnLen
    · simp only [select_new,select_old,Nat.lt_irrefl,if_true,if_false,Nat.reduceLT,
        read 0 (by decide)]
      rfl
    · simp only [select_new,select_old,Nat.lt_irrefl,if_true,if_false,Nat.reduceLT,
        read 0 (by decide),read 1 (by decide)]
      rfl
    · simp only [select_new,select_old,Nat.lt_irrefl,if_true,if_false,Nat.reduceLT,
        read 0 (by decide),read 1 (by decide),read 2 (by decide)]
      rfl
    · simp only [select_new,if_true,Nat.reduceLT,read 0 (by decide),read 1 (by decide),
        read 2 (by decide),read 3 (by decide)]
      rfl
  have short : (pnField pnLen pn).length ≤ 4 := by
    rw [pnField,length_drop]
    exact Nat.sub_le _ _
  rw [folded,UInt32.toNat_toUInt64,pushAll_toNat short]
  interval_cases pnLen <;>
    · simp only [pnField,quicPnMaxLen,be32,be16,Nat.reduceSub,drop_succ_cons,drop_zero,cons_append,
        nil_append,bigEndian,foldl_cons,foldl_nil,byte_toNat]
      omega

theorem pnMask_eq {pnLen : Nat} (least : 1 ≤ pnLen) (few : pnLen ≤ 4) :
    ((byteInUse 0 (UInt32.ofNat pnLen) &&& 0xff) |||
      (byteInUse 1 (UInt32.ofNat pnLen) &&& 0xff00) |||
      (byteInUse 2 (UInt32.ofNat pnLen) &&& 0xff0000) |||
      (byteInUse 3 (UInt32.ofNat pnLen) &&& 0xff000000)).toUInt64 =
        UInt64.ofNat (2 ^ (8 * pnLen) - 1) := by
  interval_cases pnLen <;> decide

/-- The branch-free decoding finds the number nearest to the one expected. -/
theorem quicPnDecode_toNat {largestPn truncatedPn : UInt64} {pnLen : Nat} (least : 1 ≤ pnLen)
    (few : pnLen ≤ 4) (largest : largestPn.toNat < 2 ^ 62)
    (truncated : truncatedPn.toNat < 2 ^ (8 * pnLen)) :
    (quicPnDecode largestPn truncatedPn pnLen).toNat =
      nearest (2 ^ 62) (largestPn.toNat + 1) (2 ^ (8 * pnLen)) truncatedPn.toNat := by
  have bits : 8 * pnLen < 64 := by omega
  have window : 2 ^ (8 * pnLen) ≤ 2 ^ 32 := Nat.pow_le_pow_right (by decide) (by omega)
  have even : 2 ^ (8 * pnLen) = 2 * (2 ^ (8 * pnLen) / 2) := by
    have : 8 * pnLen = 8 * pnLen - 1 + 1 := by omega
    rw [this,Nat.pow_succ]
    omega
  have candidate := replace_low (largestPn + 1) bits truncated
  have expected : (largestPn + 1).toNat = largestPn.toNat + 1 := by
    rw [UInt64.toNat_add]
    change (largestPn.toNat + 1) % 2 ^ 64 = _
    omega
  simp only [quicPnDecode,pnMask_eq least few,belowMask_eq]
  generalize ((largestPn + 1) &&& ~~~UInt64.ofNat (2 ^ (8 * pnLen) - 1)) ||| truncatedPn = found
    at candidate ⊢
  rw [expected] at candidate
  have win : (UInt64.ofNat (2 ^ (8 * pnLen) - 1) + 1).toNat = 2 ^ (8 * pnLen) := by
    rw [UInt64.toNat_add,UInt64.toNat_ofNat']
    change ((2 ^ (8 * pnLen) - 1) % 2 ^ 64 + 1) % 2 ^ 64 = _
    have positive := Nat.two_pow_pos (8 * pnLen)
    omega
  generalize UInt64.ofNat (2 ^ (8 * pnLen) - 1) + 1 = pnWin at win ⊢
  generalize 2 ^ (8 * pnLen) = size at win window even truncated candidate ⊢
  have rounded : (largestPn.toNat + 1) / size * size ≤ largestPn.toNat + 1 :=
    Nat.div_mul_le_self _ _
  have half : (pnWin >>> 1).toNat = size / 2 := by
    rw [UInt64.toNat_shiftRight,Nat.shiftRight_eq_div_pow,win]
    rfl
  have limit : (((1 : UInt64) <<< 62) - pnWin).toNat = 2 ^ 62 - size := by
    have top : ((1 : UInt64) <<< 62).toNat = 2 ^ 62 := by decide
    rw [UInt64.toNat_sub,win,top]
    omega
  have upper : (found + (pnWin >>> 1)).toNat = found.toNat + size / 2 := by
    rw [UInt64.toNat_add,half]
    omega
  have lower : (largestPn + (1 : UInt64) + pnWin >>> (1 : UInt64)).toNat =
      largestPn.toNat + 1 + size / 2 := by
    rw [UInt64.toNat_add,expected,half]
    omega
  simp only [UInt64.lt_iff_toNat_lt,upper,lower,limit,expected,win]
  unfold nearest
  dsimp only
  rw [← candidate]
  have flipOnes : ~~~(-1 : UInt64) = 0 := by decide
  have flipZero : ~~~(0 : UInt64) = -1 := by decide
  by_cases up : found.toNat + size / 2 ≤ largestPn.toNat + 1 ∧ found.toNat + size < 2 ^ 62
  · rw [if_pos up,if_neg (by omega),if_pos (by omega),if_neg (by omega)]
    simp only [flipZero,UInt64.and_neg_one,UInt64.zero_and,UInt64.and_zero,UInt64.sub_zero]
    rw [UInt64.toNat_add,win]
    omega
  rw [if_neg up]
  have still : pnWin &&& (~~~(if largestPn.toNat + 1 < found.toNat + size / 2 then (-1 : UInt64)
      else 0) &&& if found.toNat < 2 ^ 62 - size then (-1 : UInt64) else 0) = 0 := by
    by_cases first : largestPn.toNat + 1 < found.toNat + size / 2
    · rw [if_pos first,flipOnes,UInt64.zero_and,UInt64.and_zero]
    · rw [if_neg (by omega : ¬ found.toNat < 2 ^ 62 - size),UInt64.and_zero,UInt64.and_zero]
  rw [still,UInt64.add_zero]
  by_cases down : largestPn.toNat + 1 + size / 2 < found.toNat ∧ size ≤ found.toNat
  · rw [if_pos down,if_pos down.1,if_neg (by omega)]
    simp only [flipZero,UInt64.and_neg_one]
    rw [UInt64.toNat_sub,win]
    omega
  · rw [if_neg down]
    have stays : pnWin &&& ((if largestPn.toNat + 1 + size / 2 < found.toNat then (-1 : UInt64)
        else 0) &&& ~~~(if found.toNat < size then (-1 : UInt64) else 0)) = 0 := by
      by_cases first : largestPn.toNat + 1 + size / 2 < found.toNat
      · rw [if_pos (by omega : found.toNat < size),flipOnes,UInt64.and_zero,UInt64.and_zero]
      · rw [if_neg first,UInt64.zero_and,UInt64.and_zero]
    rw [stays,UInt64.sub_zero]

/-- `DecodePacketNumber` of RFC 9000, Appendix A.3, over the integers. -/
def decodePacketNumber (largestPn truncatedPn : Int) (pnNbits : Nat) : Int :=
  let expectedPn := largestPn + 1
  let pnWin : Int := 2 ^ pnNbits
  let pnHwin := pnWin / 2
  let candidatePn := expectedPn / pnWin * pnWin + truncatedPn
  if candidatePn ≤ expectedPn - pnHwin ∧ candidatePn < 2 ^ 62 - pnWin then candidatePn + pnWin
  else if candidatePn > expectedPn + pnHwin ∧ candidatePn ≥ pnWin then candidatePn - pnWin
  else candidatePn

theorem nearest_eq_decodePacketNumber (largestPn truncatedPn pnNbits : Nat) :
    (nearest (2 ^ 62) (largestPn + 1) (2 ^ pnNbits) truncatedPn : Int) =
      decodePacketNumber largestPn truncatedPn pnNbits := by
  unfold nearest decodePacketNumber
  dsimp only
  have window : ((2 : Int) ^ pnNbits) = ((2 ^ pnNbits : Nat) : Int) := by norm_cast
  have candidate :
      ((largestPn : Int) + 1) / ((2 ^ pnNbits : Nat) : Int) * ((2 ^ pnNbits : Nat) : Int) +
      truncatedPn = (((largestPn + 1) / 2 ^ pnNbits * 2 ^ pnNbits + truncatedPn : Nat) : Int) := by
    push_cast
    rfl
  rw [window,candidate]
  generalize (largestPn + 1) / 2 ^ pnNbits * 2 ^ pnNbits + truncatedPn = found
  generalize 2 ^ pnNbits = size
  split_ifs <;> omega

theorem two_pow_even {pnLen : Nat} (least : 1 ≤ pnLen) :
    2 ^ (8 * pnLen) = 2 * (2 ^ (8 * pnLen) / 2) := by
  have split : 8 * pnLen = 8 * pnLen - 1 + 1 := by omega
  rw [split,Nat.pow_succ]
  omega

/-- The decoded number is a packet number, the one the appendix selects and the
nearest to the number expected next, unless the largest number received is the
last there is and the field lies in the lower half of its window. -/
theorem quicPnDecode_selects {largestPn truncatedPn : UInt64} {pnLen : Nat} (least : 1 ≤ pnLen)
    (few : pnLen ≤ 4) (largest : largestPn.toNat < 2 ^ 62)
    (truncated : truncatedPn.toNat < 2 ^ (8 * pnLen)) :
    ((quicPnDecode largestPn truncatedPn pnLen).toNat < 2 ^ 62 ∧
      (quicPnDecode largestPn truncatedPn pnLen).toNat % 2 ^ (8 * pnLen) = truncatedPn.toNat ∧
      ((quicPnDecode largestPn truncatedPn pnLen).toNat : Int) =
        decodePacketNumber largestPn.toNat truncatedPn.toNat (8 * pnLen) ∧
      ∀ number < 2 ^ 62, number % 2 ^ (8 * pnLen) = truncatedPn.toNat →
        (((quicPnDecode largestPn truncatedPn pnLen).toNat : Int) - (largestPn.toNat + 1)).natAbs ≤
          ((number : Int) - (largestPn.toNat + 1)).natAbs) ↔
      ¬ (largestPn.toNat = 2 ^ 62 - 1 ∧ truncatedPn.toNat ≤ 2 ^ (8 * pnLen) / 2) := by
  have bounded := @nearest_lt_limit (2 ^ 62) (largestPn.toNat + 1) (2 ^ (8 * pnLen))
    truncatedPn.toNat truncated (Nat.pow_dvd_pow 2 (by omega)) (by omega) (by decide)
  have close (number : Nat) (below : number < 2 ^ 62) (remainder : number % 2 ^ (8 * pnLen) = _) :=
    @nearest_closest (2 ^ 62) (largestPn.toNat + 1) (2 ^ (8 * pnLen)) truncatedPn.toNat truncated
      number (two_pow_even least) below remainder
  rw [quicPnDecode_toNat least few largest truncated,nearest_mod truncated,
    ← nearest_eq_decodePacketNumber,bounded]
  constructor
  · rintro ⟨inside,_⟩ ⟨last,lower⟩
    exact inside ⟨by omega,lower⟩
  · intro inside
    exact ⟨fun outside => inside ⟨by omega,outside.2⟩,rfl,rfl,close⟩

/-- The example of the appendix. -/
theorem quicPnDecode_selects_sample :
    (quicPnDecode 0xa82f30ea 0x9b32 2).toNat = 0xa82f9b32 ∧
      (quicPnDecode 0xa82f30ea 0x9b32 2).toNat < 2 ^ 62 ∧
      ((quicPnDecode 0xa82f30ea 0x9b32 2).toNat : Int) =
        decodePacketNumber 0xa82f30ea 0x9b32 16 := by
  have selected := (@quicPnDecode_selects 0xa82f30ea 0x9b32 2 (by decide) (by decide) (by decide)
    (by decide)).mpr (by decide)
  exact ⟨by decide +kernel,selected.1,selected.2.2.1⟩

/-- After the last packet number a field of 0 decodes to a number that is none. -/
theorem quicPnDecode_past_last :
    (4611686018427387903 : UInt64).toNat = 2 ^ 62 - 1 ∧ (0 : UInt64).toNat < 2 ^ (8 * 1) ∧
      (quicPnDecode 4611686018427387903 0 1).toNat = 2 ^ 62 := by decide +kernel

/-- The number sent lies within half a window of the one expected next; both it
and the largest one received are packet numbers. -/
structure PnInWindow (largestPn : UInt64) (pnLen pn : Nat) : Prop where
  number : pn < 2 ^ 62
  largest : largestPn.toNat < 2 ^ 62
  above : largestPn.toNat + 1 < pn + 2 ^ (8 * pnLen) / 2
  within : pn ≤ largestPn.toNat + 1 + 2 ^ (8 * pnLen) / 2

theorem quicPn_recovered {largestPn : UInt64} (least : 1 ≤ pnLen) (few : pnLen ≤ 4)
    (field : (pkt.drop pnOff).take pnLen = pnField pnLen pn)
    (near : PnInWindow largestPn pnLen pn) :
    quicPnDecode largestPn (quicPnRead pkt pnOff pnLen) pnLen = UInt64.ofNat pn := by
  have read := quicPnRead_toNat least few field
  have truncated : (quicPnRead pkt pnOff pnLen).toNat < 2 ^ (8 * pnLen) := by
    rw [read]
    exact Nat.mod_lt _ (Nat.two_pow_pos _)
  have number := near.number
  apply UInt64.toNat_inj.mp
  rw [quicPnDecode_toNat least few near.largest truncated,read,
    nearest_eq (two_pow_even least) (Nat.two_pow_pos _) number near.above near.within,
      UInt64.toNat_ofNat']
  omega

/-! ### Header protection -/

theorem maskPnField_succ (first : UInt8) (rest : Bytes) (offset pnLen : Nat) (mask : Bytes) :
    maskPnField (first :: rest) (offset + 1) pnLen mask =
      first :: maskPnField rest offset pnLen mask := xorAt_succ _ _ _ _

theorem maskPnField_twice {offset : Nat} (pnLen : Nat) (mask : Bytes)
    (fits : offset + quicPnMaxLen ≤ pkt.length) :
    maskPnField (maskPnField pkt offset pnLen mask) offset pnLen mask = pkt := by
  apply xorAt_twice
  rw [length_map,length_range]
  exact fits

theorem maskPnField_drop {offset : Nat} (pnLen : Nat) (mask : Bytes)
    (fits : offset + quicPnMaxLen ≤ pkt.length) :
    (maskPnField pkt offset pnLen mask).drop (offset + quicPnMaxLen) =
      pkt.drop (offset + quicPnMaxLen) := by
  have width : ((range quicPnMaxLen).map fun i => mask.getD (1 + i) 0 &&&
      (byteInUse (UInt32.ofNat i) (UInt32.ofNat pnLen)).toUInt8).length = quicPnMaxLen := by
    rw [length_map,length_range]
  have same := @xorAt_drop pkt _ offset (width.symm ▸ fits)
  rw [width] at same
  exact same

theorem maskPnField_length {offset : Nat} (pnLen : Nat) (mask : Bytes)
    (fits : offset + quicPnMaxLen ≤ pkt.length) :
    (maskPnField pkt offset pnLen mask).length = pkt.length := by
  apply xorAt_length
  rw [length_map,length_range]
  exact fits

def pnLenOf (first : UInt8) : Nat := (first &&& 0x03).toNat + 1

section HeaderRoundTrip

variable {first : UInt8} {rest : Bytes} {offset : Nat} (level : Nat) (mask : Bytes)
  (fits : offset + quicPnMaxLen ≤ rest.length)

theorem quicHeaderProtect_cons (pnLen : Nat) :
    quicHeaderProtect (first :: rest) (offset + 1) pnLen level mask =
      (first ^^^ (mask.getD 0 0 &&& firstByteBits level)) ::
        maskPnField rest offset pnLen mask := by
  rw [quicHeaderProtect,quicMaskFirstByte,xorAt_first,maskPnField_succ]

include fits

theorem quicHeaderProtect_sample (pnLen : Nat) :
    ((quicHeaderProtect (first :: rest) (offset + 1) pnLen level mask).drop
        (offset + 1 + quicPnMaxLen)).take quicHpSampleLen =
      ((first :: rest).drop (offset + 1 + quicPnMaxLen)).take quicHpSampleLen := by
  rw [quicHeaderProtect_cons,Nat.add_right_comm,drop_succ_cons,drop_succ_cons,
    maskPnField_drop pnLen mask fits]

theorem quicHeaderProtect_length (pnLen : Nat) :
    (quicHeaderProtect (first :: rest) (offset + 1) pnLen level mask).length =
      (first :: rest).length := by
  rw [quicHeaderProtect_cons,length_cons,length_cons,maskPnField_length pnLen mask fits]

theorem quicHeaderUnprotect_protect :
    quicHeaderUnprotect (quicHeaderProtect (first :: rest) (offset + 1) (pnLenOf first) level mask)
      (offset + 1) level mask = (first :: rest, pnLenOf first) := by
  have clear : first ^^^ (mask.getD 0 0 &&& firstByteBits level) ^^^
      (mask.getD 0 0 &&& firstByteBits level) = first := by
    rw [UInt8.xor_assoc,UInt8.xor_self,UInt8.xor_zero]
  rw [quicHeaderProtect_cons]
  simp only [quicHeaderUnprotect,quicMaskFirstByte,xorAt_first,clear,getD_cons_zero]
  have named : (first &&& 3).toNat + 1 = pnLenOf first := rfl
  rw [named,maskPnField_succ,maskPnField_twice _ mask fits]

end HeaderRoundTrip

/-! ### Packets -/

/-- A header in the clear: its first byte names the length of the number field,
which ends it and holds the low bytes of the number. -/
structure Framed (hdr : Bytes) (pnLen pn : Nat) : Prop where
  named : pnLenOf (hdr.getD 0 0) = pnLen
  longer : pnLen < hdr.length
  field : hdr.drop (hdr.length - pnLen) = pnField pnLen pn

theorem pnLenOf_le (first : UInt8) : 1 ≤ pnLenOf first ∧ pnLenOf first ≤ 4 := by
  have bound : (first &&& 3).toNat ≤ 3 := by
    rw [UInt8.toNat_and]
    exact Nat.and_le_right
  unfold pnLenOf
  omega

structure Recovered (pkt out clear body sample : Bytes) (pnOff pnLen pn level : Nat) (mask : Bytes)
    (largestPn : UInt64) : Prop where
  long : ¬ pkt.length < pnOff + (quicPnMaxLen + quicHpSampleLen)
  sampled : (pkt.drop (pnOff + quicPnMaxLen)).take quicHpSampleLen = sample
  unprotected : quicHeaderUnprotect pkt pnOff level mask = (out, pnLen)
  number : quicPnDecode largestPn (quicPnRead out pnOff pnLen) pnLen = UInt64.ofNat pn
  header : out.take (pnOff + pnLen) = clear
  payload : out.drop (pnOff + pnLen) = body

/-- Unprotecting a protected header gives back the header and its number. -/
theorem recovered_of_protected {clear body : Bytes} (framed : Framed clear pnLen pn)
    (long : quicPnMaxLen + quicHpSampleLen ≤ pnLen + body.length) (level : Nat) (mask : Bytes)
    {largestPn : UInt64} (near : PnInWindow largestPn pnLen pn) :
    Recovered (quicHeaderProtect (clear ++ body) (clear.length - pnLen) pnLen level mask)
      (clear ++ body) clear body
      (((clear ++ body).drop (clear.length - pnLen + quicPnMaxLen)).take quicHpSampleLen)
      (clear.length - pnLen) pnLen pn level mask largestPn := by
  obtain ⟨named,longer,field⟩ := framed
  cases clear with
  | nil => simp at longer
  | cons first tail =>
    rw [getD_cons_zero] at named
    have pnBounds := pnLenOf_le first
    rw [named] at pnBounds
    rw [length_cons] at longer
    obtain ⟨offset,place⟩ : ∃ offset, (first :: tail).length - pnLen = offset + 1 :=
      ⟨tail.length - pnLen,by rw [length_cons]; omega⟩
    rw [place] at field ⊢
    rw [length_cons] at place
    have fits : offset + quicPnMaxLen ≤ (tail ++ body).length := by
      rw [length_append]
      unfold quicPnMaxLen quicHpSampleLen at *
      omega
    have whole : offset + 1 + pnLen = (first :: tail).length := by
      rw [length_cons]
      omega
    have inField : ((first :: tail ++ body).drop (offset + 1)).take pnLen = pnField pnLen pn := by
      rw [drop_append_of_le_length (by rw [length_cons]; omega),field,
        take_append_of_le_length (by rw [← field,length_drop,length_cons]; omega)]
      apply take_of_length_le
      rw [← field,length_drop,length_cons]
      omega
    refine ⟨?_,?_,?_,?_,?_,?_⟩
    · rw [cons_append,quicHeaderProtect_length level mask fits,length_cons,length_append]
      unfold quicPnMaxLen quicHpSampleLen at *
      omega
    · rw [cons_append]
      exact quicHeaderProtect_sample level mask fits pnLen
    · rw [cons_append,← named]
      exact quicHeaderUnprotect_protect level mask fits
    · exact quicPn_recovered pnBounds.1 pnBounds.2 inField near
    · rw [whole,take_left]
    · rw [whole,drop_left]

theorem octet_ext {left right : UInt8}
    (bits : ∀ i, i < 8 → left.toBitVec.getLsbD i = right.toBitVec.getLsbD i) : left = right :=
  UInt8.toBitVec_inj.mp (BitVec.eq_of_getLsbD_eq bits)

theorem pnLenOf_quicClearFirst (level keyPhase : Nat) (first : UInt8) :
    pnLenOf (quicClearFirst level keyPhase first) = pnLenOf first := by
  have low : quicClearFirst level keyPhase first &&& 3 = first &&& 3 := by
    apply octet_ext
    intro i inside
    by_cases application : level = levelApplication
    · simp only [quicClearFirst,application,if_true,UInt8.toBitVec_and,UInt8.toBitVec_or,
        UInt8.toBitVec_not,BitVec.getLsbD_and,BitVec.getLsbD_or,BitVec.getLsbD_not]
      interval_cases i <;> simp
    · simp only [quicClearFirst,application,if_false,UInt8.toBitVec_and,UInt8.toBitVec_or,
        UInt8.toBitVec_not,BitVec.getLsbD_and,BitVec.getLsbD_or,BitVec.getLsbD_not]
      interval_cases i <;> simp
  unfold pnLenOf
  rw [low]

theorem quicClearFirst_carries (keyPhase : UInt8) (first : UInt8) :
    (quicClearFirst levelApplication keyPhase.toNat first &&& 0x04) >>> 2 = keyPhase &&& 1 := by
  apply octet_ext
  intro i inside
  simp only [quicClearFirst,if_true,UInt8.toBitVec_and,UInt8.toBitVec_or,UInt8.toBitVec_not,
    UInt8.toBitVec_shiftRight,UInt8.toBitVec_shiftLeft,BitVec.getLsbD_and,UInt8.ofNat_toNat]
  interval_cases i <;> simp

theorem quicClearFirst_long {level : Nat} (long : level ≠ levelApplication) (keyPhase : Nat)
    (first : UInt8) : quicClearFirst level keyPhase first = first := by
  apply octet_ext
  intro i inside
  simp only [quicClearFirst,long,if_false,UInt8.toBitVec_and,UInt8.toBitVec_or,UInt8.toBitVec_not,
    BitVec.getLsbD_and,BitVec.getLsbD_or,BitVec.getLsbD_not]
  interval_cases i <;> simp

/-- The header `quic_packet_seal` puts in the packet. -/
def sentHeader (level : Nat) (keyPhase : UInt8) (hdr : Bytes) : Bytes :=
  quicClearFirst level keyPhase.toNat (hdr.getD 0 0) :: hdr.drop 1

theorem Framed.sent {hdr : Bytes} (framed : Framed hdr pnLen pn) (level : Nat)
    (keyPhase : UInt8) : Framed (sentHeader level keyPhase hdr) pnLen pn := by
  obtain ⟨named,longer,field⟩ := framed
  cases hdr with
  | nil => simp at longer
  | cons first tail =>
    rw [length_cons] at longer field
    refine ⟨?_,?_,?_⟩
    · rw [← named]
      exact pnLenOf_quicClearFirst _ _ _
    · exact longer
    · change (_ :: tail).drop (tail.length + 1 - pnLen) = pnField pnLen pn
      obtain ⟨offset,place⟩ : ∃ offset, tail.length + 1 - pnLen = offset + 1 :=
        ⟨tail.length - pnLen,by omega⟩
      rw [place,drop_succ_cons] at field ⊢
      exact field

theorem quicKeySetSelect_phase (keyPhase packetKeyPhase : UInt8) (pn lowest : UInt64) :
    quicKeySetSelect keyPhase (packetKeyPhase &&& 1) pn lowest =
      quicKeySetSelect keyPhase packetKeyPhase pn lowest := by
  have low : (keyPhase.toUInt32 ^^^ (packetKeyPhase &&& 1).toUInt32) &&& 1 =
      (keyPhase.toUInt32 ^^^ packetKeyPhase.toUInt32) &&& 1 := by
    apply UInt32.toNat_inj.mp
    apply Nat.eq_of_testBit_eq
    intro i
    simp only [UInt32.toNat_and,UInt32.toNat_xor,UInt8.toNat_toUInt32,UInt8.toNat_and,
      UInt32.toNat_one,UInt8.toNat_one,Nat.testBit_and,Nat.testBit_xor]
    cases Nat.testBit 1 i <;> simp
  simp only [quicKeySetSelect,low]

theorem quicKeySetSelect_le (keyPhase packetKeyPhase : UInt8) (pn lowest : UInt64) :
    quicKeySetSelect keyPhase packetKeyPhase pn lowest ≤ quicKeyNext := by
  have bit : (keyPhase.toUInt32 ^^^ packetKeyPhase.toUInt32) &&& 1 = 0 ∨
      (keyPhase.toUInt32 ^^^ packetKeyPhase.toUInt32) &&& 1 = 1 := by
    generalize keyPhase.toUInt32 ^^^ packetKeyPhase.toUInt32 = word
    have bound : (word &&& 1).toNat ≤ 1 := by
      rw [UInt32.toNat_and]
      exact Nat.and_le_right
    rcases Nat.le_one_iff_eq_zero_or_eq_one.mp bound with zero | one
    · exact .inl (UInt32.toNat_inj.mp zero)
    · exact .inr (UInt32.toNat_inj.mp one)
  simp only [quicKeySetSelect,belowMask_eq]
  rcases bit with zero | one
  · rw [zero]
    split <;> decide
  · rw [one]
    split <;> decide

section PacketRoundTrip

variable {e : Env} {pn pnLen : Nat} {hdr pt pkt : Bytes} {cap : Nat} {largestPn : UInt64}

theorem quicPacketSeal_eq_ok {level : Nat}
    (ran : quicPacketSeal e k h level keyPhase.toNat pn pnLen hdr pt cap = .ok (pkt, sealed)) :
    quicPnMaxLen ≤ pnLen + pt.length ∧
      let clear := sentHeader level keyPhase hdr
      let out := clear ++ (quicSealBody e k (nonceOf k.iv pn) clear pt).1
      pkt = quicHeaderProtect out (hdr.length - pnLen) pnLen level
        (quicHpMask e h ((out.drop (hdr.length - pnLen + quicPnMaxLen)).take quicHpSampleLen)) := by
  unfold quicPacketSeal at ran
  split at ran
  · cases ran
  split at ran
  · cases ran
  split at ran
  · cases ran
  split at ran
  · cases ran
  cases ran
  exact ⟨by omega,rfl⟩

theorem sentHeader_length {level : Nat} (framed : Framed hdr pnLen pn) :
    (sentHeader level keyPhase hdr).length = hdr.length := by
  have longer := framed.longer
  simp only [sentHeader,length_cons,length_drop]
  omega

theorem PnInWindow.toNat (near : PnInWindow largestPn pnLen pn) : (UInt64.ofNat pn).toNat = pn := by
  have number := near.number
  rw [UInt64.toNat_ofNat']
  omega

/-- Under the sender's header protection key the receiver gets the header and
the number of the packet, and the body opens under the sender's keys. -/
theorem quicUnprotectHeader_sealed (aead : AeadSound e.toCrypto) (framed : Framed hdr pnLen pn)
    (near : PnInWindow largestPn pnLen pn) {k r sealed : QuicKeys} {h : QuicHpKey} {level : Nat}
    {keyPhase : UInt8} (key : r.key = k.key) (iv : r.iv = k.iv) (suite : r.suite = k.suite)
    (ran : quicPacketSeal e k h level keyPhase.toNat pn pnLen hdr pt cap = .ok (pkt, sealed)) :
    ∃ header, quicUnprotectHeader e h pkt (hdr.length - pnLen) level largestPn = some header ∧
      header.pn = UInt64.ofNat pn ∧
      header.pkt.getD 0 0 = quicClearFirst level keyPhase.toNat (hdr.getD 0 0) ∧
      header.pkt.take (hdr.length - pnLen + header.pnLen) = sentHeader level keyPhase hdr ∧
      quicOpenPayload e r header.pkt (hdr.length - pnLen + header.pnLen) (UInt64.ofNat pn) =
        some pt := by
  obtain ⟨sampled,rfl⟩ := quicPacketSeal_eq_ok ran
  have long : (quicSealBody e k (nonceOf k.iv pn) (sentHeader level keyPhase hdr) pt).1.length =
      pt.length + aeadTag := aead.sealLength _ _ _ _ _
  generalize masked : quicHpMask e h (((sentHeader level keyPhase hdr ++
    (quicSealBody e k (nonceOf k.iv pn) (sentHeader level keyPhase hdr) pt).1).drop
      (hdr.length - pnLen + quicPnMaxLen)).take quicHpSampleLen) = mask
  have recovered := recovered_of_protected (framed.sent level keyPhase)
    (show _ ≤ pnLen + (quicSealBody e k (nonceOf k.iv pn) (sentHeader level keyPhase hdr)
      pt).1.length by rw [long]; unfold aeadTag quicHpSampleLen at *; omega) level mask near
  rw [sentHeader_length framed] at recovered
  refine ⟨{ pkt := sentHeader level keyPhase hdr ++
      (quicSealBody e k (nonceOf k.iv pn) (sentHeader level keyPhase hdr) pt).1
            pnLen := pnLen, pn := UInt64.ofNat pn },?_,rfl,rfl,recovered.header,?_⟩
  · unfold quicUnprotectHeader
    rw [if_neg recovered.long,recovered.sampled]
    dsimp only
    rw [masked,recovered.unprotected,← recovered.number]
  · simp only [quicOpenPayload,quicOpenBody,recovered.header,recovered.payload,near.toNat,
      quicKeyBytes,key,iv,suite]
    exact aead.opens _ _ _ _ _

theorem quicPacketOpenHandshake_sealed (aead : AeadSound e.toCrypto)
    (framed : Framed hdr pnLen pn) (near : PnInWindow largestPn pnLen pn) {r : QuicKeys}
    (key : r.key = k.key) (iv : r.iv = k.iv) (suite : r.suite = k.suite)
    (ran : quicPacketSeal e k h levelHandshake 0 pn pnLen hdr pt cap = .ok (pkt, sealed)) :
    quicPacketOpenHandshake e r h pkt (hdr.length - pnLen) largestPn =
      some { keySet := quicKeyCurrent, pn := UInt64.ofNat pn
             hdr := sentHeader levelHandshake 0 hdr, pt := pt } := by
  obtain ⟨header,unprotected,number,_,clear,opened⟩ :=
    @quicUnprotectHeader_sealed e pn pnLen hdr pt pkt cap largestPn aead framed near k r sealed h
      levelHandshake 0 key iv suite ran
  simp only [quicPacketOpenHandshake,unprotected,Option.bind_eq_bind,Option.bind_some,opened,number,
    clear]

/-- The set a receiver of the given phase opens a packet of the sender's phase with. -/
def phaseSet (receiver sender : UInt8) (pn : Nat) (currentPhaseLowestPn : UInt64) : UInt8 :=
  quicKeySetSelect receiver sender (UInt64.ofNat pn) currentPhaseLowestPn

theorem quicPacketOpenApplication_sealed (aead : AeadSound e.toCrypto)
    (framed : Framed hdr pnLen pn) (near : PnInWindow largestPn pnLen pn)
    {sets : QuicKeySets} {phase : UInt8} {lowest : UInt64}
    (sized : sets.Sized) (key : (sets.named (phaseSet phase keyPhase pn lowest)).key = k.key)
    (iv : (sets.named (phaseSet phase keyPhase pn lowest)).iv = k.iv)
    (suite : sets.current.suite = k.suite)
    (ran : quicPacketSeal e k h levelApplication keyPhase.toNat pn pnLen hdr pt cap =
      .ok (pkt, sealed)) :
    quicPacketOpenApplication e sets h phase pkt (hdr.length - pnLen) largestPn lowest =
      some { keySet := phaseSet phase keyPhase pn lowest, pn := UInt64.ofNat pn
             hdr := sentHeader levelApplication keyPhase hdr, pt := pt } := by
  have chosen := quicKeysSelect_named sized
    (quicKeySetSelect_le phase keyPhase (UInt64.ofNat pn) lowest)
  obtain ⟨header,unprotected,number,first,clear,opened⟩ :=
    quicUnprotectHeader_sealed aead framed near
      (show (quicKeysSelect sets (phaseSet phase keyPhase pn lowest)).key = k.key by
        rw [phaseSet,chosen]; exact key) (by rw [phaseSet,chosen]; exact iv)
      (by rw [phaseSet,chosen]; exact suite) ran
  have selected : quicSelected phase header lowest = phaseSet phase keyPhase pn lowest := by
    simp only [quicSelected,first,quicClearFirst_carries,quicKeySetSelect_phase,number,phaseSet]
  simp only [quicPacketOpenApplication,unprotected,Option.bind_eq_bind,Option.bind_some,selected,
    opened,number,clear]

theorem quicInitialOpen_sealed (aead : AeadSound e.toCrypto) (framed : Framed hdr pnLen pn)
    (near : PnInWindow largestPn pnLen pn) {endpoint : Endpoint} {dcid : Bytes}
    (ran : quicInitialSeal e endpoint version dcid pn pnLen hdr pt cap = .ok pkt) :
    quicInitialOpen e endpoint.peer version dcid pkt (hdr.length - pnLen) largestPn =
      .ok { keySet := quicKeyCurrent, pn := UInt64.ofNat pn, hdr := hdr, pt := pt } := by
  have back : endpoint.peer.peer = endpoint := by cases endpoint <;> rfl
  unfold quicInitialSeal at ran
  split at ran
  · cases ran
  rename_i derived
  dsimp only at ran
  split at ran
  · cases ran
  split at ran
  · cases ran
  split at ran
  · cases ran
  rename_i sampled _
  cases ran
  unfold quicInitialOpen
  rw [if_neg derived,back]
  generalize aesPublicKeyInitial e version dcid endpoint = k
  dsimp only
  generalize masked : e.hpMask true k.hp (((hdr ++ e.aeadSeal true k.key (nonceOf k.iv pn) hdr
    pt).drop (hdr.length - pnLen + quicPnMaxLen)).take quicHpSampleLen) = mask
  have long := aead.sealLength true k.key (nonceOf k.iv pn) hdr pt
  have recovered := recovered_of_protected framed
    (show _ ≤ pnLen + (e.aeadSeal true k.key (nonceOf k.iv pn) hdr pt).length by
      rw [long]; unfold aeadTag quicHpSampleLen at *; omega) levelInitial mask near
  rw [if_neg recovered.long,recovered.sampled,masked,recovered.unprotected]
  dsimp only
  rw [recovered.number,recovered.header,recovered.payload,near.toNat,aead.opens]

/-! ### The packet calls -/

/-- The receiver may open a packet of this level and version, and the keys it
opens the packet with are the ones the sender seals with. -/
structure Quic.Hears {Step Step' : Type} (sender : Quic Step) (receiver : Quic Step')
    (level version pn : Nat) (currentPhaseLowestPn : UInt64) : Prop where
  alive : quicDead receiver = false
  offered : versionOk receiver level version = true
  ready : receiver.ready level .read = true
  connected : level = levelApplication → receiver.st.t.state = .connected
  initial : level = levelInitial →
    receiver.endpoint = sender.endpoint.peer ∧ receiver.initialDcid = sender.initialDcid
  handshake : level = levelHandshake →
    receiver.handshakeHpRx = sender.handshakeHpTx ∧
      receiver.handshakeRx.key = sender.handshakeTx.key ∧
      receiver.handshakeRx.iv = sender.handshakeTx.iv ∧
      receiver.handshakeRx.suite = sender.handshakeTx.suite
  application : level = levelApplication →
    let set := receiver.appRx.named
      (phaseSet receiver.keyPhase sender.keyPhase pn currentPhaseLowestPn)
    receiver.appHpRx = sender.appHpTx ∧ receiver.appRx.Sized ∧ set.key = sender.appTx.key ∧
      set.iv = sender.appTx.iv ∧ receiver.appRx.current.suite = sender.appTx.suite

def openedBy {Step Step' : Type} (sender : Quic Step) (receiver : Quic Step') (level pn : Nat)
    (currentPhaseLowestPn : UInt64) (hdr pt : Bytes) : QuicOpened :=
  { keySet := if level = levelApplication then
      phaseSet receiver.keyPhase sender.keyPhase pn currentPhaseLowestPn else quicKeyCurrent
    pn := UInt64.ofNat pn
    hdr := sentHeader level sender.keyPhase hdr
    pt := pt }

/-- A sealed packet was sealed by the routine of its level. -/
theorem quicSeal_eq_ok {Step : Type} {sender sent : Quic Step} {level : Nat}
    (ran : quicSeal e level version pn pnLen hdr pt cap sender = (.ok pkt, sent)) :
    (level = levelInitial ∧
        quicInitialSeal e sender.endpoint version sender.initialDcid pn pnLen hdr pt cap =
          .ok pkt) ∨
      (level = levelHandshake ∧ ∃ sealed,
        quicPacketSeal e sender.handshakeTx sender.handshakeHpTx levelHandshake 0 pn pnLen hdr pt
          cap = .ok (pkt, sealed)) ∨
      (level = levelApplication ∧ ∃ sealed,
        quicPacketSeal e sender.appTx sender.appHpTx levelApplication sender.keyPhase.toNat pn
          pnLen hdr pt cap = .ok (pkt, sealed)) := by
  unfold quicSeal at ran
  split at ran
  · cases ran
  unfold sealAtLevel at ran
  split at ran
  · cases ran
  rename_i known
  split at ran
  · rename_i handshake
    subst handshake
    split at ran
    · cases ran
    · rename_i done
      cases ran
      exact .inr (.inl ⟨rfl,_,done⟩)
  split at ran
  · rename_i application
    subst application
    split at ran
    · cases ran
    · rename_i done
      cases ran
      exact .inr (.inr ⟨rfl,_,done⟩)
  split at ran
  · cases ran
  split at ran
  · cases ran
  · rename_i notHandshake notApplication _ _ _ done
    cases ran
    refine .inl ⟨?_,done⟩
    have bounded : ¬ level > levelApplication := fun above => known (by simp [above])
    unfold levelInitial levelHandshake levelApplication at *
    omega

theorem openAtLevel_long {Step : Type} {q : Quic Step} {level : Nat}
    {lowest : UInt64} {opened : QuicOpened}
    (ran : openAtLevel e level version pkt pnOff largestPn lowest q = .ok opened) :
    ¬ pkt.length < pnOff + (quicPnMaxLen + quicHpSampleLen) := by
  intro short
  have absent : ∀ h level, quicUnprotectHeader e h pkt pnOff level largestPn = none := by
    intro h level
    rw [quicUnprotectHeader,if_pos short]
  unfold openAtLevel at ran
  split at ran
  · simp only [quicPacketOpenApplication,absent,Option.bind_eq_bind,Option.bind_none] at ran
    cases ran
  split at ran
  · simp only [quicPacketOpenHandshake,absent,Option.bind_eq_bind,Option.bind_none] at ran
    cases ran
  unfold quicInitialOpen at ran
  split at ran <;> cases ran

/-- Every packet `ch_quic_seal` returns for a header with a byte in front of its
number is opened by a receiver with matching keys, as long as the number lies in
the receiver's window: the receiver gets the header, the number and the payload,
and its session is unchanged. -/
theorem quicOpen_quicSeal (aead : AeadSound e.toCrypto) {Step Step' : Type}
    {sender sent : Quic Step} {receiver : Quic Step'} {level version : Nat} {lowest : UInt64}
    (ran : quicSeal e level version pn pnLen hdr pt cap sender = (.ok pkt, sent))
    (framed : Framed hdr pnLen pn) (near : PnInWindow largestPn pnLen pn)
    (hears : sender.Hears receiver level version pn lowest) :
    quicOpen e level version pkt (hdr.length - pnLen) largestPn lowest receiver =
      (.ok (openedBy sender receiver level pn lowest hdr pt), receiver) := by
  have opens : level ≤ levelApplication ∧
      openAtLevel e level version pkt (hdr.length - pnLen) largestPn lowest receiver =
        .ok (openedBy sender receiver level pn lowest hdr pt) := by
    rcases quicSeal_eq_ok ran with ⟨rfl,done⟩ | ⟨rfl,_,done⟩ | ⟨rfl,_,done⟩
    · obtain ⟨endpoint,dcid⟩ := hears.initial rfl
      refine ⟨by decide,?_⟩
      have opened := quicInitialOpen_sealed aead framed near done
      have whole : hdr = sentHeader levelInitial sender.keyPhase hdr := by
        have longer := framed.longer
        cases hdr with
        | nil => simp at longer
        | cons first tail =>
          rw [sentHeader,quicClearFirst_long (by decide)]
          rfl
      rw [openAtLevel,if_neg (by decide),if_neg (by decide),endpoint,dcid,opened]
      simp only [openedBy,← whole]
      rfl
    · obtain ⟨hp,key,iv,suite⟩ := hears.handshake rfl
      refine ⟨by decide,?_⟩
      have opened := quicPacketOpenHandshake_sealed aead framed near key iv suite done
      have whole : sentHeader levelHandshake 0 hdr =
          sentHeader levelHandshake sender.keyPhase hdr := by
        simp only [sentHeader,
          quicClearFirst_long (show levelHandshake ≠ levelApplication by decide)]
      rw [openAtLevel,if_neg (by decide),if_pos rfl,hp,opened,whole]
      rfl
    · obtain ⟨hp,sized,key,iv,suite⟩ := hears.application rfl
      refine ⟨by decide,?_⟩
      have opened := quicPacketOpenApplication_sealed aead framed near sized key iv suite done
      rw [openAtLevel,if_pos rfl,hp,opened]
      rfl
  unfold quicOpen
  rw [if_neg,if_neg,if_neg (openAtLevel_long opens.2),opens.2]
  · exact fun unconnected => unconnected.2 (hears.connected unconnected.1)
  · simp [hears.alive,hears.offered,hears.ready,opens.1]

end PacketRoundTrip

/-! ### A client and its peer at the Handshake level -/

def sampleMaskEnv : Env :=
  { Env.sample (.plain .quic .client) with hpMask := fun _ _ _ => [0x55,0x65,0x75,0x85,0x95] }

theorem sampleMaskEnv_aead : AeadSound sampleMaskEnv.toCrypto :=
  ⟨Crypto.sample_sound.opens,Crypto.sample_sound.sealLength⟩

def sampleSide (endpoint : Endpoint) : Quic Unit :=
  let keys := quicKeysInitSuite sampleMaskEnv quicVersion1 [] suiteChacha20Poly1305Sha256
  let hp := quicHpKeyInitSuite sampleMaskEnv quicVersion1 [] suiteChacha20Poly1305Sha256
  let st : St := blankSt sampleMaskEnv
    { Tls.fresh .unset with quicNegotiatedVersion := quicVersion1 } []
    { inbox := [], sendPlan := [], sent := [], crypto := [], tx := [] }
  { Quic.fresh st () endpoint with
    handshakeRx := keys, handshakeTx := keys, handshakeHpRx := hp, handshakeHpTx := hp
    levelsReady := [(levelHandshake, .read),(levelHandshake, .write)] }

def sampleSeal (pn pnLen : Nat) (hdr pt : Bytes) : Except Rc Bytes × Quic Unit :=
  quicSeal sampleMaskEnv levelHandshake quicVersion1 pn pnLen hdr pt 1200 (sampleSide .client)

theorem sampleSide_hears (pn : Nat) :
    (sampleSide .client).Hears (sampleSide .server) levelHandshake quicVersion1 pn 0 :=
  ⟨by decide +kernel,by decide +kernel,by decide +kernel,nofun,nofun,fun _ => ⟨rfl,rfl,rfl,rfl⟩,
    nofun⟩

/-- A two-byte number behind a long header. -/
theorem quicOpen_quicSeal_sample : ∃ pkt,
    (sampleSeal 0x1234 2 [0xe1,9,0x12,0x34] [1,2,3]).1 = .ok pkt ∧
      (quicOpen sampleMaskEnv levelHandshake quicVersion1 pkt 2 0x1233 0 (sampleSide .server)).1 =
        .ok { keySet := quicKeyCurrent, pn := 0x1234, hdr := [0xe1,9,0x12,0x34]
              pt := [1,2,3] } := by
  rcases ran : sampleSeal 0x1234 2 [0xe1,9,0x12,0x34] [1,2,3] with ⟨rc | pkt,sent⟩
  · have fine : (sampleSeal 0x1234 2 [0xe1,9,0x12,0x34] [1,2,3]).1.toBool = true := by
      decide +kernel
    rw [ran] at fine
    cases fine
  refine ⟨pkt,rfl,?_⟩
  have framed : Framed [0xe1,9,0x12,0x34] 2 0x1234 := ⟨by decide,by decide,by decide⟩
  have near : PnInWindow 0x1233 2 0x1234 := ⟨by decide,by decide,by decide,by decide⟩
  exact congrArg Prod.fst
    (quicOpen_quicSeal sampleMaskEnv_aead ran framed near (sampleSide_hears 0x1234))

/-- The one byte of this header is its number and names the number's length as
well, so the receiver reads the length under the mask of the number. -/
theorem quicOpen_header_is_number : ∃ pkt,
    (sampleSeal 0x40 1 [0x40] [1,2,3]).1 = .ok pkt ∧
      pnLenOf 0x40 = 1 ∧ ([0x40] : Bytes).drop (1 - 1) = pnField 1 0x40 ∧
      PnInWindow 0x3f 1 0x40 ∧
      (sampleSide .client).Hears (sampleSide .server) levelHandshake quicVersion1 0x40 0 ∧
      (quicOpen sampleMaskEnv levelHandshake quicVersion1 pkt 0 0x3f 0 (sampleSide .server)).1 ≠
        .ok (openedBy (sampleSide .client) (sampleSide .server) levelHandshake 0x40 0 [0x40]
          [1,2,3]) := by
  have fails : (sampleSeal 0x40 1 [0x40] [1,2,3]).1.toOption.map (fun pkt =>
      (quicOpen sampleMaskEnv levelHandshake quicVersion1 pkt 0 0x3f 0
        (sampleSide .server)).1.toOption.map QuicOpened.pt) = some (some [2,3]) := by
    decide +kernel
  rcases ran : (sampleSeal 0x40 1 [0x40] [1,2,3]).1 with rc | pkt
  · rw [ran] at fails
    cases fails
  rw [ran] at fails
  refine ⟨pkt,rfl,by decide,by decide,⟨by decide,by decide,by decide,by decide⟩,
    sampleSide_hears 0x40,fun opened => ?_⟩
  have payload := Option.some.inj fails
  dsimp only at payload
  rw [opened] at payload
  exact absurd payload (by decide)

end Chapulin
