/-
The packing of ML-DSA polynomials (`mldsa_sign_pack.c`).

Both loops move bits through one 32-bit accumulator, which holds the bits that have come in and
not yet gone out, so the octets and the values of the coefficients are two groupings of one
string of bits.
-/

import Chapulin.Lib.Bits
import Mathlib.Data.Nat.Size
import Mathlib.Data.UInt
import Mathlib.Logic.Function.Iterate

namespace Chapulin

open Lib List

/-! ### The source -/

def mldN : Nat := 256

/-- What a 32-bit word keeps of a value. -/
def word32 (x : Nat) : Nat := x % 2 ^ 32

def valueMask (bits : Nat) : Nat := 1 <<< bits - 1

/-- The value `mlds_pack` shifts in for a coefficient. -/
def packValue (bits : Nat) (offset coeff : Int32) : Nat :=
  let value := if offset ≠ 0 then offset.toUInt32 - coeff.toUInt32 else coeff.toUInt32
  value.toNat &&& valueMask bits

structure Packer where
  acc : Nat
  held : Nat
  out : Bytes

/-- The inner loop of `mlds_pack`, with `have` in front. -/
def writeOctets : Nat → Nat → Bytes → Packer
  | held + 8, acc, out => writeOctets held (acc >>> 8) (out ++ [byte acc])
  | held, acc, out => { acc, held, out }

def packStep (word : Nat → Nat) (bits : Nat) (offset : Int32) (s : Packer) (coeff : Int32) :
    Packer :=
  writeOctets (s.held + bits) (s.acc ||| word (packValue bits offset coeff <<< s.held)) s.out

/-- The state of `mlds_pack` after the coefficients `p`. -/
def packRun (word : Nat → Nat) (bits : Nat) (offset : Int32) (p : List Int32) : Packer :=
  p.foldl (packStep word bits offset) { acc := 0, held := 0, out := [] }

def mldsPack (bits : Nat) (offset : Int32) (p : List Int32) : Bytes :=
  (packRun word32 bits offset p).out

structure Unpacker where
  acc : Nat
  held : Nat
  rest : Bytes
  coeffs : List Int32

/-- The inner loop of `mlds_unpack`, over the input from `at` on. -/
def readOctets (word : Nat → Nat) (bits : Nat) : Bytes → Nat → Nat → Nat × Nat × Bytes
  | octet :: rest, held, acc =>
    if held < bits then readOctets word bits rest (held + 8) (acc ||| word (octet.toNat <<< held))
    else (acc, held, octet :: rest)
  | [], held, acc => (acc, held, [])

def unpackStep (word : Nat → Nat) (bits : Nat) (offset : Int32) (s : Unpacker) : Unpacker :=
  let (acc, held, rest) := readOctets word bits s.rest s.held s.acc
  { acc := acc >>> bits, held := held - bits, rest
    coeffs := s.coeffs ++ [offset - Int32.ofNat (acc &&& valueMask bits)] }

/-- The state of `mlds_unpack` after `n` coefficients. -/
def unpackRun (word : Nat → Nat) (bits : Nat) (offset : Int32) (input : Bytes) (n : Nat) :
    Unpacker :=
  (unpackStep word bits offset)^[n] { acc := 0, held := 0, rest := input, coeffs := [] }

def mldsUnpack (bits : Nat) (offset : Int32) (input : Bytes) : List Int32 :=
  (unpackRun word32 bits offset input mldN).coeffs

/-- SimpleBitPack of FIPS 204. -/
def simpleBitPack (w : List Nat) (b : Nat) : Bytes := bitsToBytes (w.flatMap (integerToBits b.size))

/-! ### Values -/

section Values

variable {bits : Nat} {offset coeff : Int32}

theorem and_valueMask (x bits : Nat) : x &&& valueMask bits = x % 2 ^ bits := by
  rw [valueMask,Nat.one_shiftLeft]
  exact Nat.and_two_pow_sub_one_eq_mod x bits

theorem packValue_lt (bits : Nat) (offset coeff : Int32) :
    packValue bits offset coeff < 2 ^ bits := by
  rw [packValue,and_valueMask]
  exact Nat.mod_lt _ (Nat.two_pow_pos bits)

theorem toNat_word (d : Int32) (positive : 0 ≤ d.toInt) : d.toUInt32.toNat = d.toInt.toNat := by
  have window : d.toInt = (d.toUInt32.toNat : Int).bmod (2 ^ 32) :=
    BitVec.toInt_eq_toNat_bmod d.toBitVec
  have bound := d.toUInt32.toNat_lt
  rw [Int.bmod_def] at window
  omega

theorem packValue_offset (shifted : offset ≠ 0) (small : bits ≤ 20) {x : Nat}
    (fits : x < 2 ^ bits) : packValue bits offset (offset - Int32.ofNat x) = x := by
  have below : x < 2 ^ 32 := Nat.lt_of_lt_of_le fits (Nat.pow_le_pow_right (by decide) (by omega))
  rw [packValue,if_pos shifted,Int32.toUInt32_sub,sub_sub_self,Int32.toUInt32_ofNat',and_valueMask,
    UInt32.toNat_ofNat_of_lt' below,Nat.mod_eq_of_lt fits]

theorem offset_packValue (shifted : offset ≠ 0) (small : bits ≤ 20)
    (least : offset.toInt - 2 ^ bits < coeff.toInt) (most : coeff.toInt ≤ offset.toInt) :
    offset - Int32.ofNat (packValue bits offset coeff) = coeff := by
  have power : 2 ^ bits ≤ 2 ^ 20 := Nat.pow_le_pow_right (by decide) small
  have cast : ((2 ^ bits : Nat) : Int) = 2 ^ bits := by push_cast; rfl
  have exact : (offset - coeff).toInt = offset.toInt - coeff.toInt := by
    rw [Int32.toInt_sub,Int.bmod_def]
    omega
  have value := toNat_word (offset - coeff) (by omega)
  have fits : (offset.toUInt32 - coeff.toUInt32).toNat < 2 ^ bits := by
    rw [← Int32.toUInt32_sub,value,exact]
    omega
  have same : (offset - Int32.ofNat (packValue bits offset coeff)).toUInt32 = coeff.toUInt32 := by
    rw [packValue,if_pos shifted,and_valueMask,Nat.mod_eq_of_lt fits,Int32.toUInt32_sub,
      Int32.toUInt32_ofNat',UInt32.ofNat_toNat,sub_sub_self]
  exact Int32.toBitVec_inj.mp (congrArg UInt32.toBitVec same)

theorem packValue_plain (least : 0 ≤ coeff.toInt) (most : coeff.toInt < 2 ^ bits) :
    packValue bits 0 coeff = coeff.toInt.toNat := by
  rw [packValue,if_neg (not_not.mpr rfl),and_valueMask,toNat_word coeff least]
  exact Nat.mod_eq_of_lt ((Int.toNat_lt least).mpr (by push_cast; exact most))

end Values

/-! ### The loops -/

def Packer.bits (s : Packer) : List Bool := octetBits s.out ++ integerToBits s.held s.acc

theorem writeOctets_spec (held acc : Nat) (out : Bytes) (small : acc < 2 ^ held) :
    (writeOctets held acc out).bits = octetBits out ++ integerToBits held acc ∧
      (writeOctets held acc out).held < 8 ∧
      (writeOctets held acc out).acc < 2 ^ (writeOctets held acc out).held := by
  fun_induction writeOctets held acc out with
  | case1 held acc out ih =>
    obtain ⟨bits,bounds⟩ := ih (by
      rw [Nat.shiftRight_eq_div_pow]
      exact Nat.div_lt_of_lt_mul (by rwa [← Nat.pow_add,Nat.add_comm]))
    refine ⟨bits.trans ?_,bounds⟩
    have octet : octetBits [byte acc] = integerToBits 8 acc := by
      rw [octetBits,map_singleton,flatMap_singleton,byte_toNat]
      exact integerToBits_mod 8 acc
    have split := integerToBits_split 8 held acc
    rw [Nat.add_comm] at split
    rw [octetBits_append,octet,append_assoc,Nat.shiftRight_eq_div_pow,← split]
  | case2 held acc out few =>
    refine ⟨rfl,Nat.lt_of_not_le fun many => ?_,small⟩
    exact few (held - 8) (Nat.sub_add_cancel many).symm

theorem word32_shiftLeft {width held x : Nat} (fits : x < 2 ^ width) (room : held + width ≤ 32) :
    word32 (x <<< held) = x <<< held :=
  Nat.mod_eq_of_lt
    (Nat.lt_of_lt_of_le (shiftLeft_lt fits held) (Nat.pow_le_pow_right (by decide) room))

section Loops

variable {bits : Nat} (small : bits ≤ 20) (offset : Int32)

/-- The bits of the values of the coefficients. -/
def valueBits (bits : Nat) (offset : Int32) (p : List Int32) : List Bool :=
  (p.map (packValue bits offset)).flatMap (integerToBits bits)

theorem valueBits_length (p : List Int32) : (valueBits bits offset p).length = p.length * bits := by
  rw [valueBits,length_flatMap_integerToBits,length_map]

theorem valueBits_concat (p : List Int32) (coeff : Int32) : valueBits bits offset (p ++ [coeff]) =
    valueBits bits offset p ++ integerToBits bits (packValue bits offset coeff) := by
  rw [valueBits,map_append,flatMap_append,map_singleton,flatMap_singleton]
  rfl

include small in
theorem packRun_spec (p : List Int32) :
    packRun word32 bits offset p = packRun id bits offset p ∧
      (packRun word32 bits offset p).bits = valueBits bits offset p ∧
      (packRun word32 bits offset p).held < 8 ∧
      (packRun word32 bits offset p).acc < 2 ^ (packRun word32 bits offset p).held := by
  induction p using reverseRecOn with
  | nil => exact ⟨rfl,rfl,Nat.zero_lt_succ 7,Nat.one_pos⟩
  | append_singleton p coeff ih =>
    obtain ⟨same,all,few,bound⟩ := ih
    have step (word : Nat → Nat) : packRun word bits offset (p ++ [coeff]) =
        packStep word bits offset (packRun word bits offset p) coeff := foldl_concat ..
    have value := packValue_lt bits offset coeff
    rw [step,step,← same]
    generalize packRun word32 bits offset p = s at all few bound
    rw [packStep,packStep,word32_shiftLeft value (by omega),id]
    obtain ⟨more,bounds⟩ := writeOctets_spec _ _ s.out (join_lt bound value)
    refine ⟨rfl,more.trans ?_,bounds⟩
    rw [integerToBits_join bound,← append_assoc,valueBits_concat,← all]
    rfl

include small in
theorem readOctets_word (rest : Bytes) (held acc : Nat) :
    readOctets word32 bits rest held acc = readOctets id bits rest held acc := by
  induction rest generalizing held acc with
  | nil => rfl
  | cons octet rest ih =>
    rw [readOctets,readOctets]
    split
    · rw [@word32_shiftLeft 8 _ _ octet.toNat_lt (by omega),ih]
      rfl
    · rfl

/-- The inner loop moves octets of the input into the accumulator until it holds a value. -/
theorem readOctets_spec (rest : Bytes) (held acc : Nat) (bound : acc < 2 ^ held)
    (enough : bits ≤ held + 8 * rest.length) :
    ∃ acc' held' rest', readOctets id bits rest held acc = (acc', held', rest') ∧ bits ≤ held' ∧
      acc' < 2 ^ held' ∧
      integerToBits held' acc' ++ octetBits rest' = integerToBits held acc ++ octetBits rest := by
  induction rest generalizing held acc with
  | nil => exact ⟨acc,held,[],rfl,enough,bound,rfl⟩
  | cons octet rest ih =>
    rw [readOctets]
    split
    · have fits : octet.toNat < 2 ^ 8 := octet.toNat_lt
      obtain ⟨acc',held',rest',read,full,bound',all⟩ := ih (held + 8) _ (join_lt bound fits)
        (by rw [length_cons] at enough; omega)
      refine ⟨acc',held',rest',read,full,bound',all.trans ?_⟩
      rw [integerToBits_join bound,append_assoc]
      rfl
    · exact ⟨acc,held,octet :: rest,rfl,by omega,bound,rfl⟩

include small in
theorem unpackRun_word (input : Bytes) (n : Nat) :
    unpackRun word32 bits offset input n = unpackRun id bits offset input n := by
  have same : unpackStep word32 bits offset = unpackStep id bits offset := by
    funext s
    rw [unpackStep,unpackStep,readOctets_word small]
  rw [unpackRun,unpackRun,same]

/-- The coefficients so far, the accumulator and the rest hold the bits of the input in order. -/
structure Unpacked (bits : Nat) (offset : Int32) (input : Bytes) (s : Unpacker) : Prop where
  bound : s.acc < 2 ^ s.held
  values : ∀ c ∈ s.coeffs, offset - Int32.ofNat (packValue bits offset c) = c
  all : valueBits bits offset s.coeffs ++ (integerToBits s.held s.acc ++ octetBits s.rest) =
    octetBits input

variable {offset} {input : Bytes}

include small in
theorem unpackStep_unpacked (shifted : offset ≠ 0) {s : Unpacker}
    (before : Unpacked bits offset input s) (enough : bits ≤ s.held + 8 * s.rest.length) :
    Unpacked bits offset input (unpackStep id bits offset s) := by
  obtain ⟨acc,held,rest,read,full,fits,kept⟩ :=
    readOctets_spec s.rest s.held s.acc before.bound enough
  obtain ⟨left,rfl⟩ := Nat.exists_eq_add_of_le full
  have value := packValue_offset shifted small (Nat.mod_lt acc (Nat.two_pow_pos bits))
  have split := integerToBits_split bits left acc
  rw [← integerToBits_mod bits acc] at split
  rw [unpackStep,read]
  dsimp only
  rw [Nat.shiftRight_eq_div_pow,Nat.add_sub_cancel_left,and_valueMask]
  refine ⟨Nat.div_lt_of_lt_mul (by rwa [← Nat.pow_add]),
    forall_mem_append.mpr ⟨before.values,forall_mem_singleton.mpr (by rw [value])⟩,?_⟩
  rw [← before.all,← kept,split,valueBits_concat,value,append_assoc,append_assoc]

include small in
theorem unpackRun_unpacked (shifted : offset ≠ 0) {count : Nat}
    (whole : 8 * input.length = count * bits) {n : Nat} (within : n ≤ count) :
    Unpacked bits offset input (unpackRun id bits offset input n) ∧
      (unpackRun id bits offset input n).coeffs.length = n := by
  induction n with
  | zero => exact ⟨⟨Nat.one_pos,fun c member => absurd member not_mem_nil,rfl⟩,rfl⟩
  | succ n ih =>
    obtain ⟨before,length⟩ := ih (Nat.le_of_succ_le within)
    have step : unpackRun id bits offset input (n + 1) =
        unpackStep id bits offset (unpackRun id bits offset input n) :=
      Function.iterate_succ_apply' ..
    rw [step]
    generalize unpackRun id bits offset input n = s at before length
    have enough : bits ≤ s.held + 8 * s.rest.length := by
      have lengths := congrArg List.length before.all
      rw [length_append,length_append,integerToBits_length,octetBits_length,octetBits_length,
        valueBits_length,length] at lengths
      have more := Nat.mul_le_mul_right bits within
      rw [Nat.succ_mul] at more
      omega
    refine ⟨unpackStep_unpacked small shifted before enough,?_⟩
    exact length_append.trans (congrArg (· + 1) length)

end Loops

theorem size_ones (bits : Nat) : (2 ^ bits - 1).size = bits := by
  have positive := Nat.two_pow_pos bits
  apply Nat.le_antisymm
  · exact Nat.size_le.mpr (by omega)
  · cases bits with
    | zero => exact Nat.zero_le _
    | succ bits =>
      apply Nat.lt_size.mpr
      rw [Nat.pow_succ]
      omega

/-- With every width the two calls undo each other for an offset, `mlds_pack` without one is
SimpleBitPack, and the runs are those of an unbounded accumulator. -/
theorem mldsPack_inverse {bits : Nat} (most : bits ≤ 20) :
    (∀ offset : Int32, offset ≠ 0 → offset.toInt.natAbs ≤ 2 ^ 20 →
      (∀ p : List Int32, p.length = mldN →
        (∀ c ∈ p, offset.toInt - 2 ^ bits < c.toInt ∧ c.toInt ≤ offset.toInt) →
        mldsUnpack bits offset (mldsPack bits offset p) = p) ∧
      ∀ octets : Bytes, octets.length = 32 * bits →
        mldsPack bits offset (mldsUnpack bits offset octets) = octets) ∧
    (∀ p : List Int32, p.length = mldN → (∀ c ∈ p, 0 ≤ c.toInt ∧ c.toInt < 2 ^ bits) →
      mldsPack bits 0 p = simpleBitPack (p.map fun c => c.toInt.toNat) (2 ^ bits - 1)) ∧
    ∀ offset, (∀ p, packRun word32 bits offset p = packRun id bits offset p) ∧
      ∀ input n, unpackRun word32 bits offset input n = unpackRun id bits offset input n := by
  have packed (offset : Int32) {p : List Int32} (full : p.length = mldN) :
      octetBits (mldsPack bits offset p) = valueBits bits offset p ∧
        (mldsPack bits offset p).length = 32 * bits := by
    obtain ⟨-,all,few,-⟩ := packRun_spec most offset p
    have lengths := congrArg List.length all
    rw [Packer.bits,length_append,integerToBits_length,octetBits_length,valueBits_length,full,
      mldN] at lengths
    have absent : (packRun word32 bits offset p).held = 0 := by omega
    rw [Packer.bits,absent,integerToBits,append_nil] at all
    exact ⟨all,by rw [mldsPack]; omega⟩
  have unpacked {offset : Int32} (shifted : offset ≠ 0) {octets : Bytes}
      (full : octets.length = 32 * bits) : (mldsUnpack bits offset octets).length = mldN ∧
        valueBits bits offset (mldsUnpack bits offset octets) = octetBits octets ∧
        ∀ c ∈ mldsUnpack bits offset octets,
          offset - Int32.ofNat (packValue bits offset c) = c := by
    have whole : 8 * octets.length = mldN * bits := by rw [full,mldN]; omega
    obtain ⟨⟨-,values,all⟩,length⟩ := unpackRun_unpacked most shifted whole (Nat.le_refl mldN)
    rw [← unpackRun_word most] at values all length
    refine ⟨length,?_,values⟩
    have lengths := congrArg List.length all
    rw [length_append,valueBits_length,length,octetBits_length,whole] at lengths
    rw [length_eq_zero_iff.mp (Nat.add_eq_left.mp lengths),append_nil] at all
    exact all
  refine ⟨fun offset shifted _ =>
    ⟨fun p full range => ?_,fun octets full => ?_⟩,fun p full range => ?_,
    fun offset => ⟨fun p => (packRun_spec most offset p).1,unpackRun_word most offset⟩⟩
  · obtain ⟨bitsOf,length⟩ := packed offset full
    obtain ⟨lengthToo,same,values⟩ := unpacked shifted length
    rw [bitsOf] at same
    have codes (q : List Int32) :
        bitGroups bits q.length (valueBits bits offset q) = q.map (packValue bits offset) := by
      rw [← length_map (packValue bits offset)]
      exact bitGroups_flatMap (by simp [packValue_lt])
    have decode {q : List Int32}
        (values : ∀ c ∈ q, offset - Int32.ofNat (packValue bits offset c) = c) :
        (q.map (packValue bits offset)).map (fun x => offset - Int32.ofNat x) = q := by
      rw [map_map]
      exact (map_congr_left values).trans (map_id q)
    rw [← decode values,← codes,same,lengthToo,← full,codes]
    exact decode fun c member => offset_packValue shifted most (range c member).1 (range c member).2
  · obtain ⟨lengthToo,same,-⟩ := unpacked shifted full
    have again := (packed offset lengthToo).1.trans same
    have result := congrArg bitsToBytes again
    rwa [bitsToBytes_octetBits,bitsToBytes_octetBits] at result
  · have values : p.map (packValue bits 0) = p.map fun c => c.toInt.toNat :=
      map_congr_left fun c member => packValue_plain (range c member).1 (range c member).2
    rw [← bitsToBytes_octetBits (mldsPack bits 0 p),(packed 0 full).1,valueBits,values,
      simpleBitPack,size_ones]

theorem mldsPack_inverse_sample :
    mldsPack 3 0 (replicate 256 5) = simpleBitPack (replicate 256 5) 7 ∧
      mldsUnpack 3 2 (mldsPack 3 2 (replicate 256 (-2))) = replicate 256 (-2) := by
  obtain ⟨inverse,plain,-⟩ := @mldsPack_inverse 3 (by decide)
  constructor
  · refine (plain (replicate 256 5) (length_replicate ..) ?_).trans ?_
    · intro c member
      rw [eq_of_mem_replicate member]
      decide
    · rw [map_replicate]
      rfl
  · refine (inverse 2 (by decide) (by decide)).1 _ (length_replicate ..) ?_
    intro c member
    rw [eq_of_mem_replicate member]
    decide

end Chapulin
