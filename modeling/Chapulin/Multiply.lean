/-
The multiplies of `ct.h` and of `softmul.c`: a product of two words from the products of
their halves, and a product by masked additions on a core without a multiplier.
-/

import Mathlib.Tactic.Linarith
import Mathlib.Tactic.Ring
import Chapulin.Lib.Octets

namespace Chapulin

open Lib

/-! ### The source -/

/-- The 32-bit words of a ladder. -/
structure Ladder where
  ll : UInt32
  lh : UInt32
  hl : UInt32
  hh : UInt32
  t : UInt32
  w1 : UInt32
  hi : UInt32
  lo : UInt32

/-- The ladder of `ct_widemul` and `ct_widemul_s`, which differ in the shift that carries
into the high word. -/
def mulLadder (carry : UInt32 → UInt32) (al ah bl bh : UInt32) : Ladder :=
  let ll := al * bl
  let lh := al * bh
  let hl := ah * bl
  let hh := ah * bh
  let t := hl + (ll >>> 16)
  let w1 := (t &&& 0xFFFF) + lh
  { ll, lh, hl, hh, t, w1, hi := hh + carry t + carry w1, lo := (w1 <<< 16) ||| (ll &&& 0xFFFF) }

def joinWords (hi lo : UInt32) : UInt64 := (hi.toUInt64 <<< 32) ||| lo.toUInt64

def widemulLadder (a b : UInt32) : Ladder :=
  mulLadder (· >>> 16) (a &&& 0xFFFF) (a >>> 16) (b &&& 0xFFFF) (b >>> 16)

/-- `native` is CH_WIDEMUL_NATIVE. -/
def ctWidemul (native : Bool) (a b : UInt32) : UInt64 :=
  if native then a.toUInt64 * b.toUInt64
  else joinWords (widemulLadder a b).hi (widemulLadder a b).lo

/-- An arithmetic shift of a word read as signed. -/
def signedHigh (x : UInt32) : UInt32 := (x.toInt32 >>> 16).toUInt32

def widemulSLadder (a b : Int32) : Ladder :=
  mulLadder signedHigh (a.toUInt32 &&& 0xFFFF) (a >>> 16).toUInt32 (b.toUInt32 &&& 0xFFFF)
    (b >>> 16).toUInt32

def ctWidemulS (native : Bool) (a b : Int32) : Int64 :=
  if native then a.toInt64 * b.toInt64
  else (joinWords (widemulSLadder a b).hi (widemulSLadder a b).lo).toInt64

/-- The words of `ct_widemul_opaque`, whose two carries are compares. -/
structure Columns where
  ll : UInt32
  lh : UInt32
  hl : UInt32
  hh : UInt32
  mid : UInt32
  midCarry : UInt32
  lo : UInt32
  loCarry : UInt32
  hi : UInt32

def mulColumns (al ah bl bh : UInt32) : Columns :=
  let ll := al * bl
  let lh := al * bh
  let hl := ah * bl
  let hh := ah * bh
  let mid := lh + hl
  let midCarry : UInt32 := if mid < lh then 1 else 0
  let lo := ll + (mid <<< 16)
  let loCarry : UInt32 := if lo < ll then 1 else 0
  { ll, lh, hl, hh, mid, midCarry, lo, loCarry
    hi := hh + (mid >>> 16) + (midCarry <<< 16) + loCarry }

def opaqueColumns (a b : UInt32) : Columns :=
  mulColumns (a &&& 0xFFFF) (a >>> 16) (b &&& 0xFFFF) (b >>> 16)

/-- The volatile copies of the operands hold their values. -/
def ctWidemulOpaque (native : Bool) (a b : UInt32) : UInt64 :=
  if native then a.toUInt64 * b.toUInt64
  else joinWords (opaqueColumns a b).hi (opaqueColumns a b).lo

def ctMulsmall (native : Bool) (a : UInt64) (k : UInt32) : UInt64 :=
  if native then a * k.toUInt64
  else
    let lo := ctWidemul native a.toUInt32 k
    let hi := (a >>> 32).toUInt32 * k
    lo + (hi.toUInt64 <<< 32)

/-- One round: the mask is the low bit of `b` in every position. -/
def mulRound {w : Nat} (s : BitVec w × BitVec w × BitVec w) : BitVec w × BitVec w × BitVec w :=
  let (acc, a, b) := s
  let mask := (b <<< (w - 1)).sshiftRight (w - 1)
  (acc + (a &&& mask), a <<< 1, b >>> 1)

def softMultiply (w : Nat) (a b : BitVec w) : BitVec w := (mulRound^[w] (0, a, b)).1

def mulsi3 (a b : BitVec 32) : BitVec 32 := softMultiply 32 a b

def muldi3 (a b : BitVec 64) : BitVec 64 := softMultiply 64 a b

/-! ### Readings of a word -/

/-- A reading of words as the integers of a window of 2 ^ 32, from 2 ^ 16 times `-s` on. -/
structure WordReading (s : Int) (read : UInt32 → Int) : Prop where
  least : ∀ x, -(s * 65536) ≤ read x
  most : ∀ x, read x < 4294967296 - s * 65536
  same : ∀ x : UInt32, read x % 4294967296 = x.toNat

theorem wordReading_unsigned : WordReading 0 fun x => (x.toNat : Int) where
  least x := by omega
  most x := by have bound := x.toNat_lt; omega
  same x := by have bound := x.toNat_lt; omega

theorem wordReading_signed : WordReading 32768 fun x => x.toInt32.toInt := by
  have window (x : UInt32) : x.toInt32.toInt = (x.toNat : Int).bmod (2 ^ 32) :=
    BitVec.toInt_eq_toNat_bmod x.toBitVec
  constructor <;> intro x <;> simp only [window,Int.bmod_def] <;> have bound := x.toNat_lt <;> omega

theorem toNat_low (x : UInt32) : (x &&& 0xFFFF).toNat = x.toNat % 65536 := by
  rw [UInt32.toNat_and]
  exact Nat.and_two_pow_sub_one_eq_mod _ 16

theorem toNat_high (x : UInt32) : (x >>> 16).toNat = x.toNat / 65536 := by
  rw [UInt32.toNat_shiftRight]
  exact Nat.shiftRight_eq_div_pow _ 16

theorem toNat_halves (x : UInt32) : (x &&& 0xFFFF).toNat < 65536 ∧ (x >>> 16).toNat < 65536 ∧
    (x >>> 16).toNat * 65536 + (x &&& 0xFFFF).toNat = x.toNat := by
  have low := toNat_low x
  have high := toNat_high x
  have bound := x.toNat_lt
  omega

theorem toNat_lowered (x : UInt32) : (x <<< 16).toNat = (x.toNat % 65536) <<< 16 := by
  have shifted : (x <<< 16).toNat = x.toNat <<< 16 % 2 ^ 32 := UInt32.toNat_shiftLeft x 16
  rw [shifted,Nat.shiftLeft_eq,Nat.shiftLeft_eq]
  omega

theorem toInt_high (x : Int32) : (x >>> 16).toInt = x.toInt / 65536 := by
  rw [← Int32.toInt_toBitVec,Int32.toBitVec_shiftRight]
  exact (BitVec.toInt_sshiftRight).trans (Int.shiftRight_eq_div_pow _ 16)

theorem toNat_joinWords (hi lo : UInt32) :
    (joinWords hi lo).toNat = hi.toNat * 4294967296 + lo.toNat := by
  have high := hi.toNat_lt
  have low := lo.toNat_lt
  have shifted : hi.toNat <<< 32 % 2 ^ 64 = hi.toNat <<< 32 := by
    rw [Nat.shiftLeft_eq]
    omega
  rw [joinWords,UInt64.toNat_or,UInt64.toNat_shiftLeft,UInt32.toNat_toUInt64,UInt32.toNat_toUInt64]
  exact (congrArg (· ||| lo.toNat) shifted).trans
    ((Nat.shiftLeft_add_eq_or_of_lt low _).symm.trans
      (congrArg (· + lo.toNat) (Nat.shiftLeft_eq _ 32)))

section Reading

variable {s : Int} {read : UInt32 → Int} {x y : UInt32}

theorem WordReading.eq (reading : WordReading s read) {value : Int} (least : -(s * 65536) ≤ value)
    (most : value < 4294967296 - s * 65536) (same : value % 4294967296 = x.toNat) :
    read x = value := by
  have low := reading.least x
  have high := reading.most x
  have here := reading.same x
  omega

theorem WordReading.add (reading : WordReading s read) (least : -(s * 65536) ≤ read x + read y)
    (most : read x + read y < 4294967296 - s * 65536) : read (x + y) = read x + read y := by
  refine reading.eq least most ?_
  have first := reading.same x
  have second := reading.same y
  rw [UInt32.toNat_add]
  omega

theorem WordReading.mul (reading : WordReading s read) (least : -(s * 65536) ≤ read x * read y)
    (most : read x * read y < 4294967296 - s * 65536) : read (x * y) = read x * read y := by
  refine reading.eq least most ?_
  rw [Int.mul_emod,reading.same,reading.same,UInt32.toNat_mul]
  rfl

theorem WordReading.small (reading : WordReading s read) (low : 0 ≤ s) (high : s < 65536)
    (half : x.toNat < 65536) : read x = x.toNat :=
  reading.eq (by omega) (by omega) (by omega)

end Reading

/-! ### The ladders -/

/-- No sum of the ladder leaves the window of the words it adds. -/
structure Ladder.Exact (read : UInt32 → Int) (w : Ladder) : Prop where
  t : read w.t = read w.hl + (w.ll >>> 16).toNat
  w1 : read w.w1 = (w.t &&& 0xFFFF).toNat + read w.lh
  hi : read w.hi = read w.hh + read w.t / 65536 + read w.w1 / 65536

theorem half_product {s half low : Int} (least : -s ≤ half) (most : half < 65536 - s)
    (nonneg : 0 ≤ low) (below : low < 65536) (start : 0 ≤ s) (top : s < 65536) :
    -(s * 65535) ≤ half * low ∧ half * low ≤ (65535 - s) * 65535 := by
  have above := mul_le_mul_of_nonneg_right (show half ≤ 65535 - s by omega) nonneg
  have further :=
    mul_le_mul_of_nonneg_left (show low ≤ 65535 by omega) (show 0 ≤ 65535 - s by omega)
  exact ⟨by nlinarith,Int.le_trans above further⟩

/-- The ladder of four products loses no carry, for signed halves as well. -/
theorem mulLadder_exact {s : Int} {read : UInt32 → Int} (reading : WordReading s read)
    (sign : s = 0 ∨ s = 32768) {carry : UInt32 → UInt32}
    (shifts : ∀ x, read (carry x) = read x / 65536) {al ah bl bh : UInt32} (lowA : al.toNat < 65536)
    (lowB : bl.toNat < 65536) (leastA : -s ≤ read ah) (mostA : read ah < 65536 - s)
    (leastB : -s ≤ read bh) (mostB : read bh < 65536 - s) :
    (mulLadder carry al ah bl bh).Exact read ∧
      read (mulLadder carry al ah bl bh).hi * 4294967296 + (mulLadder carry al ah bl bh).lo.toNat =
        (read ah * 65536 + al.toNat) * (read bh * 65536 + bl.toNat) := by
  have start : 0 ≤ s := by omega
  have small {x : UInt32} : x.toNat < 65536 → read x = x.toNat := reading.small start (by omega)
  -- the four products
  have ll : (al * bl).toNat = al.toNat * bl.toNat := by
    rw [UInt32.toNat_mul]
    exact Nat.mod_eq_of_lt (by nlinarith)
  have product {half low : UInt32} (least : -s ≤ read half) (most : read half < 65536 - s)
      (below : low.toNat < 65536) : read (half * low) = read half * low.toNat ∧
        -(s * 65535) ≤ read half * low.toNat ∧ read half * low.toNat ≤ (65535 - s) * 65535 := by
    have bounds :=
      half_product least most (Int.natCast_nonneg low.toNat) (by omega) start (by omega)
    refine ⟨?_,bounds⟩
    rw [← small below] at bounds ⊢
    exact reading.mul (by omega) (by omega)
  obtain ⟨hl,hlLeast,hlMost⟩ := product leastA mostA lowB
  obtain ⟨lh,lhLeast,lhMost⟩ := product leastB mostB lowA
  rw [UInt32.mul_comm] at lh
  have hhBounds : -(s * 32768) ≤ read ah * read bh ∧
      read ah * read bh < 4294967296 - s * 65536 - 131070 + s := by
    rcases sign with rfl | rfl
    · constructor <;> nlinarith
    · constructor <;> nlinarith
  have hh : read (ah * bh) = read ah * read bh := reading.mul (by omega) (by omega)
  -- the sums
  have llHigh := toNat_high (al * bl)
  have llLow := toNat_low (al * bl)
  have llBelow := (al * bl).toNat_lt
  have piece : read ((al * bl) >>> 16) = ((al * bl) >>> 16).toNat := small (by omega)
  have t : read (ah * bl + (al * bl) >>> 16) = _ := reading.add (by omega) (by omega)
  rw [mulLadder]
  dsimp only
  generalize ah * bl + (al * bl) >>> 16 = word at t ⊢
  have wordLow := toNat_low word
  have lower : read (word &&& 0xFFFF) = (word &&& 0xFFFF).toNat := small (by omega)
  have w1 : read ((word &&& 0xFFFF) + al * bh) = _ := reading.add (by omega) (by omega)
  generalize (word &&& 0xFFFF) + al * bh = next at w1 ⊢
  have up := shifts word
  have upToo := shifts next
  have part : read (ah * bh + carry word) = _ := reading.add (by omega) (by omega)
  have hi : read (ah * bh + carry word + carry next) = _ := reading.add (by omega) (by omega)
  refine ⟨⟨by rw [t,piece],by rw [w1,lower],by rw [hi,part,up,upToo]⟩,?_⟩
  have lo : ((next <<< 16) ||| (al * bl &&& 0xFFFF)).toNat =
      next.toNat % 65536 * 65536 + (al * bl).toNat % 65536 := by
    rw [UInt32.toNat_or,toNat_lowered,llLow,← Nat.shiftLeft_add_eq_or_of_lt (by omega),
      Nat.shiftLeft_eq]
  have wordSame := reading.same word
  have nextSame := reading.same next
  have expand : (read ah * 65536 + al.toNat) * (read bh * 65536 + bl.toNat) =
      read ah * read bh * 4294967296 + (read ah * bl.toNat + read bh * al.toNat) * 65536 +
        (al.toNat * bl.toNat : Nat) := by
    push_cast
    ring
  rw [expand,lo,hi,part,up,upToo,hh]
  omega

theorem bmod_joined {hi lo : Nat} {word product : Int} (high : word % 4294967296 = hi)
    (value : word * 4294967296 + lo = product) (least : -4611686018427387904 ≤ product)
    (most : product ≤ 4611686018427387904) :
    ((hi * 4294967296 + lo : Nat) : Int).bmod (2 ^ 64) = product := by
  rw [Int.bmod_def]
  omega

/-- The sums of `ct_widemul_opaque` with their carries. -/
structure Columns.Exact (w : Columns) : Prop where
  mid : w.mid.toNat + w.midCarry.toNat * 4294967296 = w.lh.toNat + w.hl.toNat
  lo : w.lo.toNat + w.loCarry.toNat * 4294967296 = w.ll.toNat + (w.mid <<< 16).toNat
  hi : w.hi.toNat =
    w.hh.toNat + (w.mid >>> 16).toNat + (w.midCarry <<< 16).toNat + w.loCarry.toNat

/-- A compare takes the carry of a sum. -/
theorem sum_carry (x y : UInt32) :
    (x + y).toNat + (if x + y < x then (1 : UInt32) else 0).toNat * 4294967296 =
      x.toNat + y.toNat := by
  have first := x.toNat_lt
  have second := y.toNat_lt
  have sum := UInt32.toNat_add x y
  split
  · rename_i wrapped
    rw [UInt32.lt_iff_toNat_lt] at wrapped
    simp only [UInt32.toNat_one]
    omega
  · rename_i whole
    rw [UInt32.lt_iff_toNat_lt] at whole
    simp only [UInt32.toNat_zero]
    omega

/-- The column sums stay below a word and give the whole product. -/
theorem mulColumns_exact {al ah bl bh : UInt32} (alHalf : al.toNat < 65536)
    (ahHalf : ah.toNat < 65536) (blHalf : bl.toNat < 65536) (bhHalf : bh.toNat < 65536) :
    (mulColumns al ah bl bh).Exact ∧
      (mulColumns al ah bl bh).hi.toNat * 4294967296 + (mulColumns al ah bl bh).lo.toNat =
        (ah.toNat * 65536 + al.toNat) * (bh.toNat * 65536 + bl.toNat) := by
  have product {x y : UInt32} (first : x.toNat < 65536) (second : y.toNat < 65536) :
      (x * y).toNat = x.toNat * y.toNat ∧ x.toNat * y.toNat ≤ 65535 * 65535 := by
    have most := Nat.mul_le_mul (Nat.le_of_lt_succ first) (Nat.le_of_lt_succ second)
    refine ⟨?_,most⟩
    rw [UInt32.toNat_mul]
    exact Nat.mod_eq_of_lt (by omega)
  obtain ⟨ll,llMost⟩ := product alHalf blHalf
  obtain ⟨lh,lhMost⟩ := product alHalf bhHalf
  obtain ⟨hl,hlMost⟩ := product ahHalf blHalf
  obtain ⟨hh,hhMost⟩ := product ahHalf bhHalf
  have mid := sum_carry (al * bh) (ah * bl)
  have lo := sum_carry (al * bl) ((al * bh + ah * bl) <<< 16)
  have expand : (ah.toNat * 65536 + al.toNat) * (bh.toNat * 65536 + bl.toNat) =
      ah.toNat * bh.toNat * 4294967296 + (al.toNat * bh.toNat + ah.toNat * bl.toNat) * 65536 +
        al.toNat * bl.toNat := by
    ring
  rw [mulColumns]
  dsimp only
  generalize al * bh + ah * bl = word at mid lo ⊢
  generalize (if word < al * bh then (1 : UInt32) else 0) = carry at mid ⊢
  generalize al * bl + word <<< 16 = low at lo ⊢
  generalize (if low < al * bl then (1 : UInt32) else 0) = lowCarry at lo ⊢
  have wordHigh := toNat_high word
  have wordLow := toNat_lowered word
  have carryLow := toNat_lowered carry
  rw [Nat.shiftLeft_eq] at wordLow carryLow
  have total : (ah * bh + word >>> 16 + carry <<< 16 + lowCarry).toNat =
      (ah * bh).toNat + (word >>> 16).toNat + (carry <<< 16).toNat + lowCarry.toNat := by
    rw [UInt32.toNat_add,UInt32.toNat_add,UInt32.toNat_add]
    omega
  refine ⟨⟨mid,lo,total⟩,?_⟩
  omega

theorem widemulLadder_exact (a b : UInt32) :
    (widemulLadder a b).Exact (fun x => (x.toNat : Int)) ∧
      (ctWidemul false a b).toNat = a.toNat * b.toNat := by
  obtain ⟨lowA,highA,wholeA⟩ := toNat_halves a
  obtain ⟨lowB,highB,wholeB⟩ := toNat_halves b
  obtain ⟨exact,product⟩ := @mulLadder_exact 0 _ wordReading_unsigned (.inl rfl) (· >>> 16)
    (fun x => by rw [toNat_high]; rfl) (a &&& 0xFFFF) (a >>> 16) (b &&& 0xFFFF) (b >>> 16) lowA lowB
    (by omega) (by omega) (by omega) (by omega)
  refine ⟨exact,(toNat_joinWords _ _).trans ?_⟩
  rw [← wholeA,← wholeB]
  exact Int.natCast_inj.mp (by push_cast; exact product)

theorem product_bounds (a b : Int32) :
    -4611686018427387904 ≤ a.toInt * b.toInt ∧ a.toInt * b.toInt ≤ 4611686018427387904 := by
  have leastA : -2147483648 ≤ a.toInt := a.le_toInt
  have mostA : a.toInt < 2147483648 := a.toInt_lt
  have leastB : -2147483648 ≤ b.toInt := b.le_toInt
  have mostB : b.toInt < 2147483648 := b.toInt_lt
  constructor <;> nlinarith

/-- No partial product of the signed ladder wraps. -/
theorem widemulSLadder_exact (a b : Int32) :
    (widemulSLadder a b).Exact (fun x => x.toInt32.toInt) ∧
      (ctWidemulS false a b).toInt = a.toInt * b.toInt := by
  have halves (x : Int32) : (x.toUInt32 &&& 0xFFFF).toNat = x.toInt % 65536 ∧
      -2147483648 ≤ x.toInt ∧ x.toInt < 2147483648 := by
    have low := toNat_low x.toUInt32
    have same : x.toInt % 4294967296 = x.toUInt32.toNat := wordReading_signed.same x.toUInt32
    exact ⟨by omega,x.le_toInt,x.toInt_lt⟩
  obtain ⟨lowA,leastA,mostA⟩ := halves a
  obtain ⟨lowB,leastB,mostB⟩ := halves b
  have highA := toInt_high a
  have highB := toInt_high b
  obtain ⟨exact,product⟩ := @mulLadder_exact 32768 _ wordReading_signed (.inr rfl) signedHigh
    (fun x => toInt_high x.toInt32) (a.toUInt32 &&& 0xFFFF) (a >>> 16).toUInt32
    (b.toUInt32 &&& 0xFFFF) (b >>> 16).toUInt32 (by omega) (by omega)
    (show -32768 ≤ (a >>> 16).toInt by omega) (show (a >>> 16).toInt < 32768 by omega)
    (show -32768 ≤ (b >>> 16).toInt by omega) (show (b >>> 16).toInt < 32768 by omega)
  refine ⟨exact,?_⟩
  have wholeA : (a >>> 16).toInt * 65536 + (a.toUInt32 &&& 0xFFFF).toNat = a.toInt := by omega
  have wholeB : (b >>> 16).toInt * 65536 + (b.toUInt32 &&& 0xFFFF).toNat = b.toInt := by omega
  have joined : (ctWidemulS false a b).toInt = (((widemulSLadder a b).hi.toNat * 4294967296 +
      (widemulSLadder a b).lo.toNat : Nat) : Int).bmod (2 ^ 64) := by
    rw [← toNat_joinWords]
    exact BitVec.toInt_eq_toNat_bmod _
  have high := wordReading_signed.same (widemulSLadder a b).hi
  obtain ⟨least,most⟩ := product_bounds a b
  have value : (widemulSLadder a b).hi.toInt32.toInt * 4294967296 + (widemulSLadder a b).lo.toNat =
      a.toInt * b.toInt := by
    rw [← wholeA,← wholeB]
    exact product
  rw [joined]
  exact bmod_joined high value least most

theorem opaqueColumns_exact (a b : UInt32) : (opaqueColumns a b).Exact ∧
    (ctWidemulOpaque false a b).toNat = a.toNat * b.toNat := by
  obtain ⟨lowA,highA,wholeA⟩ := toNat_halves a
  obtain ⟨lowB,highB,wholeB⟩ := toNat_halves b
  obtain ⟨exact,product⟩ := mulColumns_exact lowA highA lowB highB
  rw [wholeA,wholeB] at product
  exact ⟨exact,(toNat_joinWords _ _).trans product⟩

theorem ctMulsmall_eq (native : Bool) (a : UInt64) (k : UInt32) :
    (ctMulsmall native a k).toNat = a.toNat * k.toNat % 2 ^ 64 := by
  rw [ctMulsmall]
  split
  · rw [UInt64.toNat_mul,UInt32.toNat_toUInt64]
  · rename_i built
    rw [Bool.not_eq_true] at built
    have lo := (widemulLadder_exact a.toUInt32 k).2
    have shifted (x : UInt64) : (x <<< 32).toNat = x.toNat * 2 ^ 32 % 2 ^ 64 :=
      (UInt64.toNat_shiftLeft x 32).trans (congrArg (· % 2 ^ 64) (Nat.shiftLeft_eq _ 32))
    have high : (a >>> 32).toNat = a.toNat / 2 ^ 32 :=
      (UInt64.toNat_shiftRight a 32).trans (Nat.shiftRight_eq_div_pow _ 32)
    have split : a.toNat * k.toNat = a.toNat / 2 ^ 32 * k.toNat * 2 ^ 32 +
        a.toNat % 2 ^ 32 * k.toNat := by
      rw [Nat.mul_right_comm,← Nat.add_mul,Nat.div_add_mod']
    have bound := a.toNat_lt
    rw [built,UInt64.toNat_add,lo,shifted,UInt32.toNat_toUInt64,UInt32.toNat_mul,
      UInt64.toNat_toUInt32,UInt64.toNat_toUInt32,high,split,
      Nat.mod_eq_of_lt (show a.toNat / 2 ^ 32 < 2 ^ 32 by omega)]
    omega

/-! ### The software multiplies -/

theorem mulRound_mask {w : Nat} (b : BitVec w) :
    (b <<< (w - 1)).sshiftRight (w - 1) = if b.getLsbD 0 then BitVec.allOnes w else 0 := by
  apply BitVec.eq_of_getLsbD_eq
  intro i below
  obtain ⟨last,rfl⟩ : ∃ last, w = last + 1 := ⟨w - 1,by omega⟩
  have top : (b <<< last).msb = b.getLsbD 0 := by
    rw [BitVec.msb_eq_getLsbD_last,BitVec.getLsbD_shiftLeft]
    simp
  have bit : ((b <<< last).sshiftRight last).getLsbD i = b.getLsbD 0 := by
    rw [BitVec.getLsbD_sshiftRight,top,decide_eq_false (Nat.not_le.mpr below)]
    split
    · have first : i = 0 := by omega
      simp [first]
    · rfl
  rw [Nat.add_sub_cancel,bit]
  cases b.getLsbD 0 <;> simp [below]

/-- A round keeps the accumulator plus the product left to add. -/
theorem mulRound_invariant {w : Nat} (acc a b : BitVec w) :
    (mulRound (acc, a, b)).1 + (mulRound (acc, a, b)).2.1 * (mulRound (acc, a, b)).2.2 =
      acc + a * b := by
  have masked : (a &&& (b <<< (w - 1)).sshiftRight (w - 1)).toNat = a.toNat * (b.toNat % 2) := by
    have odd : b.getLsbD 0 = decide (b.toNat % 2 = 1) := Nat.testBit_zero _
    rw [mulRound_mask,odd]
    rcases Nat.mod_two_eq_zero_or_one b.toNat with even | odd
    · simp [even]
    · simp [odd]
  have halves :
      a.toNat * b.toNat = a.toNat * (b.toNat % 2) + a.toNat * 2 ^ 1 * (b.toNat / 2 ^ 1) := by
    rw [Nat.mul_assoc,← Nat.mul_add,Nat.pow_one,Nat.mod_add_div]
  apply BitVec.eq_of_toNat_eq
  rw [mulRound]
  simp only [BitVec.toNat_add,BitVec.toNat_mul,BitVec.toNat_shiftLeft,BitVec.toNat_ushiftRight,
    masked,Nat.shiftLeft_eq,Nat.shiftRight_eq_div_pow,Nat.add_mod_mod,Nat.mod_add_mod,
    Nat.mod_mul_mod]
  rw [halves,Nat.add_assoc]

theorem mulRound_iterate {w : Nat} (n : Nat) (s : BitVec w × BitVec w × BitVec w) :
    (mulRound^[n] s).1 + (mulRound^[n] s).2.1 * (mulRound^[n] s).2.2 = s.1 + s.2.1 * s.2.2 ∧
      (mulRound^[n] s).2.2 = s.2.2 >>> n := by
  induction n with
  | zero => exact ⟨rfl,(BitVec.ushiftRight_zero _).symm⟩
  | succ n ih =>
    rw [Function.iterate_succ_apply']
    refine ⟨(mulRound_invariant _ _ _).trans ih.1,?_⟩
    rw [BitVec.shiftRight_add,← ih.2]
    rfl

theorem softMultiply_eq (w : Nat) (a b : BitVec w) : softMultiply w a b = a * b := by
  obtain ⟨kept,spent⟩ := mulRound_iterate w (0, a, b)
  rw [spent,BitVec.ushiftRight_eq_zero (Nat.le_refl w),BitVec.mul_zero,BitVec.add_zero] at kept
  exact kept.trans (BitVec.zero_add _)

/-- Every multiply is exact, or exact modulo the width of its result, in both builds, and the
sums of its words keep their carries. -/
theorem multiplies_exact (native : Bool) :
    (∀ a b, (ctWidemul native a b).toNat = a.toNat * b.toNat ∧
      (ctWidemulOpaque native a b).toNat = a.toNat * b.toNat) ∧
    (∀ a b, (ctWidemulS native a b).toInt = a.toInt * b.toInt) ∧
    (∀ a k, (ctMulsmall native a k).toNat = a.toNat * k.toNat % 2 ^ 64) ∧
    (∀ a b, (mulsi3 a b).toNat = a.toNat * b.toNat % 2 ^ 32) ∧
    (∀ a b, (muldi3 a b).toNat = a.toNat * b.toNat % 2 ^ 64) ∧
    (∀ a b, (widemulLadder a b).Exact (fun x => x.toNat) ∧ (opaqueColumns a b).Exact) ∧
    ∀ a b, (widemulSLadder a b).Exact fun x => x.toInt32.toInt := by
  have software {w : Nat} (a b : BitVec w) : (softMultiply w a b).toNat = _ :=
    (congrArg BitVec.toNat (softMultiply_eq w a b)).trans (BitVec.toNat_mul a b)
  refine ⟨?_,?_,ctMulsmall_eq native,software,software,
    fun a b => ⟨(widemulLadder_exact a b).1,(opaqueColumns_exact a b).1⟩,
    fun a b => (widemulSLadder_exact a b).1⟩
  · intro a b
    cases native with
    | false => exact ⟨(widemulLadder_exact a b).2,(opaqueColumns_exact a b).2⟩
    | true =>
      have product : (a.toUInt64 * b.toUInt64).toNat = a.toNat * b.toNat := by
        rw [UInt64.toNat_mul,UInt32.toNat_toUInt64,UInt32.toNat_toUInt64]
        exact Nat.mod_eq_of_lt (Nat.lt_of_lt_of_eq (Nat.mul_lt_mul'' a.toNat_lt b.toNat_lt) rfl)
      exact ⟨product,product⟩
  · intro a b
    cases native with
    | false => exact (widemulSLadder_exact a b).2
    | true =>
      obtain ⟨least,most⟩ := product_bounds a b
      rw [ctWidemulS,if_pos rfl,Int64.toInt_mul,Int32.toInt_toInt64,Int32.toInt_toInt64]
      exact Int.bmod_eq_of_le (by omega) (by omega)

end Chapulin
