/-
The reference generator (`drbg.c`) over the ChaCha20 block function
(`chacha20.c`).

A request draws one keystream under the key it found: the first 32 bytes replace
the key, the bytes after them are handed out.  The loop copies whatever a block
holds, so it is modelled over any content of a block; on blocks that hold their
own positions it says where in the keystream each byte was taken from.
-/

import Chapulin.Crypto
import Mathlib.Data.List.GetD
import Mathlib.Data.List.Nodup
import Mathlib.Data.List.Range

namespace Chapulin

open Lib

/-! ### The block function -/

def chacha20Key : Nat := 32

def chacha20BlockLen : Nat := 64

def rotateLeft (x r : UInt32) : UInt32 := (x <<< r) ||| (x >>> (32 - r))

def load32 (p : Bytes) : UInt32 :=
  (p.getD 0 0).toUInt32 ||| ((p.getD 1 0).toUInt32 <<< 8) ||| ((p.getD 2 0).toUInt32 <<< 16) |||
    ((p.getD 3 0).toUInt32 <<< 24)

/-- The last loop of `block`: one word in little-endian order. -/
def store32 (v : UInt32) : Bytes :=
  [v.toUInt8,(v >>> 8).toUInt8,(v >>> 16).toUInt8,(v >>> 24).toUInt8]

abbrev ChachaState : Type := Vector UInt32 16

open List

/-- `QUARTERROUND`. -/
def quarterRound (a b c d : Fin 16) (x : ChachaState) : ChachaState :=
  let addTo := fun (i j : Fin 16) (x : ChachaState) => x.set i (x[i] + x[j]) i.isLt
  let turn := fun (i j : Fin 16) (r : UInt32) (x : ChachaState) =>
    x.set i (rotateLeft (x[i] ^^^ x[j]) r) i.isLt
  let x := turn d a 16 (addTo a b x)
  let x := turn b c 12 (addTo c d x)
  let x := turn d a 8 (addTo a b x)
  turn b c 7 (addTo c d x)

def doubleRound (x : ChachaState) : ChachaState :=
  let x := quarterRound 3 7 11 15 (quarterRound 2 6 10 14 (quarterRound 1 5 9 13
    (quarterRound 0 4 8 12 x)))
  quarterRound 3 4 9 14 (quarterRound 2 7 8 13 (quarterRound 1 6 11 12 (quarterRound 0 5 10 15 x)))

def chachaBlock (state : ChachaState) : Bytes :=
  let x := doubleRound^[10] state
  (finRange 16).flatMap fun i => store32 (x[i] + state[i])

def chachaSetup (key nonce : Bytes) (counter : UInt32) : ChachaState :=
  let k := fun i => load32 (key.drop (4 * i))
  let n := fun i => load32 (nonce.drop (4 * i))
  #v[0x61707865,0x3320646e,0x79622d32,0x6b206574,k 0,k 1,k 2,k 3,k 4,k 5,k 6,k 7,counter,n 0,n 1,
    n 2]

def chacha20Block (key nonce : Bytes) (counter : UInt32) : Bytes :=
  chachaBlock (chachaSetup key nonce counter)

theorem chacha20Block_length (key nonce : Bytes) (counter : UInt32) :
    (chacha20Block key nonce counter).length = chacha20BlockLen := rfl

-- the test vector of RFC 8439, section 2.3.2
example : (chacha20Block ((range 32).map byte) [0,0,0,9,0,0,0,0x4a,0,0,0,0] 1).take 16 =
    [0x10,0xf1,0xe7,0xe4,0xd1,0x3b,0x59,0x15,0x50,0x0f,0xdd,0x1f,0xa3,0x20,0x71,0xc4] := by
  decide +kernel

/-! ### The generator -/

def chDrbgSeedMin : Nat := 32

structure Drbg where
  key : Bytes
  seeded : Bool
  deriving DecidableEq, Repr

/-- `ch_drbg_seed`: none where its assertion fails. -/
def chDrbgSeed (c : Crypto) (seed : Bytes) : Option Drbg :=
  if seed.length < chDrbgSeedMin then none
  else some { key := c.hash sha256Len seed, seeded := true }

/-- The block being handed out: `left` is the source's `have`. -/
structure Drawing (β : Type) where
  block : List β
  off : Nat
  left : Nat
  counter : UInt32

section Draw

variable {β : Type} (blockAt : UInt32 → List β)

def Drawing.refill (d : Drawing β) : Drawing β :=
  if d.left = 0 then
    { block := blockAt d.counter, off := 0, left := chacha20BlockLen, counter := d.counter + 1 }
  else d

/-- The loop of `ch_rand_bytes`: none when `fuel` rounds do not end it. -/
def drawLoop : (fuel n : Nat) → Drawing β → Option (List β)
  | _, 0, _ => some []
  | 0, _ + 1, _ => none
  | fuel + 1, n + 1, d =>
    let d := d.refill blockAt
    let take := min (n + 1) d.left
    (drawLoop fuel (n + 1 - take) { d with off := d.off + take, left := d.left - take }).map
      ((d.block.drop d.off).take take ++ ·)

/-- One request: the next key, and what is handed out. -/
def draw (n : Nat) : Option (List β × List β) :=
  let block := blockAt 0
  let start : Drawing β :=
    { block := block, off := chacha20Key, left := chacha20BlockLen - chacha20Key, counter := 1 }
  (drawLoop blockAt n n start).map (block.take chacha20Key, ·)

end Draw

/-- `ch_rand_bytes`: none where its assertion fails. -/
def chRandBytes (n : Nat) (g : Drbg) : Option (Bytes × Drbg) :=
  if g.seeded then
    (draw (chacha20Block g.key (zeros 12)) n).map fun drawn => (drawn.2, { g with key := drawn.1 })
  else none

def randRun : List Nat → Drbg → Option (List Bytes)
  | [], _ => some []
  | n :: lengths, g => do
      let (out, g) ← chRandBytes n g
      let outs ← randRun lengths g
      pure (out :: outs)

def drbgRun (c : Crypto) (seed : Bytes) (lengths : List Nat) : Option (List Bytes) := do
  let g ← chDrbgSeed c seed
  randRun lengths g

/-! ### What a request draws -/

/-- The octets of a ChaCha20 keystream: 2^32 blocks. -/
def keystreamLen : Nat := 274877906944

def keystream (key : Bytes) (position : Nat) : UInt8 :=
  (chacha20Block key (zeros 12) (UInt32.ofNat (position / 64))).getD (position % 64) 0

/-- Blocks that hold their own positions in the keystream. -/
def positionBlock (counter : UInt32) : List Nat :=
  (range chacha20BlockLen).map (64 * counter.toNat + ·)

/-- Fast key erasure: the output of each request, from the key it found. -/
def fastKeyErasure : List Nat → Bytes → List Bytes
  | [], _ => []
  | n :: lengths, key =>
    (range n).map (fun i => keystream key (chacha20Key + i)) ::
      fastKeyErasure lengths ((range chacha20Key).map (keystream key))

section Positions

variable {β : Type} {blockAt : UInt32 → List β} {stream : Nat → β}

/-- The loop stands at a position of the stream, with the rest of its block in hand. -/
structure Drawing.At (d : Drawing β) (stream : Nat → β) (position : Nat) : Prop where
  inside : d.left ≤ chacha20BlockLen
  aligned : (position + d.left) % 64 = 0
  counter : d.counter = UInt32.ofNat ((position + d.left) / 64)
  rest : d.block.drop d.off = (range d.left).map fun i => stream ((position + i) % keystreamLen)

theorem Drawing.At.refill {d : Drawing β} {position : Nat} (placed : d.At stream position)
    (blocks : ∀ counter, blockAt counter =
      (range chacha20BlockLen).map fun i => stream (64 * counter.toNat + i)) :
    (d.refill blockAt).At stream position ∧ 0 < (d.refill blockAt).left := by
  unfold Drawing.refill
  by_cases empty : d.left = 0
  · rw [if_pos empty]
    have aligned : position % 64 = 0 := by simpa [empty] using placed.aligned
    have counter : d.counter = UInt32.ofNat (position / 64) := by simpa [empty] using placed.counter
    refine ⟨⟨Nat.le_refl _,?_,?_,?_⟩,Nat.succ_pos _⟩
    · change (position + 64) % 64 = 0
      omega
    · change d.counter + 1 = UInt32.ofNat ((position + 64) / 64)
      rw [Nat.add_div_right _ (by decide),counter,UInt32.ofNat_add]
      rfl
    · change (blockAt d.counter).drop 0 = _
      rw [drop_zero,blocks,counter]
      apply map_congr_left
      intro i small
      have inBlock : i < 64 := mem_range.mp small
      apply congrArg stream
      rw [UInt32.toNat_ofNat']
      change 64 * (position / 64 % 4294967296) + i = (position + i) % 274877906944
      omega
  · rw [if_neg empty]
    exact ⟨placed,Nat.pos_of_ne_zero empty⟩

/-- The bytes taken are those of the stream from the position on. -/
theorem Drawing.At.take {d : Drawing β} {position take : Nat} (placed : d.At stream position)
    (within : take ≤ d.left) :
    (d.block.drop d.off).take take =
        (range take).map (fun i => stream ((position + i) % keystreamLen)) ∧
      Drawing.At { d with off := d.off + take, left := d.left - take } stream
        (position + take) := by
  have left : position + take + (d.left - take) = position + d.left := by omega
  have split : range d.left = range take ++ (range (d.left - take)).map (take + ·) := by
    rw [← range_add,Nat.add_sub_cancel' within]
  have front : ((range take).map fun i => stream ((position + i) % keystreamLen)).length =
      take := by simp
  have rest := placed.rest
  rw [split,map_append] at rest
  refine ⟨?_,Nat.le_trans (Nat.sub_le _ _) placed.inside,?_,?_,?_⟩
  · rw [rest,take_left' front]
  · change (position + take + (d.left - take)) % 64 = 0
    rw [left]
    exact placed.aligned
  · change d.counter = UInt32.ofNat ((position + take + (d.left - take)) / 64)
    rw [left]
    exact placed.counter
  · change d.block.drop (d.off + take) = _
    rw [← drop_drop,rest,drop_left' front,map_map]
    apply map_congr_left
    intro i _
    rw [Function.comp_apply,Nat.add_assoc]

/-- The loop hands out the stream from where it stands, in order. -/
theorem drawLoop_eq {fuel n position : Nat} {d : Drawing β} (placed : d.At stream position)
    (blocks : ∀ counter, blockAt counter =
      (range chacha20BlockLen).map fun i => stream (64 * counter.toNat + i)) (enough : n ≤ fuel) :
    drawLoop blockAt fuel n d =
      some ((range n).map fun i => stream ((position + i) % keystreamLen)) := by
  induction fuel generalizing n position d with
  | zero =>
    cases Nat.le_zero.mp enough
    rfl
  | succ fuel ih =>
    cases n with
    | zero => rfl
    | succ n =>
      obtain ⟨filled,positive⟩ := placed.refill blocks
      rw [drawLoop]
      generalize d.refill blockAt = d at filled positive
      generalize size : min (n + 1) d.left = take
      obtain ⟨taken,further⟩ := filled.take (by omega : take ≤ d.left)
      rw [taken,ih further (by omega),Option.map_some]
      have split : range (n + 1) =
          range take ++ (range (n + 1 - take)).map (take + ·) := by
        rw [← range_add,Nat.add_sub_cancel' (by omega)]
      rw [split,map_append,map_map]
      simp only [Function.comp_def,Nat.add_assoc]

/-- A request takes the front of the stream for the next key and hands out what follows. -/
theorem draw_eq (n : Nat) (blocks : ∀ counter, blockAt counter =
    (range chacha20BlockLen).map fun i => stream (64 * counter.toNat + i)) :
    draw blockAt n = some ((range chacha20Key).map stream,
      (range n).map fun i => stream ((chacha20Key + i) % keystreamLen)) := by
  have first := blocks 0
  have zero : (0 : UInt32).toNat = 0 := rfl
  simp only [zero,Nat.mul_zero,Nat.zero_add] at first
  have halves : range chacha20BlockLen =
      range chacha20Key ++ (range (chacha20BlockLen - chacha20Key)).map (chacha20Key + ·) := by
    rw [← range_add]
    rfl
  have front : ((range chacha20Key).map stream).length = chacha20Key := by simp
  have placed : Drawing.At ⟨blockAt 0,chacha20Key,chacha20BlockLen - chacha20Key,1⟩ stream
      chacha20Key := by
    refine ⟨Nat.sub_le _ _,(by decide : (32 + 32) % 64 = 0),
      (by decide : 1 = UInt32.ofNat ((32 + 32) / 64)),?_⟩
    rw [first,halves,map_append,drop_left' front,map_map]
    apply map_congr_left
    intro i small
    have inBlock : i < 32 := mem_range.mp small
    change stream (32 + i) = stream ((32 + i) % 274877906944)
    rw [Nat.mod_eq_of_lt (by omega)]
  unfold draw
  dsimp only
  rw [drawLoop_eq placed blocks (Nat.le_refl n),Option.map_some,first,halves,map_append,
    take_left' front]

end Positions

theorem positionBlock_eq (counter : UInt32) :
    positionBlock counter = (range chacha20BlockLen).map fun i => id (64 * counter.toNat + i) :=
  rfl

theorem chacha20Block_eq (key : Bytes) (counter : UInt32) :
    chacha20Block key (zeros 12) counter =
      (range chacha20BlockLen).map fun i => keystream key (64 * counter.toNat + i) := by
  apply ext_getElem
  · rw [length_map,length_range,chacha20Block_length]
  · intro i inside _
    have small : i < 64 := inside
    have block : (64 * counter.toNat + i) / 64 = counter.toNat := by omega
    have place : (64 * counter.toNat + i) % 64 = i := by omega
    rw [getElem_map,getElem_range,keystream,block,place,UInt32.ofNat_toNat,
      getD_eq_getElem _ _ inside]

/-- The positions of a request, those of the next key first. -/
def requestPositions (n : Nat) : List Nat :=
  (range (chacha20Key + n)).map (· % keystreamLen)

theorem draw_positions (n : Nat) :
    ∃ keyAt outAt, draw positionBlock n = some (keyAt, outAt) ∧
      keyAt ++ outAt = requestPositions n := by
  refine ⟨_,_,draw_eq n positionBlock_eq,?_⟩
  rw [requestPositions,range_add,map_append,map_map]
  rfl

theorem requestPositions_nodup (n : Nat) :
    (requestPositions n).Nodup ↔ n ≤ keystreamLen - chacha20Key := by
  have bound : n ≤ keystreamLen - chacha20Key ↔ chacha20Key + n ≤ keystreamLen := by
    unfold keystreamLen chacha20Key
    omega
  rw [bound]
  constructor
  · intro distinct
    by_contra long
    have inj := inj_on_of_nodup_map distinct
    have same := inj (mem_range.mpr (Nat.zero_lt_of_lt (Nat.not_le.mp long)))
      (mem_range.mpr (Nat.not_le.mp long)) ((Nat.zero_mod _).trans (Nat.mod_self _).symm)
    cases same
  · intro short
    apply Nodup.map_on _ nodup_range
    intro i inside j insideToo same
    have small := Nat.lt_of_lt_of_le (mem_range.mp inside) short
    have smallToo := Nat.lt_of_lt_of_le (mem_range.mp insideToo) short
    rwa [Nat.mod_eq_of_lt small,Nat.mod_eq_of_lt smallToo] at same

/-! ### A sequence of requests -/

/-- One request under the key it found: the bytes handed out and the next key are those of the
keystream at the positions they were copied from. -/
structure Serves (key : Bytes) (n : Nat) (out next : Bytes) (keyAt outAt : List Nat) : Prop where
  copied : draw positionBlock n = some (keyAt, outAt)
  output : out = outAt.map (keystream key)
  nextKey : next = keyAt.map (keystream key)

/-- Every request takes its bytes and the next key from different positions. -/
inductive Apart : List Nat → Bytes → List Bytes → Prop
  | done (key : Bytes) : Apart [] key []
  | request {n : Nat} {lengths keyAt outAt : List Nat} {key out next : Bytes} {outs : List Bytes}
      (serves : Serves key n out next keyAt outAt) (distinct : (keyAt ++ outAt).Nodup)
      (rest : Apart lengths next outs) : Apart (n :: lengths) key (out :: outs)

/-- What the generator is for, of one seed and one sequence of requests. -/
structure DrawsApart (c : Crypto) (seed : Bytes) (lengths : List Nat) : Prop where
  returns : drbgRun c seed lengths = some (fastKeyErasure lengths (c.hash sha256Len seed))
  apart : Apart lengths (c.hash sha256Len seed) (fastKeyErasure lengths (c.hash sha256Len seed))

theorem keystream_mod (key : Bytes) (position : Nat) :
    keystream key (position % keystreamLen) = keystream key position := by
  have place : position % keystreamLen % 64 = position % 64 := by
    unfold keystreamLen
    omega
  have block : UInt32.ofNat (position % keystreamLen / 64) = UInt32.ofNat (position / 64) := by
    apply UInt32.toNat.inj
    rw [UInt32.toNat_ofNat',UInt32.toNat_ofNat']
    unfold keystreamLen
    omega
  rw [keystream,place,block,keystream]

theorem chRandBytes_eq (n : Nat) (key : Bytes) :
    chRandBytes n { key := key, seeded := true } =
      some ((range n).map (fun i => keystream key (chacha20Key + i)),
        { key := (range chacha20Key).map (keystream key), seeded := true }) := by
  simp only [chRandBytes,if_true,draw_eq n (chacha20Block_eq key),Option.map_some,keystream_mod]

theorem randRun_eq (lengths : List Nat) (key : Bytes) :
    randRun lengths { key := key, seeded := true } = some (fastKeyErasure lengths key) := by
  induction lengths generalizing key with
  | nil => rfl
  | cons n lengths ih =>
    rw [randRun,chRandBytes_eq]
    change (randRun lengths _).bind _ = _
    rw [ih]
    rfl

theorem drbgRun_eq (c : Crypto) {seed : Bytes} (admitted : chDrbgSeedMin ≤ seed.length)
    (lengths : List Nat) :
    drbgRun c seed lengths = some (fastKeyErasure lengths (c.hash sha256Len seed)) := by
  rw [drbgRun,chDrbgSeed,if_neg (Nat.not_lt.mpr admitted)]
  exact randRun_eq lengths _

theorem Apart.short {lengths : List Nat} {key : Bytes} {outs : List Bytes}
    (apart : Apart lengths key outs) : ∀ n ∈ lengths, n ≤ keystreamLen - chacha20Key := by
  induction apart with
  | done => simp
  | @request n lengths _ _ _ _ _ _ serves distinct _ ih =>
    obtain ⟨keyAt,outAt,copied,positions⟩ := draw_positions n
    obtain ⟨rfl,rfl⟩ := Prod.mk.inj (Option.some.inj (serves.copied.symm.trans copied))
    rw [positions,requestPositions_nodup] at distinct
    exact forall_mem_cons.mpr ⟨distinct,ih⟩

theorem apart_of_short {lengths : List Nat} (short : ∀ n ∈ lengths, n ≤ keystreamLen - chacha20Key)
    (key : Bytes) : Apart lengths key (fastKeyErasure lengths key) := by
  induction lengths generalizing key with
  | nil => exact .done key
  | cons n lengths ih =>
    have rest := ih (forall_mem_cons.mp short).2
      ((range chacha20Key).map (keystream key))
    refine .request ⟨draw_eq n positionBlock_eq,?_,?_⟩ ?_ rest
    · rw [map_map]
      apply map_congr_left
      intro i _
      exact (keystream_mod key _).symm
    · rw [map_map]
      rfl
    · obtain ⟨keyAt,outAt,copied,positions⟩ := draw_positions n
      obtain ⟨sameKey,sameOut⟩ :=
        Prod.mk.inj (Option.some.inj ((draw_eq n positionBlock_eq).symm.trans copied))
      rw [sameKey,sameOut,positions,requestPositions_nodup]
      exact short n mem_cons_self

/-- The requests of a sequence draw apart exactly when each of them leaves its keystream enough
bytes: past the last block the counter starts again at the block that holds the next key. -/
theorem drbg_draws_apart_iff (c : Crypto) {seed : Bytes} (admitted : chDrbgSeedMin ≤ seed.length)
    (lengths : List Nat) :
    DrawsApart c seed lengths ↔ ∀ n ∈ lengths, n ≤ keystreamLen - chacha20Key := by
  constructor
  · intro draws
    exact draws.apart.short
  · intro short
    exact ⟨drbgRun_eq c admitted lengths,apart_of_short short _⟩

theorem drbg_draws_apart_iff_sample :
    chDrbgSeedMin ≤ (zeros 32).length ∧
      (DrawsApart Crypto.sample (zeros 32) [5,100] ↔
        ∀ n ∈ [5,100], n ≤ keystreamLen - chacha20Key) :=
  ⟨by decide,drbg_draws_apart_iff Crypto.sample (by decide) [5,100]⟩

theorem chRandBytes_last (n : Nat) (key : Bytes) :
    ∃ front next, chRandBytes (n + 1) { key := key, seeded := true } =
      some (front ++ [keystream key (chacha20Key + n)],
        { key := keystream key 0 :: next, seeded := true }) := by
  rw [chRandBytes_eq,List.range_succ,map_append,map_singleton,show chacha20Key = 31 + 1 from rfl,
    range_succ_eq_map,map_cons]
  exact ⟨_,_,rfl⟩

/-- One byte more than the keystream has left: the request hands out, as its last byte, the first
byte of the key that replaces the old one. -/
theorem chRandBytes_hands_out_key (key : Bytes) :
    ∃ front next, chRandBytes (keystreamLen - chacha20Key + 1) { key := key, seeded := true } =
      some (front ++ [keystream key 0], { key := keystream key 0 :: next, seeded := true }) := by
  have last := chRandBytes_last (keystreamLen - chacha20Key) key
  rwa [show chacha20Key + (keystreamLen - chacha20Key) = keystreamLen by decide,
    ← keystream_mod key keystreamLen,Nat.mod_self] at last

theorem drbg_long_request :
    ¬ DrawsApart Crypto.sample (zeros 32) [keystreamLen - chacha20Key + 1] := by
  intro draws
  have short := draws.apart.short _ mem_cons_self
  exact absurd short (Nat.not_succ_le_self _)

end Chapulin
