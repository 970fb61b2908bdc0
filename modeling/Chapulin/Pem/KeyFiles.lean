/-
The key files an operator provisions: a P-256, an RSA and an ML-DSA-87 private
key, each held to the leaf certificate it signs for (`pem_files.c`).

The arithmetic is a parameter: `KeyObject` carries the object's base-point
multiplication, its RSA signers and verifier and its ML-DSA-87 expansion, and
nothing below rests on what they compute.  Each call writes into its caller's
rooms as it goes and clears them when a later step refuses.
-/

import Chapulin.Pem.Files
import Chapulin.Pem.Keys
import Chapulin.Rsa.Key

namespace Chapulin

open Lib Lib.Der List

variable {b : Build} {leaf pem scalar : Bytes} {room : Nat} {stored : Option Bytes}
    {out pair : P256Pair} {label : PemLabel} {v : RsaIntegers} {key : RsaPriv} {cpu : UInt32}

inductive Arch where
  | x8664 | arm64
  deriving DecidableEq, Repr

def Arch.cpuDefined : Arch → UInt32
  | x8664 => 0x73f
  | arm64 => 0xe7

def cpuProbed : UInt32 := 0x01

def cpuConstantTimeMultiply : UInt32 := 0x04

/-- An object that has the key calls: its build, and the arithmetic they run on. -/
structure KeyObject where
  build : Build
  arch : Arch
  /-- `WIDEMUL_BUILD_ANSWER` of a device object. -/
  buildNative : Bool
  /-- `widemul_p256_point_base_mul` and `widemul_p256_point_affine`: whether the product is a
  finite point, and the coordinates written. -/
  basePoint : (cpu : UInt32) → (native : Bool) → (scalar : Nat) → Bool × Bytes
  basePointLength : ∀ cpu native scalar, (basePoint cpu native scalar).2.length = 64
  /-- `rsa_pss_sign`, which reads the modulus and the private exponent. -/
  rsaPssSign : (n d digest salt blind : Bytes) → (cap : Nat) → Option Bytes
  /-- `rsa_sign64_pss`. -/
  rsaSign64Pss : (cpu : UInt32) → RsaPriv → (digest salt blind : Bytes) → (cap : Nat) → Option Bytes
  /-- `RSA_PSS_VERIFY_CPU`. -/
  rsaPssVerify : (cpu : UInt32) → (n digest sig : Bytes) → Bool
  /-- The expansion of `mldsa87_keygen_cpu`: whether every sampler stayed under its bound, the
  secret key and the public key. -/
  mldsaExpand : (cpu : UInt32) → (seed : Bytes) → Bool × Bytes × Bytes
  mldsaExpandLength : ∀ cpu seed,
    (mldsaExpand cpu seed).2.1.length = 4896 ∧ (mldsaExpand cpu seed).2.2.length = 2592

def p256Order : Nat := 0xffffffff00000000ffffffffffffffffbce6faada7179e84f3b9cac2fc632551

def returnOrWipe {α : Type} (wiped : α) (run : Bool × α) : Except Rc Unit × α :=
  if run.1 then (.ok (), run.2) else (.error .einval, wiped)

def readBlock (label : PemLabel) (blocks : PemBlocks) (w : Wbuf) : Option (PemBlocks × Wbuf) :=
  match pemBlocksNext label blocks w with
  | (.read _, next, written) => some (next, written)
  | _ => none

def blocksEnd (label : PemLabel) (blocks : PemBlocks) (w : Wbuf) : Bool :=
  match pemBlocksNext label blocks w with
  | (.atEnd, _, _) => true
  | _ => false

/-- `read_blocks`, with the label and the room of a second block. -/
def readBlocks (pem : Bytes) (first : PemLabel) (room : Nat) (second : Option (PemLabel × Nat)) :
    Option (Bytes × Bytes) := do
  let (blocks, firstDer) ← readBlock first (pemBlocksInit pem) (wbInit room)
  let (blocks, secondDer) ←
    match second with
    | none => some (blocks, wbInit 0)
    | some (label, room) => readBlock label blocks (wbInit room)
  if blocksEnd first blocks firstDer then some (firstDer.out, secondDer.out) else none

/-- The subjectPublicKeyInfo `x509_pem_read_subject_key` finds in a certificate. -/
def leafSpki (leaf : Bytes) : Option Bytes :=
  (x509PemReadSubjectKey leaf).map fun key => key.spki.read leaf

namespace KeyObject

variable (o : KeyObject)

def cpuValueOk (cpu : UInt32) : Bool :=
  if o.build.cpuRuntime then
    cpu &&& cpuProbed != 0 && cpu &&& ~~~ o.arch.cpuDefined == 0
  else cpu == 0

def nativeOfCpu (cpu : UInt32) : Bool := cpu &&& cpuConstantTimeMultiply != 0

def keyWidemul (cpu : UInt32) : Bool :=
  if o.build.cpuRuntime then nativeOfCpu cpu else o.buildNative

end KeyObject

/-! ### The P-256 call -/

structure P256Pair where
  priv : Bytes
  pub : Bytes
  deriving DecidableEq, Repr

def P256Pair.wiped : P256Pair := { priv := zeros 32, pub := zeros 64 }

/-- `p256_ecdh_keygen_cpu`: its answer, the private key and the uncompressed point. -/
def p256EcdhKeygenCpu (o : KeyObject) (cpu : UInt32) (native : Bool) (draw : Bytes) :
    Bool × Bytes × Bytes :=
  if 1 ≤ ofBytes draw ∧ ofBytes draw < p256Order then
    let (finite, xy) := o.basePoint cpu native (ofBytes draw)
    -- both outputs pass through the mask
    if finite then (true, draw, 0x04 :: xy) else (false, zeros 32, zeros 65)
  else (false, zeros 32, zeros 65)

def readPoint : DerReader Bytes := do
  let marker ← rbOctet
  let xy ← rbTake 64
  if marker ≠ 0x04 then failure else pure xy

def keyPair (o : KeyObject) (cpu : UInt32) (scalar : Bytes) (out : P256Pair) : Bool × P256Pair :=
  match p256EcdhKeygenCpu o cpu (o.keyWidemul cpu) scalar with
  | (false, priv, _) => (false, { out with priv := priv })
  | (true, priv, point) =>
    match readWhole readPoint point with
    | none => (false, { out with priv := priv })
    | some xy => (true, { priv := priv, pub := xy })

/-- `read_key`: the scalar, and the point of a publicKey field. -/
def readKey (pem : Bytes) : Option (Bytes × Option Bytes) :=
  match readBlocks pem .privateKey 150 none with
  | some (der, _) => x509PemReadPkcs8 der
  | none =>
    match readBlocks pem .ecPrivateKey 150 none with
    | some (der, _) => x509PemReadSec1 der
    | none => do
        let (parameters, der) ← readBlocks pem .ecParameters 10 (some (.ecPrivateKey, 150))
        if x509PemParametersAreP256 parameters then x509PemReadSec1 der else none

def leafHolds (leaf pub : Bytes) : Bool :=
  match leafSpki leaf with
  | none => false
  | some spki => x509PemSpkiIsP256 spki pub

/-- The tests of `ch_p256_key_from_pem`, in its order. -/
def p256KeyRun (o : KeyObject) (cpu : UInt32) (pem leaf : Bytes) (out : P256Pair) :
    Bool × P256Pair :=
  if o.cpuValueOk cpu then
    match readKey pem with
    | none => (false, out)
    | some (scalar, filePoint) =>
      match keyPair o cpu scalar out with
      | (false, out) => (false, out)
      | (true, out) => (filePoint.all (· == out.pub) && leafHolds leaf out.pub, out)
  else (false, out)

def chP256KeyFromPem (o : KeyObject) (cpu : UInt32) (pem leaf : Bytes) (out : P256Pair) :
    Except Rc Unit × P256Pair :=
  returnOrWipe P256Pair.wiped (p256KeyRun o cpu pem leaf out)

/-! ### The RSA call -/

def rsaKeyDerMax (b : Build) : Nat := 73 + 9 * b.modulusMax / 2

def rsaCheckDigest : Bytes :=
  [0x63,0x68,0x5f,0x72,0x73,0x61,0x5f,0x6b,0x65,0x79,0x5f,0x66,0x72,0x6f,0x6d,0x5f,0x70,0x65,
    0x6d] ++ zeros 12 ++ [0x01]

def rsaCheckBlind : Bytes :=
  [0x62,0x6c,0x69,0x6e,0x64,0,0,1,0x62,0x6c,0x69,0x6e,0x64,0,0,2]

def rsaCheckSalt : Bytes := [0x73,0x61,0x6c,0x74] ++ zeros 27 ++ [0x01]

def readModulus (b : Build) (n : Bytes) (key : RsaPriv) : Bool × RsaPriv :=
  if n.length < 2 ∨ n.length - 1 < 256 ∨ n.length - 1 > b.modulusMax then (false, key)
  else
    let (ok, room) := x509PemIntegerToBytes n (n.length - 1) key.n
    (ok, { key with n := room, nLen := n.length - 1 })

/-- `read_secrets`: every field is written whatever the others answer. -/
def readSecrets (v : RsaIntegers) (key : RsaPriv) : Bool × RsaPriv :=
  let (okD, d) := x509PemIntegerToBytes v.d key.nLen key.d
  let (okP, p) := x509PemIntegerToBytes v.p key.half key.p
  let (okQ, q) := x509PemIntegerToBytes v.q key.half key.q
  let (okDp, dp) := x509PemIntegerToBytes v.dp key.half key.dp
  let (okDq, dq) := x509PemIntegerToBytes v.dq key.half key.dq
  let (okQinv, qinv) := x509PemIntegerToBytes v.qinv key.half key.qinv
  let tops := decide (128 ≤ (p.getD 0 0).toNat) && decide (128 ≤ (q.getD 0 0).toNat)
  (okD && okP && okQ && okDp && okDq && okQinv && tops,
    { key with d := d, p := p, q := q, dp := dp, dq := dq, qinv := qinv })

def leafHoldsRsa (leaf : Bytes) (key : RsaPriv) : Bool :=
  match leafSpki leaf with
  | none => false
  | some spki => x509PemSpkiIsRsa spki key.modulus

/-- `signs`: the key test of one signer, and one signature of it that verifies. -/
def signs (o : KeyObject) (cpu : UInt32) (native : Bool) (key : RsaPriv) : Bool :=
  let keyOk := if native then rsaSign64KeyOk o.build key else rsaPssSignKeyOk o.build key
  let cap := o.build.modulusMax
  let sig :=
    if native then o.rsaSign64Pss cpu key rsaCheckDigest rsaCheckSalt rsaCheckBlind cap
    else o.rsaPssSign key.modulus key.exponent rsaCheckDigest rsaCheckSalt rsaCheckBlind cap
  keyOk && sig.any fun sig => o.rsaPssVerify cpu key.modulus rsaCheckDigest sig

def keyUsable (o : KeyObject) (cpu : UInt32) (key : RsaPriv) : Bool :=
  signs o cpu false key &&
    (!o.build.cpuRuntime || !KeyObject.nativeOfCpu cpu || signs o cpu true key)

/-- What a key keeps when the call returns: a device object reads the five integers into rooms of
its own frame, which it clears. -/
def keptKey (b : Build) (key : RsaPriv) : RsaPriv :=
  if b.cpuRuntime then key else key.clearCrt b.modulusMax

/-- The tests of `ch_rsa_key_from_pem`, in its order, on a key it has cleared. -/
def rsaKeyRun (o : KeyObject) (cpu : UInt32) (pem leaf : Bytes) (key : RsaPriv) : Bool × RsaPriv :=
  if o.cpuValueOk cpu then
    match readBlocks pem .privateKey (rsaKeyDerMax o.build) none with
    | none => (false, key)
    | some (der, _) =>
      match x509PemReadRsaPkcs8 der with
      | none => (false, key)
      | some fields =>
        match readModulus o.build fields.n key with
        | (false, key) => (false, key)
        | (true, key) =>
          match readSecrets fields key with
          | (false, key) => (false, key)
          | (true, key) => (leafHoldsRsa leaf key && keyUsable o cpu key, key)
  else (false, key)

def chRsaKeyFromPem (o : KeyObject) (cpu : UInt32) (pem leaf : Bytes) : Except Rc Unit × RsaPriv :=
  let cleared := RsaPriv.wiped o.build.modulusMax
  let (ok, key) := rsaKeyRun o cpu pem leaf cleared
  returnOrWipe cleared (ok, keptKey o.build key)

/-! ### The ML-DSA-87 call -/

structure MldsaPair where
  sk : Bytes
  pk : Bytes
  deriving DecidableEq, Repr

def MldsaPair.wiped : MldsaPair := { sk := zeros 4896, pk := zeros 2592 }

def expandSeed (o : KeyObject) (cpu : UInt32) (seed : Bytes) : Bool × MldsaPair :=
  let (bounded, sk, pk) := o.mldsaExpand (if o.build.cpuRuntime then cpu else 0) seed
  if bounded then (true, { sk := sk, pk := pk }) else (false, MldsaPair.wiped)

def leafHoldsMldsa (leaf pk : Bytes) : Bool :=
  match leafSpki leaf with
  | none => false
  | some spki => x509PemSpkiIsMldsa87 spki pk

/-- The tests of `ch_mldsa_key_from_pem`, in its order. -/
def mldsaKeyRun (o : KeyObject) (cpu : UInt32) (pem leaf : Bytes) (out : MldsaPair) :
    Bool × MldsaPair :=
  if o.cpuValueOk cpu then
    match readBlocks pem .privateKey 4962 none with
    | none => (false, out)
    | some (der, _) =>
      match x509PemReadMldsa87Pkcs8 der with
      | none => (false, out)
      | some (seed, expanded) =>
        match expandSeed o cpu seed with
        | (false, out) => (false, out)
        | (true, out) => (expanded.all (· == out.sk) && leafHoldsMldsa leaf out.pk, out)
  else (false, out)

def chMldsaKeyFromPem (o : KeyObject) (cpu : UInt32) (pem leaf : Bytes) (out : MldsaPair) :
    Except Rc Unit × MldsaPair :=
  returnOrWipe MldsaPair.wiped (mldsaKeyRun o cpu pem leaf out)

/-! ### The blocks of a key file -/

theorem wbInit_live (room : Nat) : (wbInit room).Live := ⟨rfl,Nat.zero_le room⟩

theorem readBlock_cases (label : PemLabel) (started : Bool) (text : Bytes) {w : Wbuf}
    (live : w.Live) :
    (readBlock label ⟨⟨text,false⟩,started⟩ w = none ∧
        ∀ der more, w.Holds der.length → ¬ RestBlocks started text ((label, der) :: more)) ∨
      ∃ der rest, readBlock label ⟨⟨text,false⟩,started⟩ w =
          some (⟨⟨rest,false⟩,true⟩, w.append der) ∧
        w.Holds der.length ∧
        ∀ blocks, RestBlocks started text blocks ↔
          ∃ more, blocks = (label, der) :: more ∧ RestBlocks true rest more := by
  rcases pemBlocksNext_cases label started text live with
    ⟨⟨after,next⟩,blocks⟩ | ⟨⟨after,written,next⟩,blocks⟩ | ⟨der,rest,next,room,-,same⟩
  · refine .inl ⟨by rw [readBlock,next],fun der more _ holds => ?_⟩
    cases (blocks _).mp holds
  · refine .inl ⟨by rw [readBlock,next],fun der more room holds => ?_⟩
    obtain ⟨found,other,others,split,unfit⟩ := blocks _ holds
    obtain ⟨⟨rfl,rfl⟩,-⟩ := (List.cons.inj split).imp_left Prod.mk.inj
    exact unfit ⟨rfl,room⟩
  · exact .inr ⟨der,rest,by rw [readBlock,next],room,same⟩

theorem blocksEnd_iff (label : PemLabel) (started : Bool) (text : Bytes) {w : Wbuf}
    (live : w.Live) :
    blocksEnd label ⟨⟨text,false⟩,started⟩ w = true ↔ RestBlocks started text [] := by
  rw [blocksEnd]
  rcases pemBlocksNext_cases label started text live with
    ⟨⟨after,next⟩,blocks⟩ | ⟨⟨after,written,next⟩,blocks⟩ | ⟨der,rest,next,-,-,same⟩
  · rw [next]
    exact ⟨fun _ => (blocks []).mpr rfl,fun _ => rfl⟩
  · rw [next]
    refine ⟨fun impossible => absurd impossible Bool.false_ne_true,fun holds => ?_⟩
    obtain ⟨_,_,_,split,_⟩ := blocks _ holds
    cases split
  · rw [next]
    refine ⟨fun impossible => absurd impossible Bool.false_ne_true,fun holds => ?_⟩
    obtain ⟨_,split,_⟩ := (same _).mp holds
    cases split

theorem restBlocks_whole {text : Bytes} {blocks : List (PemLabel × Bytes)} :
    RestBlocks false text blocks ↔ PemText text blocks := by
  simp [RestBlocks,PemText]

theorem holds_wbInit {n : Nat} : (wbInit room).Holds n ↔ n ≤ room := by
  simp [Wbuf.Holds,wbInit]

/-- A block is read and what follows returns exactly when a block with the label stands in front,
fits, and has behind it what the rest reads. -/
theorem readBlock_bind {α : Type} {started : Bool} {text : Bytes} {w : Wbuf} {value : α}
    {rest : PemBlocks × Wbuf → Option α} {good : Bytes → List (PemLabel × Bytes) → Prop}
    (live : w.Live) (reads : ∀ der left, w.Holds der.length →
      (rest (⟨⟨left,false⟩,true⟩, w.append der) = some value ↔
        ∃ more, RestBlocks true left more ∧ good der more)) :
    (readBlock label ⟨⟨text,false⟩,started⟩ w).bind rest = some value ↔
      ∃ der more, RestBlocks started text ((label, der) :: more) ∧ w.Holds der.length ∧
        good der more := by
  rcases readBlock_cases label started text live with ⟨next,absent⟩ | ⟨found,left,next,fits,same⟩
  · rw [next]
    constructor
    · intro returned
      cases returned
    · rintro ⟨der,more,holds,small,-⟩
      exact absurd holds (absent der more small)
  · rw [next,Option.bind_some,reads found left fits]
    constructor
    · rintro ⟨more,behind,isGood⟩
      exact ⟨found,more,(same _).mpr ⟨more,rfl,behind⟩,fits,isGood⟩
    · rintro ⟨der,more,holds,-,isGood⟩
      obtain ⟨others,split,behind⟩ := (same _).mp holds
      cases split
      exact ⟨more,behind,isGood⟩

theorem blocksEnd_eq_some {α : Type} {text : Bytes} {w : Wbuf} {found value : α} (live : w.Live) :
    (if blocksEnd label ⟨⟨text,false⟩,true⟩ w = true then some found else none) = some value ↔
      ∃ more, RestBlocks true text more ∧ more = [] ∧ found = value := by
  simp only [Option.ite_none_right_eq_some,blocksEnd_iff label true text live,Option.some.injEq]
  simp

theorem readBlocks_one {der second : Bytes} :
    readBlocks pem label room none = some (der, second) ↔
      PemText pem [(label, der)] ∧ der.length ≤ room ∧ second = [] := by
  refine (readBlock_bind (wbInit_live room) fun found left fits =>
    blocksEnd_eq_some ((wbInit_live room).append fits)).trans ?_
  rw [← restBlocks_whole,← holds_wbInit]
  constructor
  · rintro ⟨found,more,holds,fits,rfl,same⟩
    cases same
    exact ⟨holds,fits,rfl⟩
  · rintro ⟨holds,fits,rfl⟩
    exact ⟨der,[],holds,fits,rfl,rfl⟩

theorem readBlocks_two {der other : Bytes} {next : PemLabel} {nextRoom : Nat} :
    readBlocks pem label room (some (next, nextRoom)) = some (der, other) ↔
      PemText pem [(label, der),(next, other)] ∧ der.length ≤ room ∧ other.length ≤ nextRoom := by
  refine (@readBlock_bind _ _ _ _ _ _ _
    (fun found more => ∃ behind rest, more = (next, behind) :: rest ∧
      (wbInit nextRoom).Holds behind.length ∧ rest = [] ∧ (found, behind) = (der, other))
    (wbInit_live room) fun found left fits => ?_).trans ?_
  · refine (readBlock_bind (wbInit_live nextRoom) fun behind last _ =>
      blocksEnd_eq_some ((wbInit_live room).append fits)).trans ?_
    constructor
    · rintro ⟨behind,rest,holds,good⟩
      exact ⟨_,holds,behind,rest,rfl,good⟩
    · rintro ⟨_,holds,behind,rest,rfl,good⟩
      exact ⟨behind,rest,holds,good⟩
  · rw [← restBlocks_whole,← holds_wbInit,← holds_wbInit]
    constructor
    · rintro ⟨_,_,holds,fits,_,_,rfl,fitsNext,rfl,same⟩
      cases same
      exact ⟨holds,fits,fitsNext⟩
    · rintro ⟨holds,fits,fitsNext⟩
      exact ⟨der,_,holds,fits,other,[],rfl,fitsNext,rfl,rfl⟩

/-! ### What the calls accept -/

def LeafKey (leaf spki : Bytes) : Prop :=
  ∃ f : CertificateOuter, f.Fits ∧ leaf = f.encode ∧ f.tbs.spki = spki

theorem leafSpki_encode {f : CertificateOuter} (fits : f.Fits) :
    leafSpki f.encode = some f.tbs.spki := by
  have read := (subjectKey_read f [] []).2
  rw [length_nil,nil_append,append_nil] at read
  rw [leafSpki,x509PemReadSubjectKey_encode fits,Option.map_some,← read]
  simp [SubjectKey.shift,DerRange.shift]

theorem leafSpki_eq_some {spki : Bytes} : leafSpki leaf = some spki ↔ LeafKey leaf spki := by
  constructor
  · intro found
    obtain ⟨key,read,-⟩ := Option.map_eq_some_iff.mp found
    obtain ⟨f,fits,rfl,rfl⟩ := x509PemReadSubjectKey_eq_some.mp read
    rw [leafSpki_encode fits] at found
    exact ⟨f,fits,rfl,Option.some.inj found⟩
  · rintro ⟨f,fits,rfl,rfl⟩
    exact leafSpki_encode fits

theorem leafSpki_test {test : Bytes → Bool} {spki : Bytes}
    (tests : ∀ found, test found = true ↔ found = spki) :
    (match leafSpki leaf with
      | none => false
      | some found => test found) = true ↔ LeafKey leaf spki := by
  rw [← leafSpki_eq_some]
  rcases leafSpki leaf with _ | found
  · simp
  · simp [tests]

theorem leafHolds_iff {pub : Bytes} : leafHolds leaf pub = true ↔ LeafKey leaf (p256Spki pub) :=
  leafSpki_test fun _ => x509PemSpkiIsP256_iff

theorem leafHoldsRsa_iff (short : key.modulus.length ≤ 512) :
    leafHoldsRsa leaf key = true ↔ LeafKey leaf (rsaSpki key.modulus) :=
  leafSpki_test fun _ => x509PemSpkiIsRsa_iff short

theorem leafHoldsMldsa_iff {pk : Bytes} :
    leafHoldsMldsa leaf pk = true ↔ LeafKey leaf (mldsa87Spki pk) :=
  leafSpki_test fun _ => x509PemSpkiIsMldsa87_iff

/-- The three shapes of a P-256 key file, with its scalar and the point it stores. -/
inductive P256File (pem scalar : Bytes) (stored : Option Bytes) : Prop where
  | pkcs8 (fields : EcFields scalar stored) (curve : Bool)
      (text : PemText pem [(.privateKey, pkcs8 p256Algorithm (ecPrivateKey scalar curve stored))])
  | sec1 (fields : EcFields scalar stored)
      (text : PemText pem [(.ecPrivateKey, ecPrivateKey scalar true stored)])
  | parameters (fields : EcFields scalar stored)
      (text : PemText pem [(.ecParameters, p256Parameters),
        (.ecPrivateKey, ecPrivateKey scalar true stored)])

theorem readBlocks_none {blocks : List (PemLabel × Bytes)} (text : PemText pem blocks)
    (other : blocks.map Prod.fst ≠ [label]) : readBlocks pem label room none = none := by
  rcases found : readBlocks pem label room none with _ | ⟨der,second⟩
  · rfl
  · obtain ⟨only,-,-⟩ := readBlocks_one.mp found
    rw [TextBlocks.unique text only] at other
    exact absurd rfl other

/-- PKCS 8, SEC 1 and SEC 1 behind its parameters are the forms of an EC key. -/
theorem readKey_eq_some : readKey pem = some (scalar, stored) ↔ P256File pem scalar stored := by
  constructor
  · intro returned
    rw [readKey] at returned
    rcases first : readBlocks pem .privateKey 150 none with _ | ⟨der,second⟩
    · rw [first] at returned
      dsimp only at returned
      rcases next : readBlocks pem .ecPrivateKey 150 none with _ | ⟨der,second⟩
      · rw [next] at returned
        obtain ⟨⟨parameters,der⟩,both,rest⟩ := Option.bind_eq_some_iff.mp returned
        dsimp only at rest
        split at rest
        · rename_i named
          obtain ⟨text,-,-⟩ := readBlocks_two.mp both
          obtain ⟨fields,rfl⟩ := x509PemReadSec1_eq_some.mp rest
          rw [x509PemParametersAreP256_iff.mp named] at text
          exact .parameters fields text
        · cases rest
      · rw [next] at returned
        obtain ⟨text,-,-⟩ := readBlocks_one.mp next
        obtain ⟨fields,rfl⟩ := x509PemReadSec1_eq_some.mp returned
        exact .sec1 fields text
    · rw [first] at returned
      obtain ⟨text,-,-⟩ := readBlocks_one.mp first
      obtain ⟨fields,curve,rfl⟩ := x509PemReadPkcs8_eq_some.mp returned
      exact .pkcs8 fields curve text
  · intro file
    cases file with
    | pkcs8 fields curve text =>
      rw [readKey,readBlocks_one.mpr ⟨text,p256Pkcs8_length_le fields curve,rfl⟩]
      exact x509PemReadPkcs8_eq_some.mpr ⟨fields,curve,rfl⟩
    | sec1 fields text =>
      have room : (ecPrivateKey scalar true stored).length ≤ 150 :=
        Nat.le_trans (ecPrivateKey_length_le fields true) (by decide)
      rw [readKey,readBlocks_none text (by simp),readBlocks_one.mpr ⟨text,room,rfl⟩]
      exact x509PemReadSec1_eq_some.mpr ⟨fields,rfl⟩
    | parameters fields text =>
      have room : (ecPrivateKey scalar true stored).length ≤ 150 :=
        Nat.le_trans (ecPrivateKey_length_le fields true) (by decide)
      rw [readKey,readBlocks_none text (by simp),readBlocks_none text (by simp)]
      dsimp only
      rw [readBlocks_two.mpr ⟨text,Nat.le_refl 10,room⟩]
      change (if x509PemParametersAreP256 p256Parameters = true then _ else none) = _
      rw [if_pos (x509PemParametersAreP256_iff.mpr rfl)]
      exact x509PemReadSec1_eq_some.mpr ⟨fields,rfl⟩

theorem readPoint_whole {xy : Bytes} (length : xy.length = 64) :
    readWhole readPoint (0x04 :: xy) = some xy := by
  have marker : rbOctet ⟨0x04 :: xy,false⟩ = some (0x04, ⟨xy,false⟩) := rfl
  have taken : rbTake 64 ⟨xy,false⟩ = some (xy, ⟨[],false⟩) :=
    (reads_take 64 xy xy ⟨[],false⟩).mpr ⟨rfl,xy,⟨rfl,length⟩,(append_nil xy).symm⟩
  rw [readPoint,readWhole_of_step marker,readWhole_of_step taken]
  rfl

structure HasPoint (o : KeyObject) (cpu : UInt32) (scalar point : Bytes) : Prop where
  positive : 1 ≤ ofBytes scalar
  below : ofBytes scalar < p256Order
  computed : o.basePoint cpu (o.keyWidemul cpu) (ofBytes scalar) = (true, point)

variable {o : KeyObject}

theorem keyPair_eq_true :
    keyPair o cpu scalar out = (true, pair) ↔ HasPoint o cpu scalar pair.pub ∧
      pair.priv = scalar := by
  have length := o.basePointLength cpu (o.keyWidemul cpu) (ofBytes scalar)
  have point : HasPoint o cpu scalar pair.pub ↔ (1 ≤ ofBytes scalar ∧ ofBytes scalar < p256Order) ∧
      o.basePoint cpu (o.keyWidemul cpu) (ofBytes scalar) = (true, pair.pub) :=
    ⟨fun found => ⟨⟨found.positive,found.below⟩,found.computed⟩,
      fun found => ⟨found.1.1,found.1.2,found.2⟩⟩
  rw [point,keyPair,p256EcdhKeygenCpu]
  clear point
  by_cases inRange : 1 ≤ ofBytes scalar ∧ ofBytes scalar < p256Order
  · rw [if_pos inRange]
    generalize o.basePoint cpu (o.keyWidemul cpu) (ofBytes scalar) = product at length
    rcases product with ⟨_ | _,xy⟩
    · simp
    · rcases pair with ⟨priv,pub⟩
      simp [readPoint_whole length,inRange,and_comm,eq_comm]
  · simp [inRange]

structure P256Accepts (o : KeyObject) (cpu : UInt32) (pem leaf : Bytes) (stored : Option Bytes)
    (pair : P256Pair) : Prop where
  described : o.cpuValueOk cpu = true
  file : P256File pem pair.priv stored
  point : HasPoint o cpu pair.priv pair.pub
  stored : ∀ xy ∈ stored, xy = pair.pub
  leaf : LeafKey leaf (p256Spki pair.pub)

theorem all_beq_iff {found : Option Bytes} {wanted : Bytes} :
    found.all (· == wanted) = true ↔ ∀ bytes ∈ found, bytes = wanted := by
  cases found with
  | none => simp
  | some bytes => simp

theorem p256KeyRun_eq_true :
    p256KeyRun o cpu pem leaf out = (true, pair) ↔
      ∃ stored, P256Accepts o cpu pem leaf stored pair := by
  constructor
  · intro returned
    rw [p256KeyRun] at returned
    split at returned
    · rename_i described
      rcases read : readKey pem with _ | ⟨scalar,stored⟩
      · rw [read] at returned
        cases returned
      rw [read] at returned
      rcases made : keyPair o cpu scalar out with ⟨_ | _,written⟩
      · simp only [made] at returned
        cases returned
      simp only [made,Prod.mk.injEq,Bool.and_eq_true] at returned
      obtain ⟨⟨agrees,held⟩,rfl⟩ := returned
      obtain ⟨point,rfl⟩ := keyPair_eq_true.mp made
      exact ⟨stored,described,readKey_eq_some.mp read,point,all_beq_iff.mp agrees,
        leafHolds_iff.mp held⟩
    · cases returned
  · rintro ⟨stored,accepts⟩
    have made : keyPair o cpu pair.priv out = (true, pair) :=
      keyPair_eq_true.mpr ⟨accepts.point,rfl⟩
    rw [p256KeyRun,if_pos accepts.described,readKey_eq_some.mpr accepts.file]
    simp only [made,all_beq_iff.mpr accepts.stored,leafHolds_iff.mpr accepts.leaf,Bool.and_self]

/-! ### What the RSA call accepts -/

structure RsaFile (b : Build) (pem : Bytes) (v : RsaIntegers) : Prop where
  fits : v.Fits
  text : PemText pem [(.privateKey, pkcs8 rsaAlgorithm v.encode)]
  room : (pkcs8 rsaAlgorithm v.encode).length ≤ rsaKeyDerMax b

/-- A key that holds the integers of a file, each filled with zeros on the left to its field's
length and with nothing behind it. -/
structure RsaHolds (size : Nat) (v : RsaIntegers) (key : RsaPriv) : Prop where
  least : 256 ≤ key.nLen
  most : key.nLen ≤ size
  length : v.n.length = key.nLen + 1
  n : HoldsInteger key.nLen v.n key.n (zeros (size - key.nLen))
  d : HoldsInteger key.nLen v.d key.d (zeros (size - key.nLen))
  p : HoldsInteger key.half v.p key.p (zeros (size / 2 - key.half))
  q : HoldsInteger key.half v.q key.q (zeros (size / 2 - key.half))
  dp : HoldsInteger key.half v.dp key.dp (zeros (size / 2 - key.half))
  dq : HoldsInteger key.half v.dq key.dq (zeros (size / 2 - key.half))
  qinv : HoldsInteger key.half v.qinv key.qinv (zeros (size / 2 - key.half))
  topP : 128 ≤ (key.p.getD 0 0).toNat
  topQ : 128 ≤ (key.q.getD 0 0).toNat

structure LadderSigns (o : KeyObject) (cpu : UInt32) (key : RsaPriv) : Prop where
  keyOk : rsaPssSignKeyOk o.build key = true
  verified : ∃ sig, o.rsaPssSign key.modulus key.exponent rsaCheckDigest rsaCheckSalt rsaCheckBlind
    o.build.modulusMax = some sig ∧ o.rsaPssVerify cpu key.modulus rsaCheckDigest sig = true

structure Sign64Signs (o : KeyObject) (cpu : UInt32) (key : RsaPriv) : Prop where
  keyOk : rsaSign64KeyOk o.build key = true
  verified : ∃ sig, o.rsaSign64Pss cpu key rsaCheckDigest rsaCheckSalt rsaCheckBlind
    o.build.modulusMax = some sig ∧ o.rsaPssVerify cpu key.modulus rsaCheckDigest sig = true

structure RsaAccepts (o : KeyObject) (cpu : UInt32) (pem leaf : Bytes) (v : RsaIntegers)
    (key : RsaPriv) : Prop where
  described : o.cpuValueOk cpu = true
  file : RsaFile o.build pem v
  holds : RsaHolds o.build.modulusMax v key
  ladder : LadderSigns o cpu key
  /-- The 64-bit signer signs too wherever the value of `cpu` picks it. -/
  sign64 : o.build.cpuRuntime = true → KeyObject.nativeOfCpu cpu = true → Sign64Signs o cpu key
  leaf : LeafKey leaf (rsaSpki key.modulus)

theorem option_any_iff {found : Option Bytes} {holds : Bytes → Bool} :
    found.any holds = true ↔ ∃ bytes, found = some bytes ∧ holds bytes = true := by
  cases found with
  | none => simp
  | some bytes => simp

theorem signs_false : signs o cpu false key = true ↔ LadderSigns o cpu key := by
  simp only [signs,Bool.false_eq_true,if_false,Bool.and_eq_true,option_any_iff]
  exact ⟨fun found => ⟨found.1,found.2⟩,fun found => ⟨found.keyOk,found.verified⟩⟩

theorem signs_true : signs o cpu true key = true ↔ Sign64Signs o cpu key := by
  simp only [signs,if_true,Bool.and_eq_true,option_any_iff]
  exact ⟨fun found => ⟨found.1,found.2⟩,fun found => ⟨found.keyOk,found.verified⟩⟩

theorem keyUsable_iff :
    keyUsable o cpu key = true ↔ LadderSigns o cpu key ∧
      (o.build.cpuRuntime = true → KeyObject.nativeOfCpu cpu = true → Sign64Signs o cpu key) := by
  rw [keyUsable,Bool.and_eq_true,signs_false,← signs_true]
  cases o.build.cpuRuntime with
  | false => simp
  | true =>
    cases KeyObject.nativeOfCpu cpu with
    | false => simp
    | true => simp

theorem readModulus_eq_true {n : Bytes} {next : RsaPriv} :
    readModulus b n key = (true, next) ↔
      256 ≤ next.nLen ∧ next.nLen ≤ b.modulusMax ∧ n.length = next.nLen + 1 ∧
        HoldsInteger next.nLen n next.n (key.n.drop next.nLen) ∧
        next = { key with n := next.n, nLen := next.nLen } := by
  constructor
  · intro returned
    rw [readModulus] at returned
    split at returned
    · cases returned
    rename_i inside
    obtain ⟨long,least,most⟩ : 2 ≤ n.length ∧ 256 ≤ n.length - 1 ∧ n.length - 1 ≤ b.modulusMax := by
      omega
    rcases copied : x509PemIntegerToBytes n (n.length - 1) key.n with ⟨ok,room⟩
    rw [copied] at returned
    obtain ⟨rfl,rfl⟩ := Prod.mk.inj returned
    have positive : 0 < n.length - 1 := Nat.lt_of_lt_of_le (by decide) least
    refine ⟨least,most,?_,(x509PemIntegerToBytes_eq_true positive).mp copied,rfl⟩
    exact (Nat.sub_add_cancel (Nat.le_of_succ_le long)).symm
  · rintro ⟨least,most,length,holds,same⟩
    have positive : 0 < next.nLen := Nat.lt_of_lt_of_le (by decide) least
    have copied := (x509PemIntegerToBytes_eq_true positive).mpr holds
    have nLen : n.length - 1 = next.nLen := by omega
    rw [readModulus,if_neg (by omega),nLen,copied]
    dsimp only
    rw [← same]

theorem readSecrets_eq_true {next : RsaPriv} (long : 0 < key.half) :
    readSecrets v key = (true, next) ↔
      HoldsInteger key.nLen v.d next.d (key.d.drop key.nLen) ∧
        HoldsInteger key.half v.p next.p (key.p.drop key.half) ∧
        HoldsInteger key.half v.q next.q (key.q.drop key.half) ∧
        HoldsInteger key.half v.dp next.dp (key.dp.drop key.half) ∧
        HoldsInteger key.half v.dq next.dq (key.dq.drop key.half) ∧
        HoldsInteger key.half v.qinv next.qinv (key.qinv.drop key.half) ∧
        128 ≤ (next.p.getD 0 0).toNat ∧ 128 ≤ (next.q.getD 0 0).toNat ∧
        next.n = key.n ∧ next.nLen = key.nLen := by
  have whole : 0 < key.nLen := by
    unfold RsaPriv.half at long
    omega
  rw [← x509PemIntegerToBytes_eq_true whole,← x509PemIntegerToBytes_eq_true long,
    ← x509PemIntegerToBytes_eq_true long,← x509PemIntegerToBytes_eq_true long,
    ← x509PemIntegerToBytes_eq_true long,← x509PemIntegerToBytes_eq_true long,readSecrets]
  rcases x509PemIntegerToBytes v.d key.nLen key.d with ⟨okD,d⟩
  rcases x509PemIntegerToBytes v.p key.half key.p with ⟨okP,p⟩
  rcases x509PemIntegerToBytes v.q key.half key.q with ⟨okQ,q⟩
  rcases x509PemIntegerToBytes v.dp key.half key.dp with ⟨okDp,dp⟩
  rcases x509PemIntegerToBytes v.dq key.half key.dq with ⟨okDq,dq⟩
  rcases x509PemIntegerToBytes v.qinv key.half key.qinv with ⟨okQinv,qinv⟩
  rcases next with ⟨n',d',nLen',p',q',dp',dq',qinv'⟩
  simp only [Prod.mk.injEq,Bool.and_eq_true,decide_eq_true_eq,RsaPriv.mk.injEq]
  constructor
  · rintro ⟨⟨⟨⟨⟨⟨⟨rfl,rfl⟩,rfl⟩,rfl⟩,rfl⟩,rfl⟩,topP,topQ⟩,rfl,rfl,rfl,rfl,rfl,rfl,rfl,rfl⟩
    simpa using And.intro topP topQ
  · rintro ⟨⟨rfl,rfl⟩,⟨rfl,rfl⟩,⟨rfl,rfl⟩,⟨rfl,rfl⟩,⟨rfl,rfl⟩,⟨rfl,rfl⟩,topP,topQ,rfl,rfl⟩
    simpa using And.intro topP topQ

theorem zeros_drop (size taken : Nat) : (zeros size).drop taken = zeros (size - taken) :=
  drop_replicate

theorem rsaHolds_iff :
    (∃ begun, readModulus b v.n (RsaPriv.wiped b.modulusMax) = (true, begun) ∧
        readSecrets v begun = (true, key)) ↔
      RsaHolds b.modulusMax v key := by
  constructor
  · rintro ⟨begun,modulus,secrets⟩
    obtain ⟨least,most,length,n,same⟩ := readModulus_eq_true.mp modulus
    have long : 0 < begun.half := Nat.div_pos (Nat.le_trans (by decide) least) (by decide)
    obtain ⟨d,p,q,dp,dq,qinv,topP,topQ,sameN,sameLen⟩ := (readSecrets_eq_true long).mp secrets
    have sameHalf : begun.half = key.half := congrArg (· / 2) sameLen.symm
    rw [sameHalf,same] at p q dp dq qinv
    rw [same] at d
    rw [← sameN] at n
    rw [← sameLen] at least most length n
    simp only [RsaPriv.wiped,zeros_drop,← sameLen] at n d p q dp dq qinv
    exact ⟨least,most,length,n,d,p,q,dp,dq,qinv,topP,topQ⟩
  · intro holds
    have long : 0 < key.nLen / 2 := Nat.div_pos (Nat.le_trans (by decide) holds.least) (by decide)
    have modulus : readModulus b v.n (RsaPriv.wiped b.modulusMax) =
        (true, { RsaPriv.wiped b.modulusMax with n := key.n, nLen := key.nLen }) := by
      refine readModulus_eq_true.mpr ⟨holds.least,holds.most,holds.length,?_,rfl⟩
      simp only [RsaPriv.wiped,zeros_drop]
      exact holds.n
    refine ⟨_,modulus,(readSecrets_eq_true ?_).mpr ?_⟩
    · rw [RsaPriv.half]
      exact long
    · simp only [RsaPriv.wiped,RsaPriv.half,zeros_drop,true_and]
      exact ⟨holds.d,holds.p,holds.q,holds.dp,holds.dq,holds.qinv,holds.topP,holds.topQ,trivial⟩

theorem rsaFile_iff :
    (∃ der second, readBlocks pem .privateKey (rsaKeyDerMax b) none = some (der, second) ∧
        x509PemReadRsaPkcs8 der = some v) ↔
      RsaFile b pem v := by
  constructor
  · rintro ⟨der,second,read,parsed⟩
    obtain ⟨text,room,-⟩ := readBlocks_one.mp read
    obtain ⟨fits,-,-,rfl⟩ := x509PemReadRsaPkcs8_eq_some.mp parsed
    exact ⟨fits,text,room⟩
  · intro file
    have room := file.room
    have most := b.modulusMax_le
    have outer := tlv_length_lt 0x30 (pkcs8Version ++ (rsaAlgorithm ++ tlv 0x04 v.encode))
    have inner := tlv_length_lt 0x04 v.encode
    simp only [rsaKeyDerMax,pkcs8] at room
    simp only [length_append] at outer
    refine ⟨_,[],readBlocks_one.mpr ⟨file.text,file.room,rfl⟩,
      x509PemReadRsaPkcs8_eq_some.mpr ⟨file.fits,by omega,?_,rfl⟩⟩
    simp only [length_append]
    omega

theorem HoldsInteger.take {len : Nat} {content room rest : Bytes}
    (holds : HoldsInteger len content room rest) :
    (room.take len).length = len ∧ ofBytes (room.take len) = ofBytes content := by
  obtain ⟨-,octets,length,value,rfl⟩ := holds
  rw [← length,take_left]
  exact ⟨rfl,value⟩

/-- An RSA key is loaded exactly when the file and the leaf agree on it. -/
theorem rsaKeyRun_eq_true :
    rsaKeyRun o cpu pem leaf (RsaPriv.wiped o.build.modulusMax) = (true, key) ↔
      ∃ v, RsaAccepts o cpu pem leaf v key := by
  constructor
  · intro returned
    rw [rsaKeyRun] at returned
    split at returned
    · rename_i described
      rcases read : readBlocks pem .privateKey (rsaKeyDerMax o.build) none with _ | ⟨der,second⟩
      · simp only [read] at returned
        cases returned
      rcases parsed : x509PemReadRsaPkcs8 der with _ | v
      · simp only [read,parsed] at returned
        cases returned
      rcases modulus : readModulus o.build v.n (RsaPriv.wiped o.build.modulusMax) with ⟨_ | _,begun⟩
      · simp only [read,parsed,modulus] at returned
        cases returned
      rcases secrets : readSecrets v begun with ⟨_ | _,written⟩
      · simp only [read,parsed,modulus,secrets] at returned
        cases returned
      simp only [read,parsed,modulus,secrets,Prod.mk.injEq,Bool.and_eq_true] at returned
      obtain ⟨⟨held,usable⟩,rfl⟩ := returned
      have holds := rsaHolds_iff.mp ⟨begun,modulus,secrets⟩
      have short : written.modulus.length ≤ 512 := by
        rw [RsaPriv.modulus,holds.n.take.1]
        exact Nat.le_trans holds.most o.build.modulusMax_le
      obtain ⟨ladder,sign64⟩ := keyUsable_iff.mp usable
      exact ⟨v,described,rsaFile_iff.mp ⟨der,second,read,parsed⟩,holds,ladder,sign64,
        (leafHoldsRsa_iff short).mp held⟩
    · cases returned
  · rintro ⟨v,accepts⟩
    obtain ⟨der,second,read,parsed⟩ := rsaFile_iff.mpr accepts.file
    obtain ⟨begun,modulus,secrets⟩ := rsaHolds_iff.mpr accepts.holds
    have short : key.modulus.length ≤ 512 := by
      rw [RsaPriv.modulus,accepts.holds.n.take.1]
      exact Nat.le_trans accepts.holds.most o.build.modulusMax_le
    have usable := keyUsable_iff.mpr ⟨accepts.ladder,accepts.sign64⟩
    rw [rsaKeyRun,if_pos accepts.described]
    simp only [read,parsed,modulus,secrets,(leafHoldsRsa_iff short).mpr accepts.leaf,usable,
      Bool.and_self]

/-! ### What the ML-DSA-87 call accepts -/

/-- The one shape of an ML-DSA-87 key file, with its seed and the expanded key it stores. -/
structure MldsaFile (pem seed : Bytes) (expanded : Option Bytes) : Prop where
  fields : MldsaFields seed expanded
  text : PemText pem [(.privateKey, pkcs8 mldsa87Algorithm (mldsaPrivateKey seed expanded))]

structure MldsaAccepts (o : KeyObject) (cpu : UInt32) (pem leaf seed : Bytes)
    (stored : Option Bytes) (pair : MldsaPair) : Prop where
  described : o.cpuValueOk cpu = true
  file : MldsaFile pem seed stored
  expanded : o.mldsaExpand (if o.build.cpuRuntime then cpu else 0) seed = (true, pair.sk, pair.pk)
  stored : ∀ sk ∈ stored, sk = pair.sk
  leaf : LeafKey leaf (mldsa87Spki pair.pk)

theorem mldsaFile_iff {seed : Bytes} :
    (∃ der second, readBlocks pem .privateKey 4962 none = some (der, second) ∧
        x509PemReadMldsa87Pkcs8 der = some (seed, stored)) ↔
      MldsaFile pem seed stored := by
  constructor
  · rintro ⟨der,second,read,parsed⟩
    obtain ⟨fields,rfl⟩ := x509PemReadMldsa87Pkcs8_eq_some.mp parsed
    exact ⟨fields,(readBlocks_one.mp read).1⟩
  · intro file
    have room : (pkcs8 mldsa87Algorithm (mldsaPrivateKey seed stored)).length ≤ 4962 :=
      Nat.le_trans (tlv_length_le 0x30 _)
        (Nat.add_le_add_right (mldsaContent_length_le file.fields) 4)
    exact ⟨_,[],readBlocks_one.mpr ⟨file.text,room,rfl⟩,
      x509PemReadMldsa87Pkcs8_eq_some.mpr ⟨file.fields,rfl⟩⟩

theorem expandSeed_eq_true {seed : Bytes} {pair : MldsaPair} :
    expandSeed o cpu seed = (true, pair) ↔
      o.mldsaExpand (if o.build.cpuRuntime then cpu else 0) seed = (true, pair.sk, pair.pk) := by
  rw [expandSeed]
  rcases o.mldsaExpand (if o.build.cpuRuntime then cpu else 0) seed with ⟨_ | _,sk,pk⟩
  · simp
  · rcases pair with ⟨otherSk,otherPk⟩
    simp

theorem mldsaKeyRun_eq_true {out pair : MldsaPair} :
    mldsaKeyRun o cpu pem leaf out = (true, pair) ↔
      ∃ seed stored, MldsaAccepts o cpu pem leaf seed stored pair := by
  constructor
  · intro returned
    rw [mldsaKeyRun] at returned
    split at returned
    · rename_i described
      rcases read : readBlocks pem .privateKey 4962 none with _ | ⟨der,second⟩
      · simp only [read] at returned
        cases returned
      rcases parsed : x509PemReadMldsa87Pkcs8 der with _ | ⟨seed,stored⟩
      · simp only [read,parsed] at returned
        cases returned
      rcases made : expandSeed o cpu seed with ⟨_ | _,written⟩
      · simp only [read,parsed,made] at returned
        cases returned
      simp only [read,parsed,made,Prod.mk.injEq,Bool.and_eq_true] at returned
      obtain ⟨⟨agrees,held⟩,rfl⟩ := returned
      exact ⟨seed,stored,described,mldsaFile_iff.mp ⟨der,second,read,parsed⟩,
        expandSeed_eq_true.mp made,all_beq_iff.mp agrees,leafHoldsMldsa_iff.mp held⟩
    · cases returned
  · rintro ⟨seed,stored,accepts⟩
    obtain ⟨der,second,read,parsed⟩ := mldsaFile_iff.mpr accepts.file
    rw [mldsaKeyRun,if_pos accepts.described]
    simp only [read,parsed,expandSeed_eq_true.mpr accepts.expanded,all_beq_iff.mpr accepts.stored,
      leafHoldsMldsa_iff.mpr accepts.leaf,Bool.and_self]

/-! ### The three calls -/

theorem returnOrWipe_eq_ok {α : Type} {wiped result : α} {run : Bool × α} :
    returnOrWipe wiped run = (.ok (), result) ↔ run = (true, result) := by
  rcases run with ⟨_ | _,written⟩
  · simp [returnOrWipe]
  · simp [returnOrWipe]

theorem returnOrWipe_refused {α : Type} {wiped : α} {run : Bool × α}
    (refused : ∀ result, returnOrWipe wiped run ≠ (.ok (), result)) :
    returnOrWipe wiped run = (.error .einval, wiped) := by
  rcases run with ⟨_ | _,written⟩
  · rfl
  · exact absurd rfl (refused written)

theorem chRsaKeyFromPem_eq_ok :
    chRsaKeyFromPem o cpu pem leaf = (.ok (), key) ↔
      ∃ v held, RsaAccepts o cpu pem leaf v held ∧ key = keptKey o.build held := by
  rw [chRsaKeyFromPem]
  rcases run : rsaKeyRun o cpu pem leaf (RsaPriv.wiped o.build.modulusMax) with ⟨ok,held⟩
  dsimp only
  rw [returnOrWipe_eq_ok,Prod.mk.injEq]
  constructor
  · rintro ⟨rfl,rfl⟩
    obtain ⟨v,accepts⟩ := rsaKeyRun_eq_true.mp run
    exact ⟨v,held,accepts,rfl⟩
  · rintro ⟨v,other,accepts,rfl⟩
    obtain ⟨rfl,rfl⟩ := Prod.mk.inj (run.symm.trans (rsaKeyRun_eq_true.mpr ⟨v,accepts⟩))
    exact ⟨rfl,rfl⟩

def p256Labels : List (List PemLabel) :=
  [[.privateKey],[.ecPrivateKey],[.ecParameters,.ecPrivateKey]]

theorem P256File.labels (file : P256File pem scalar stored) :
    ∃ blocks, PemText pem blocks ∧ blocks.map Prod.fst ∈ p256Labels := by
  cases file with
  | pkcs8 fields curve text => exact ⟨_,text,by simp [p256Labels]⟩
  | sec1 fields text => exact ⟨_,text,by simp [p256Labels]⟩
  | parameters fields text => exact ⟨_,text,by simp [p256Labels]⟩

theorem P256File.unique {pem scalar other : Bytes} {stored otherStored : Option Bytes}
    (file : P256File pem scalar stored) (again : P256File pem other otherStored) :
    scalar = other ∧ stored = otherStored :=
  Prod.mk.inj (Option.some.inj
    ((readKey_eq_some.mpr file).symm.trans (readKey_eq_some.mpr again)))

theorem RsaFile.unique {b : Build} {pem : Bytes} {v other : RsaIntegers} (file : RsaFile b pem v)
    (again : RsaFile b pem other) : v = other := by
  obtain ⟨der,second,read,parsed⟩ := rsaFile_iff.mpr file
  obtain ⟨_,_,readAgain,parsedAgain⟩ := rsaFile_iff.mpr again
  obtain ⟨rfl,-⟩ := Prod.mk.inj (Option.some.inj (read.symm.trans readAgain))
  exact Option.some.inj (parsed.symm.trans parsedAgain)

theorem MldsaFile.unique {pem seed other : Bytes} {stored otherStored : Option Bytes}
    (file : MldsaFile pem seed stored) (again : MldsaFile pem other otherStored) :
    seed = other := by
  obtain ⟨der,second,read,parsed⟩ := mldsaFile_iff.mpr file
  obtain ⟨_,_,readAgain,parsedAgain⟩ := mldsaFile_iff.mpr again
  obtain ⟨rfl,-⟩ := Prod.mk.inj (Option.some.inj (read.symm.trans readAgain))
  exact (Prod.mk.inj (Option.some.inj (parsed.symm.trans parsedAgain))).1

theorem LeafKey.spki_eq {f : CertificateOuter} {spki : Bytes} (fits : f.Fits)
    (leaf : LeafKey f.encode spki) : f.tbs.spki = spki :=
  Option.some.inj ((leafSpki_encode fits).symm.trans (leafSpki_eq_some.mpr leaf))

theorem chP256KeyFromPem_eq_ok :
    chP256KeyFromPem o cpu pem leaf out = (.ok (), pair) ↔
      ∃ stored, P256Accepts o cpu pem leaf stored pair := by
  rw [chP256KeyFromPem,returnOrWipe_eq_ok,p256KeyRun_eq_true]

theorem chMldsaKeyFromPem_eq_ok {out pair : MldsaPair} :
    chMldsaKeyFromPem o cpu pem leaf out = (.ok (), pair) ↔
      ∃ seed stored, MldsaAccepts o cpu pem leaf seed stored pair := by
  rw [chMldsaKeyFromPem,returnOrWipe_eq_ok,mldsaKeyRun_eq_true]

theorem chP256KeyFromPem_refused
    (refused : ∀ stored pair, ¬ P256Accepts o cpu pem leaf stored pair) :
    chP256KeyFromPem o cpu pem leaf out = (.error .einval, P256Pair.wiped) := by
  refine returnOrWipe_refused fun pair returned => ?_
  obtain ⟨stored,accepts⟩ := chP256KeyFromPem_eq_ok.mp returned
  exact refused stored pair accepts

theorem chRsaKeyFromPem_refused (refused : ∀ v held, ¬ RsaAccepts o cpu pem leaf v held) :
    chRsaKeyFromPem o cpu pem leaf = (.error .einval, RsaPriv.wiped o.build.modulusMax) := by
  refine returnOrWipe_refused fun key returned => ?_
  obtain ⟨v,held,accepts,-⟩ := chRsaKeyFromPem_eq_ok.mp returned
  exact refused v held accepts

theorem chMldsaKeyFromPem_refused
    {out : MldsaPair}
    (refused : ∀ seed stored pair, ¬ MldsaAccepts o cpu pem leaf seed stored pair) :
    chMldsaKeyFromPem o cpu pem leaf out = (.error .einval, MldsaPair.wiped) := by
  refine returnOrWipe_refused fun pair returned => ?_
  obtain ⟨seed,stored,accepts⟩ := chMldsaKeyFromPem_eq_ok.mp returned
  exact refused seed stored pair accepts

/-- Each call accepts exactly its file, held to its leaf, and returns what the file encodes; a text
with other blocks and a leaf with another key are refused, and every refusal leaves zeros. -/
theorem keys_from_pem (o : KeyObject) (cpu : UInt32) (pem leaf : Bytes) :
    (∀ out pair, chP256KeyFromPem o cpu pem leaf out = (.ok (), pair) ↔
        ∃ stored, P256Accepts o cpu pem leaf stored pair) ∧
      (∀ key, chRsaKeyFromPem o cpu pem leaf = (.ok (), key) ↔
        ∃ v held, RsaAccepts o cpu pem leaf v held ∧ key = keptKey o.build held) ∧
      (∀ out pair, chMldsaKeyFromPem o cpu pem leaf out = (.ok (), pair) ↔
        ∃ seed stored, MldsaAccepts o cpu pem leaf seed stored pair) ∧
      -- another label, a further block, or a text with no blocks of the grammar
      ((∀ blocks, PemText pem blocks → blocks.map Prod.fst ∉ p256Labels) →
        ∀ out, chP256KeyFromPem o cpu pem leaf out = (.error .einval, P256Pair.wiped)) ∧
      ((∀ blocks, PemText pem blocks → blocks.map Prod.fst ≠ [.privateKey]) →
        chRsaKeyFromPem o cpu pem leaf = (.error .einval, RsaPriv.wiped o.build.modulusMax) ∧
        ∀ out, chMldsaKeyFromPem o cpu pem leaf out = (.error .einval, MldsaPair.wiped)) ∧
      -- a leaf with another key
      (∀ f : CertificateOuter, f.Fits → leaf = f.encode →
        (∀ scalar stored point, P256File pem scalar stored → HasPoint o cpu scalar point →
          f.tbs.spki ≠ p256Spki point →
          ∀ out, chP256KeyFromPem o cpu pem leaf out = (.error .einval, P256Pair.wiped)) ∧
        (∀ v n, RsaFile o.build pem v → v.n.length = n.length + 1 → ofBytes n = ofBytes v.n →
          f.tbs.spki ≠ rsaSpki n →
          chRsaKeyFromPem o cpu pem leaf = (.error .einval, RsaPriv.wiped o.build.modulusMax)) ∧
        (∀ seed stored sk pk, MldsaFile pem seed stored →
          o.mldsaExpand (if o.build.cpuRuntime then cpu else 0) seed = (true, sk, pk) →
          f.tbs.spki ≠ mldsa87Spki pk →
          ∀ out, chMldsaKeyFromPem o cpu pem leaf out = (.error .einval, MldsaPair.wiped))) ∧
      -- every refusal
      (∀ out, (∀ pair, chP256KeyFromPem o cpu pem leaf out ≠ (.ok (), pair)) →
        chP256KeyFromPem o cpu pem leaf out = (.error .einval, P256Pair.wiped)) ∧
      ((∀ key, chRsaKeyFromPem o cpu pem leaf ≠ (.ok (), key)) →
        chRsaKeyFromPem o cpu pem leaf = (.error .einval, RsaPriv.wiped o.build.modulusMax)) ∧
      (∀ out, (∀ pair, chMldsaKeyFromPem o cpu pem leaf out ≠ (.ok (), pair)) →
        chMldsaKeyFromPem o cpu pem leaf out = (.error .einval, MldsaPair.wiped)) := by
  refine ⟨fun _ _ => chP256KeyFromPem_eq_ok,fun _ => chRsaKeyFromPem_eq_ok,
    fun _ _ => chMldsaKeyFromPem_eq_ok,?_,?_,?_,fun _ => returnOrWipe_refused,returnOrWipe_refused,
    fun _ => returnOrWipe_refused⟩
  · intro other out
    refine chP256KeyFromPem_refused fun stored pair accepts => ?_
    obtain ⟨blocks,text,shape⟩ := accepts.file.labels
    exact other blocks text shape
  · intro other
    refine ⟨chRsaKeyFromPem_refused fun v held accepts => ?_,fun out =>
      chMldsaKeyFromPem_refused fun seed stored pair accepts => ?_⟩
    · exact other _ accepts.file.text rfl
    · exact other _ accepts.file.text rfl
  · rintro f fits rfl
    refine ⟨?_,?_,?_⟩
    · intro scalar stored point file computed differs out
      refine chP256KeyFromPem_refused fun found pair accepts => ?_
      obtain ⟨rfl,-⟩ := file.unique accepts.file
      obtain ⟨-,rfl⟩ := Prod.mk.inj (computed.computed.symm.trans accepts.point.computed)
      exact differs (accepts.leaf.spki_eq fits)
    · intro v n file length value differs
      refine chRsaKeyFromPem_refused fun found held accepts => ?_
      cases file.unique accepts.file
      obtain ⟨heldLength,heldValue⟩ := accepts.holds.n.take
      have same : held.modulus = n :=
        ofBytes_inj (heldLength.trans (Nat.succ.inj (accepts.holds.length.symm.trans length)))
          (heldValue.trans value.symm)
      rw [← same] at differs
      exact differs (accepts.leaf.spki_eq fits)
    · intro seed stored sk pk file expanded differs out
      refine chMldsaKeyFromPem_refused fun again found pair accepts => ?_
      cases file.unique accepts.file
      obtain ⟨-,same⟩ := Prod.mk.inj (expanded.symm.trans accepts.expanded)
      obtain ⟨-,rfl⟩ := Prod.mk.inj same
      exact differs (accepts.leaf.spki_eq fits)

end Chapulin
