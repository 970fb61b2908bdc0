/-
The private keys and public keys the key files carry (`x509_pem.c`).

Each reader is settled against the one encoding it admits: a PKCS #8 wrapper
around an ECPrivateKey, an RSAPrivateKey or an ML-DSA-87 private key, a SEC 1
key on its own, and the SubjectPublicKeyInfo of each algorithm, byte for byte.
-/

import Chapulin.Pem.SubjectKey

namespace Chapulin

open Lib Lib.Der List ReadsWhole

variable {content der key scalar seed spki : Bytes} {outLen : Nat} {expanded point : Option Bytes}

/-! ### Elliptic curve keys -/

def p256Algorithm : Bytes := spkiAlgid .ecdsa

def p256SpkiHeader : Bytes := [0x30,0x59]

def p256SpkiPointHeader : Bytes := [0x03,0x42,0x00,0x04]

def pkcs8Version : Bytes := [0x02,0x01,0x00]

def ecVersion : Bytes := [0x02,0x01,0x01]

def ecScalarHeader : Bytes := [0x04,0x20]

def ecCurve : Bytes := [0xa0,0x0a,0x06,0x08,0x2a,0x86,0x48,0xce,0x3d,0x03,0x01,0x07]

def p256Parameters : Bytes := [0x06,0x08,0x2a,0x86,0x48,0xce,0x3d,0x03,0x01,0x07]

def ecPointHeader : Bytes := [0xa1,0x44,0x03,0x42,0x00,0x04]

def x509PemSpkiIsP256 (spki point : Bytes) : Bool :=
  (readWhole (do
    x509ReadExact p256SpkiHeader
    x509ReadExact p256Algorithm
    x509ReadExact p256SpkiPointHeader
    x509ReadExact point) spki).isSome

def readEcPublicKey : DerReader (Option Bytes) := fun r =>
  if tagFollows 0xa1 r then
    (do
      x509ReadExact ecPointHeader
      let xy ← rbTake 64
      pure (some xy)) r
  else some (none, r)

def readEcOptional (curveRequired : Bool) : DerReader (Option Bytes) := fun r =>
  if tagFollows 0xa0 r then (do x509ReadExact ecCurve; readEcPublicKey) r
  else if curveRequired then none
  else readEcPublicKey r

def readEcPrivateKey (curveRequired : Bool) (der : Bytes) : Option (Bytes × Option Bytes) :=
  readWhole (do
    readFilling 0x30
    x509ReadExact ecVersion
    x509ReadExact ecScalarHeader
    let scalar ← rbTake 32
    let point ← readEcOptional curveRequired
    pure (scalar, point)) der

def takeRest : DerReader Bytes := fun r => rbTake (rbLeft r) r

/-- The privateKey of a PKCS #8 `PrivateKeyInfo` of one algorithm, which fills the rest. -/
def readPkcs8 (algorithm : Bytes) (der : Bytes) : Option Bytes :=
  readWhole (do
    readFilling 0x30
    x509ReadExact pkcs8Version
    x509ReadExact algorithm
    readFilling 0x04
    takeRest) der

def x509PemReadPkcs8 (der : Bytes) : Option (Bytes × Option Bytes) := do
  let key ← readPkcs8 p256Algorithm der
  readEcPrivateKey false key

def x509PemReadSec1 (der : Bytes) : Option (Bytes × Option Bytes) := readEcPrivateKey true der

def x509PemParametersAreP256 (der : Bytes) : Bool :=
  (readWhole (x509ReadExact p256Parameters) der).isSome

/-! ### RSA keys -/

def rsaAlgorithm : Bytes := spkiAlgid .rsa

def rsaExponent : Bytes := [0x02,0x03,0x01,0x00,0x01]

def rsaTwoPrimeVersion : Bytes := [0x02,0x01,0x00]

def zeroOctet : Bytes := [0x00]

def x509PemSpkiIsRsa (spki n : Bytes) : Bool :=
  (readWhole (do
    readFilling 0x30
    x509ReadExact rsaAlgorithm
    readFilling 0x03
    x509ReadExact zeroOctet
    readFilling 0x30
    let len ← x509ReadHeader 0x02
    if len ≠ n.length + 1 then failure
    else
      x509ReadExact zeroOctet
      x509ReadExact n
      x509ReadExact rsaExponent) spki).isSome

def readInteger : DerReader Bytes := do
  let len ← x509ReadHeader 0x02
  if len = 0 then failure else rbTake len

structure RsaIntegers where
  n : Bytes
  d : Bytes
  p : Bytes
  q : Bytes
  dp : Bytes
  dq : Bytes
  qinv : Bytes
  deriving DecidableEq, Repr

def readRsaPrivateKey (der : Bytes) : Option RsaIntegers :=
  readWhole (do
    readFilling 0x30
    x509ReadExact rsaTwoPrimeVersion
    let n ← readInteger
    x509ReadExact rsaExponent
    let d ← readInteger
    let p ← readInteger
    let q ← readInteger
    let dp ← readInteger
    let dq ← readInteger
    let qinv ← readInteger
    pure { n := n, d := d, p := p, q := q, dp := dp, dq := dq, qinv := qinv }) der

def x509PemReadRsaPkcs8 (der : Bytes) : Option RsaIntegers := do
  let inner ← readPkcs8 rsaAlgorithm der
  readRsaPrivateKey inner

/-- `bad` of `x509_pem_integer_to_bytes`: a negative value, a leading zero octet that is not
needed, or one octet too many that is not a leading zero. -/
def integerBad (v : Bytes) (outLen : Nat) : Bool :=
  let first := (v.getD 0 0).toNat
  let second := if v.length > 1 then (v.getD 1 0).toNat else 0x80
  decide (first ≥ 0x80) || (first == 0 && decide (second < 0x80)) ||
    (v.length == outLen + 1 && !(first == 0))

/-- `bad`, in the words of the source. -/
def integerBadWord (v : Bytes) (outLen : Nat) : UInt32 :=
  let first := (v.getD 0 0).toUInt32
  let second := if v.length > 1 then (v.getD 1 0).toUInt32 else 0x80
  let firstZero := (first - 1) >>> 31
  let bad := (first >>> 7) ||| (firstZero &&& ((second >>> 7) ^^^ 1))
  if v.length = outLen + 1 then bad ||| (firstZero ^^^ 1) else bad

/-- The content without the zero octet in front that `outLen` octets have no room for, filled with
zeros on the left. -/
def integerOctets (v : Bytes) (outLen : Nat) : Bytes :=
  let skip := if v.length = outLen + 1 then 1 else 0
  zeros (outLen + skip - v.length) ++ v.drop skip

/-- `x509_pem_integer_to_bytes` into the first `outLen` octets of `out`.  It writes before it
judges, so a content it refuses may stand in `out`. -/
def x509PemIntegerToBytes (v : Bytes) (outLen : Nat) (out : Bytes) : Bool × Bytes :=
  if v.length = 0 ∨ v.length > outLen + 1 then (false, out)
  else (!integerBad v outLen, integerOctets v outLen ++ out.drop outLen)

/-! ### ML-DSA-87 keys -/

def mldsa87Algorithm : Bytes := spkiAlgid .mldsa

def mldsa87SpkiHeader : Bytes := [0x30,0x82,0x0a,0x32]

def mldsa87SpkiKeyHeader : Bytes := [0x03,0x82,0x0a,0x21,0x00]

def mldsaSeedForm : Bytes := [0x80,0x20]

def mldsaBothSeed : Bytes := [0x04,0x20]

def mldsaBothExpanded : Bytes := [0x04,0x82,0x13,0x20]

def x509PemSpkiIsMldsa87 (spki key : Bytes) : Bool :=
  (readWhole (do
    x509ReadExact mldsa87SpkiHeader
    x509ReadExact mldsa87Algorithm
    x509ReadExact mldsa87SpkiKeyHeader
    x509ReadExact key) spki).isSome

/-- `read_mldsa_private_key`: the seed alone, or the seed and the expanded key. -/
def readMldsaPrivateKey (key : Bytes) : Option (Bytes × Option Bytes) :=
  readWhole (fun r =>
    if tagFollows 0x30 r then
      (do
        readFilling 0x30
        x509ReadExact mldsaBothSeed
        let seed ← rbTake 32
        x509ReadExact mldsaBothExpanded
        let expanded ← rbTake 4896
        pure (seed, some expanded)) r
    else
      (do
        x509ReadExact mldsaSeedForm
        let seed ← rbTake 32
        pure (seed, none)) r) key

def x509PemReadMldsa87Pkcs8 (der : Bytes) : Option (Bytes × Option Bytes) := do
  let key ← readPkcs8 mldsa87Algorithm der
  readMldsaPrivateKey key

/-! ### What each reader admits -/

theorem readsWhole_rest : ReadsWhole takeRest (fun rest bytes => rest = bytes) := by
  intro bytes rest
  have took : takeRest (rbInit bytes) = some (bytes, ⟨[],false⟩) := by
    have whole := rbBytes_append bytes []
    rw [append_nil] at whole
    simp only [takeRest,rbTake,rbInit,rbLeft_live,whole]
  rw [readWhole,took]
  change some bytes = some rest ↔ _
  rw [Option.some.injEq,eq_comm]

/-- The publicKey field of an `ECPrivateKey`. -/
def ecPointField : Option Bytes → Bytes
  | none => []
  | some xy => ecPointHeader ++ xy

/-- An `ECPrivateKey` with or without its curve and its point. -/
def ecPrivateKey (scalar : Bytes) (curve : Bool) (point : Option Bytes) : Bytes :=
  tlv 0x30 (ecVersion ++ (ecScalarHeader ++ (scalar ++
    ((if curve then ecCurve else []) ++ ecPointField point))))

structure EcFields (scalar : Bytes) (point : Option Bytes) : Prop where
  scalar : scalar.length = 32
  point : ∀ xy ∈ point, xy.length = 64

theorem readsWhole_ecPublicKey :
    ReadsWhole readEcPublicKey
      (fun point bytes => (∀ xy ∈ point, xy.length = 64) ∧ bytes = ecPointField point) := by
  have present := behind ecPointHeader (taking 64 fun xy =>
    (reads_pure (some xy)).whole)
  refine (readsWhole_choice 0xa1 present (reads_pure none).whole ?_ ?_).congr fun point bytes => ?_
  · rintro _ _ ⟨_,_,rfl⟩
    rfl
  · rintro _ _ ⟨-,rfl⟩
    simp
  constructor
  · rintro (⟨_,⟨xy,_,length,⟨rfl,rfl⟩,rfl⟩,rfl⟩ | ⟨rfl,rfl⟩)
    · refine ⟨?_,by rw [append_nil]; rfl⟩
      intro other among
      rw [← Option.mem_some_iff.mp among]
      exact length
    · refine ⟨fun xy among => ?_,rfl⟩
      cases among
  · rintro ⟨lengths,rfl⟩
    cases point with
    | none => exact .inr ⟨rfl,rfl⟩
    | some xy =>
      exact .inl ⟨xy,⟨xy,[],lengths xy rfl,⟨rfl,rfl⟩,(append_nil xy).symm⟩,rfl⟩

theorem readsWhole_ecOptional (curveRequired : Bool) :
    ReadsWhole (readEcOptional curveRequired) (fun point bytes => ∃ curve,
      (curveRequired = true → curve = true) ∧ (∀ xy ∈ point, xy.length = 64) ∧
        bytes = (if curve then ecCurve else []) ++ ecPointField point) := by
  have present := behind ecCurve readsWhole_ecPublicKey
  have absent : ReadsWhole (fun r => if curveRequired then none else readEcPublicKey r)
      (fun point bytes => curveRequired = false ∧ (∀ xy ∈ point, xy.length = 64) ∧
        bytes = ecPointField point) := by
    intro bytes point
    cases curveRequired with
    | true =>
      change none = some point ↔ _
      simp
    | false =>
      change readWhole readEcPublicKey bytes = some point ↔ _
      rw [readsWhole_ecPublicKey bytes point]
      simp
  refine (readsWhole_choice 0xa0 present absent ?_ ?_).congr fun point bytes => ?_
  · rintro _ _ ⟨_,_,rfl⟩
    rfl
  · rintro point _ ⟨-,-,rfl⟩
    cases point with
    | none => simp [ecPointField]
    | some xy => simp [ecPointField,ecPointHeader]
  constructor
  · rintro (⟨_,⟨lengths,rfl⟩,rfl⟩ | ⟨optional,lengths,rfl⟩)
    · exact ⟨true,fun _ => rfl,lengths,rfl⟩
    · exact ⟨false,fun required => optional.symm.trans required,lengths,rfl⟩
  · rintro ⟨curve,required,lengths,rfl⟩
    cases curve with
    | true => exact .inl ⟨_,⟨lengths,rfl⟩,rfl⟩
    | false =>
      refine .inr ⟨?_,lengths,rfl⟩
      cases curveRequired with
      | true => exact absurd (required rfl) Bool.false_ne_true
      | false => rfl

theorem ecPointField_length (lengths : ∀ xy ∈ point, xy.length = 64) :
    (ecPointField point).length ≤ 70 := by
  cases point with
  | none => simp [ecPointField]
  | some xy => simp [ecPointField,ecPointHeader,lengths xy rfl]

theorem ecPrivateKey_length_le (fields : EcFields scalar point) (curve : Bool) :
    (ecPrivateKey scalar curve point).length ≤ 121 := by
  have pointLength := ecPointField_length fields.point
  have curveLength : (if curve then ecCurve else []).length ≤ 12 := by
    cases curve <;> decide
  have version : ecVersion.length = 3 := rfl
  have header : ecScalarHeader.length = 2 := rfl
  have content : (ecVersion ++ (ecScalarHeader ++ (scalar ++
      ((if curve then ecCurve else []) ++ ecPointField point)))).length ≤ 119 := by
    simp only [length_append,fields.scalar,version,header]
    omega
  rw [ecPrivateKey,tlv_length_short 0x30 (Nat.lt_of_le_of_lt content (by decide))]
  exact Nat.add_le_add_right content 2

theorem readEcPrivateKey_eq_some {curveRequired : Bool} :
    readEcPrivateKey curveRequired der = some (scalar, point) ↔
      ∃ curve, (curveRequired = true → curve = true) ∧ EcFields scalar point ∧
        der = ecPrivateKey scalar curve point := by
  have reads := filling 0x30 (behind ecVersion (behind
    ecScalarHeader (taking 32 fun scalar =>
      (readsWhole_ecOptional curveRequired).map fun point => (scalar, point))))
  rw [show readEcPrivateKey curveRequired der = readWhole _ der from rfl,reads der (scalar, point)]
  constructor
  · rintro ⟨_,_,⟨_,⟨_,⟨taken,_,length,⟨found,⟨curve,required,lengths,rfl⟩,same⟩,rfl⟩,rfl⟩,rfl⟩,rfl⟩
    obtain ⟨rfl,rfl⟩ := Prod.mk.inj same
    exact ⟨curve,required,⟨length,lengths⟩,rfl⟩
  · rintro ⟨curve,required,fields,rfl⟩
    refine ⟨_,?_,⟨_,⟨_,⟨scalar,_,fields.scalar,⟨point,⟨curve,required,fields.point,rfl⟩,rfl⟩,rfl⟩,
      rfl⟩,rfl⟩,rfl⟩
    exact Nat.lt_of_lt_of_le (tlv_length_lt 0x30 _)
      (Nat.le_trans (ecPrivateKey_length_le fields curve) (by decide))

/-- A PKCS #8 `PrivateKeyInfo` around a key of one algorithm. -/
def pkcs8 (algorithm key : Bytes) : Bytes :=
  tlv 0x30 (pkcs8Version ++ (algorithm ++ tlv 0x04 key))

/-- A PKCS 8 wrapper is read from its canonical encoding only. -/
theorem readPkcs8_eq_some {algorithm : Bytes} :
    readPkcs8 algorithm der = some key ↔
      key.length < 65536 ∧ (pkcs8Version ++ (algorithm ++ tlv 0x04 key)).length < 65536 ∧
        der = pkcs8 algorithm key := by
  have reads := filling 0x30 (behind pkcs8Version
    (behind algorithm (filling 0x04 readsWhole_rest)))
  rw [show readPkcs8 algorithm der = readWhole _ der from rfl,reads der key]
  constructor
  · rintro ⟨_,small,⟨_,⟨_,⟨content,inside,rfl,rfl⟩,rfl⟩,rfl⟩,rfl⟩
    exact ⟨inside,small,rfl⟩
  · rintro ⟨inside,small,rfl⟩
    exact ⟨_,small,⟨_,⟨_,⟨key,inside,rfl,rfl⟩,rfl⟩,rfl⟩,rfl⟩

theorem x509PemReadPkcs8_eq_some :
    x509PemReadPkcs8 der = some (scalar, point) ↔
      EcFields scalar point ∧ ∃ curve,
        der = pkcs8 p256Algorithm (ecPrivateKey scalar curve point) := by
  change (readPkcs8 p256Algorithm der).bind _ = _ ↔ _
  rw [Option.bind_eq_some_iff]
  constructor
  · rintro ⟨key,wrapped,read⟩
    obtain ⟨curve,-,fields,rfl⟩ := readEcPrivateKey_eq_some.mp read
    exact ⟨fields,curve,(readPkcs8_eq_some.mp wrapped).2.2⟩
  · rintro ⟨fields,curve,rfl⟩
    have length := ecPrivateKey_length_le fields curve
    have wrapped := tlv_length_le 0x04 (ecPrivateKey scalar curve point)
    refine ⟨_,readPkcs8_eq_some.mpr ⟨by omega,?_,rfl⟩,readEcPrivateKey_eq_some.mpr
      ⟨curve,fun impossible => absurd impossible Bool.false_ne_true,fields,rfl⟩⟩
    have version : pkcs8Version.length = 3 := rfl
    have algorithm : p256Algorithm.length = 21 := rfl
    simp only [length_append,version,algorithm]
    omega

theorem p256Pkcs8_length_le (fields : EcFields scalar point)
    (curve : Bool) : (pkcs8 p256Algorithm (ecPrivateKey scalar curve point)).length ≤ 150 := by
  have key := ecPrivateKey_length_le fields curve
  have version : pkcs8Version.length = 3 := rfl
  have algorithm : p256Algorithm.length = 21 := rfl
  have content : (pkcs8Version ++ (p256Algorithm ++
      tlv 0x04 (ecPrivateKey scalar curve point))).length ≤ 147 := by
    simp only [length_append,version,algorithm,
      tlv_length_short 0x04 (Nat.lt_of_le_of_lt key (by decide))]
    omega
  exact Nat.le_trans (tlv_length_octet 0x30 (Nat.lt_of_le_of_lt content (by decide)))
    (Nat.add_le_add_right content 3)

theorem x509PemReadSec1_eq_some :
    x509PemReadSec1 der = some (scalar, point) ↔
      EcFields scalar point ∧ der = ecPrivateKey scalar true point := by
  rw [x509PemReadSec1,readEcPrivateKey_eq_some]
  constructor
  · rintro ⟨curve,required,fields,rfl⟩
    rw [required rfl]
    exact ⟨fields,rfl⟩
  · rintro ⟨fields,rfl⟩
    exact ⟨true,fun _ => rfl,fields,rfl⟩

theorem x509PemParametersAreP256_iff :
    x509PemParametersAreP256 der = true ↔ der = p256Parameters := by
  rw [x509PemParametersAreP256,(readsWhole_exact p256Parameters).isSome]
  simp

/-- Three fixed strings and one given one, byte for byte: the shape of the SubjectPublicKeyInfo
of an algorithm whose key has one length. -/
theorem readsWhole_fixed (header algorithm keyHeader key : Bytes) :
    ReadsWhole (do
      x509ReadExact header
      x509ReadExact algorithm
      x509ReadExact keyHeader
      x509ReadExact key) (fun _ bytes => bytes = header ++ (algorithm ++ (keyHeader ++ key))) := by
  have reads := behind header (behind algorithm
    (behind keyHeader (readsWhole_exact key)))
  refine reads.congr fun value bytes => ?_
  constructor
  · rintro ⟨_,⟨_,⟨_,rfl,rfl⟩,rfl⟩,rfl⟩
    rfl
  · rintro rfl
    exact ⟨_,⟨_,⟨_,rfl,rfl⟩,rfl⟩,rfl⟩

def p256Spki (point : Bytes) : Bytes :=
  p256SpkiHeader ++ (p256Algorithm ++ (p256SpkiPointHeader ++ point))

theorem x509PemSpkiIsP256_iff {point : Bytes} :
    x509PemSpkiIsP256 spki point = true ↔ spki = p256Spki point := by
  rw [x509PemSpkiIsP256,
    (readsWhole_fixed p256SpkiHeader p256Algorithm p256SpkiPointHeader point).isSome]
  simp [p256Spki]

def mldsa87Spki (key : Bytes) : Bytes :=
  mldsa87SpkiHeader ++ (mldsa87Algorithm ++ (mldsa87SpkiKeyHeader ++ key))

theorem x509PemSpkiIsMldsa87_iff :
    x509PemSpkiIsMldsa87 spki key = true ↔ spki = mldsa87Spki key := by
  rw [x509PemSpkiIsMldsa87,
    (readsWhole_fixed mldsa87SpkiHeader mldsa87Algorithm mldsa87SpkiKeyHeader key).isSome]
  simp [mldsa87Spki]

def rsaSpki (n : Bytes) : Bytes :=
  tlv 0x30 (rsaAlgorithm ++ tlv 0x03 (zeroOctet ++ tlv 0x30 (tlv 0x02 (zeroOctet ++ n) ++
    rsaExponent)))

theorem readsWhole_modulus (n : Bytes) :
    ReadsWhole (do
      let len ← x509ReadHeader 0x02
      if len ≠ n.length + 1 then failure
      else
        x509ReadExact zeroOctet
        x509ReadExact n
        x509ReadExact rsaExponent)
      (fun _ bytes => n.length + 1 < 65536 ∧ bytes = tlv 0x02 (zeroOctet ++ n) ++ rsaExponent) := by
  have reads : Reads (x509ReadHeader 0x02 >>= fun len => if len ≠ n.length + 1 then failure
      else do
        x509ReadExact zeroOctet
        x509ReadExact n
        x509ReadExact rsaExponent) (fun _ front => ∃ content right, content.length < 65536 ∧
          (content = zeroOctet ++ n ∧ right = rsaExponent) ∧
            front = tlv 0x02 content ++ right) := by
    refine reads_header fun len => ?_
    refine (Reads.refuse fun _ => (reads_exact zeroOctet).bind fun _ =>
      (reads_exact n).bind fun _ =>
      reads_exact rsaExponent).congr fun _ front => ?_
    constructor
    · rintro ⟨length,_,_,_,rfl,⟨_,taken,_,same,rfl,rfl⟩,rfl⟩
      subst taken
      refine ⟨zeroOctet ++ n,rsaExponent,?_,⟨rfl,rfl⟩,by simp⟩
      rw [not_not.mp length]
      simp [zeroOctet]
    · rintro ⟨_,_,length,⟨rfl,rfl⟩,rfl⟩
      refine ⟨?_,(),zeroOctet,n ++ rsaExponent,rfl,⟨(),n,rsaExponent,rfl,rfl,rfl⟩,by simp⟩
      rw [← length]
      simp [zeroOctet]
  refine reads.whole.congr fun _ bytes => ?_
  constructor
  · rintro ⟨_,_,small,⟨rfl,rfl⟩,rfl⟩
    refine ⟨?_,rfl⟩
    simpa [zeroOctet] using small
  · rintro ⟨small,rfl⟩
    refine ⟨_,_,?_,⟨rfl,rfl⟩,rfl⟩
    simpa [zeroOctet] using small

/-- The comparison holds for the canonical RSA key only. -/
theorem x509PemSpkiIsRsa_iff {n : Bytes} (short : n.length ≤ 512) :
    x509PemSpkiIsRsa spki n = true ↔ spki = rsaSpki n := by
  have reads := filling 0x30 (behind rsaAlgorithm (filling 0x03
    (behind zeroOctet (filling 0x30 (readsWhole_modulus n)))))
  rw [show x509PemSpkiIsRsa spki n = (readWhole _ spki).isSome from rfl,reads.isSome]
  constructor
  · rintro ⟨_,_,_,⟨_,⟨_,_,⟨_,⟨_,_,⟨_,rfl⟩,rfl⟩,rfl⟩,rfl⟩,rfl⟩,rfl⟩
    rfl
  · rintro rfl
    have zero : zeroOctet.length = 1 := rfl
    have algorithm : rsaAlgorithm.length = 15 := rfl
    have exponent : rsaExponent.length = 5 := rfl
    have modulusLength := tlv_length_le 0x02 (zeroOctet ++ n)
    have keyLength := tlv_length_le 0x30 (tlv 0x02 (zeroOctet ++ n) ++ rsaExponent)
    have bitsLength := tlv_length_le 0x03
      (zeroOctet ++ tlv 0x30 (tlv 0x02 (zeroOctet ++ n) ++ rsaExponent))
    simp only [length_append,zero,exponent] at modulusLength keyLength bitsLength
    refine ⟨(),_,?_,⟨_,⟨_,?_,⟨_,⟨_,?_,⟨by omega,rfl⟩,rfl⟩,rfl⟩,rfl⟩,rfl⟩,rfl⟩
    · simp only [length_append,algorithm]
      omega
    · simp only [length_append,zero]
      omega
    · simp only [length_append,exponent]
      omega

/-! ### Integers -/

structure NaturalContent (content : Bytes) : Prop where
  nonempty : content ≠ []
  sign : (content.getD 0 0).toNat < 128
  shortest : (content.getD 0 0).toNat = 0 → 1 < content.length → 128 ≤ (content.getD 1 0).toNat

/-- A small number has a short content, padded only at the bound. -/
theorem NaturalContent.short (natural : NaturalContent content) {n : Nat}
    (fits : ofBytes content < 256 ^ n) :
    content.length ≤ n + 1 ∧ (content.length = n + 1 → n = 0 ∨ content.getD 0 0 = 0) := by
  rcases content with _ | ⟨first,_ | ⟨second,tail⟩⟩
  · exact absurd rfl natural.nonempty
  · refine ⟨Nat.succ_le_succ (Nat.zero_le n),fun same => .inl ?_⟩
    exact (Nat.succ.inj same).symm
  · obtain ⟨above,aboveSecond,-⟩ := ofBytes_two_bounds first second tail
    have nonzero : first.toNat ≠ 0 → tail.length + 1 < n := by
      intro positive
      have least : 256 ^ (tail.length + 1) ≤ ofBytes (first :: second :: tail) :=
        Nat.le_trans (Nat.le_mul_of_pos_left _ (Nat.pos_of_ne_zero positive)) above
      exact (Nat.pow_lt_pow_iff_right (by decide)).mp (Nat.lt_of_le_of_lt least fits)
    have led : first.toNat = 0 → tail.length < n := by
      intro zero
      have top := natural.shortest zero (Nat.succ_lt_succ (Nat.succ_pos _))
      have least : 256 ^ tail.length ≤ ofBytes (first :: second :: tail) :=
        Nat.le_trans (Nat.le_mul_of_pos_left _ (Nat.lt_of_lt_of_le (by decide) top)) aboveSecond
      exact (Nat.pow_lt_pow_iff_right (by decide)).mp (Nat.lt_of_le_of_lt least fits)
    simp only [length_cons,getD_cons_zero]
    by_cases zero : first.toNat = 0
    · have less := led zero
      exact ⟨by omega,fun _ => .inr (UInt8.toNat_inj.mp zero)⟩
    · have less := nonzero zero
      exact ⟨by omega,fun same => by omega⟩

theorem NaturalContent.led (natural : NaturalContent content) (positive : 0 < outLen)
    (fits : ofBytes content < 256 ^ outLen) :
    content.length ≤ outLen + 1 ∧ (content.length = outLen + 1 → (content.getD 0 0).toNat = 0) := by
  obtain ⟨short,leads⟩ := natural.short fits
  exact ⟨short,fun same =>
    congrArg UInt8.toNat ((leads same).resolve_left (Nat.ne_of_gt positive))⟩

/-- The word-wise check admits the minimal naturals that fit. -/
theorem integerBad_eq_false (nonempty : content ≠ []) :
    integerBad content outLen = false ↔
      NaturalContent content ∧ (content.length = outLen + 1 → (content.getD 0 0).toNat = 0) := by
  simp only [integerBad,Bool.or_eq_false_iff,Bool.and_eq_false_iff,decide_eq_false_iff_not,
    beq_eq_false_iff_ne,Bool.not_eq_false',beq_iff_eq,ge_iff_le,Nat.not_le,Nat.not_lt]
  constructor
  · rintro ⟨⟨sign,canonical⟩,led⟩
    refine ⟨⟨nonempty,sign,fun zero long => ?_⟩,fun same => ?_⟩
    · have second := canonical.resolve_left (not_not.mpr zero)
      rwa [if_pos long] at second
    · exact led.resolve_left (not_not.mpr same)
  · rintro ⟨natural,led⟩
    refine ⟨⟨natural.sign,?_⟩,?_⟩
    · by_cases zero : (content.getD 0 0).toNat = 0
      · refine .inr ?_
        split
        · rename_i long
          exact natural.shortest zero long
        · exact Nat.le_refl _
      · exact .inl zero
    · by_cases same : content.length = outLen + 1
      · exact .inr (led same)
      · exact .inl same

theorem integerOctets_length (short : content.length ≤ outLen + 1) :
    (integerOctets content outLen).length = outLen := by
  simp only [integerOctets,length_append,zeros_length,length_drop]
  split
  · omega
  · omega

theorem ofBytes_integerOctets (led : content.length = outLen + 1 → (content.getD 0 0).toNat = 0) :
    ofBytes (integerOctets content outLen) = ofBytes content := by
  rw [integerOctets,ofBytes_zeros]
  split
  · rename_i same
    obtain ⟨first,tail,rfl⟩ := exists_cons_of_length_eq_add_one same
    have zero : first.toNat = 0 := led same
    rw [drop_succ_cons,drop_zero,ofBytes_cons,zero,Nat.zero_mul,Nat.zero_add]
  · rw [drop_zero]

/-- A room that begins with the value of a canonical content in `len` octets. -/
def HoldsInteger (len : Nat) (content room rest : Bytes) : Prop :=
  NaturalContent content ∧
    ∃ octets : Bytes, octets.length = len ∧ ofBytes octets = ofBytes content ∧ room = octets ++ rest

/-- The integer is copied exactly when its content is canonical and its value fits, and what is
written is that value in so many octets. -/
theorem x509PemIntegerToBytes_eq_true {out written : Bytes} (positive : 0 < outLen) :
    x509PemIntegerToBytes content outLen out = (true, written) ↔
      HoldsInteger outLen content written (out.drop outLen) := by
  constructor
  · intro copied
    rw [x509PemIntegerToBytes] at copied
    split at copied
    · cases copied
    rename_i inside
    obtain ⟨nonempty,short⟩ := not_or.mp inside
    obtain ⟨good,rfl⟩ := Prod.mk.inj copied
    have filled : content ≠ [] := fun empty => nonempty (length_eq_zero_iff.mpr empty)
    obtain ⟨natural,led⟩ := (integerBad_eq_false filled).mp (by simpa using good)
    exact ⟨natural,integerOctets content outLen,integerOctets_length (Nat.le_of_not_lt short),
      ofBytes_integerOctets led,rfl⟩
  · rintro ⟨natural,octets,length,value,rfl⟩
    have fits : ofBytes content < 256 ^ outLen := by
      rw [← value,← length]
      exact ofBytes_lt octets
    obtain ⟨short,led⟩ := natural.led positive fits
    have inside : ¬ (content.length = 0 ∨ content.length > outLen + 1) := by
      rintro (empty | long)
      · exact natural.nonempty (length_eq_zero_iff.mp empty)
      · omega
    have same : integerOctets content outLen = octets :=
      ofBytes_inj ((integerOctets_length short).trans length.symm)
        ((ofBytes_integerOctets led).trans value.symm)
    rw [x509PemIntegerToBytes,if_neg inside,
      (integerBad_eq_false natural.nonempty).mpr ⟨natural,led⟩,same]
    rfl

theorem octet_bits (octet : UInt8) :
    octet.toUInt32 >>> 7 = (if decide (octet.toNat < 0x80) then 0 else 1) ∧
      (octet.toUInt32 - 1) >>> 31 = if octet.toNat == 0 then 1 else 0 := by
  cases octet with
  | ofBitVec bits =>
    revert bits
    decide +kernel

theorem integerBadWord_eq_zero (v : Bytes) (outLen : Nat) :
    integerBadWord v outLen = 0 ↔ integerBad v outLen = false := by
  obtain ⟨sign,zero⟩ := octet_bits (v.getD 0 0)
  have next : (if v.length > 1 then (v.getD 1 0).toUInt32 else 0x80) >>> 7 =
      if decide ((if v.length > 1 then (v.getD 1 0).toNat else 0x80) < 0x80) then 0 else 1 := by
    split
    · exact (octet_bits _).1
    · rfl
  have negative : decide ((v.getD 0 0).toNat ≥ 0x80) = !decide ((v.getD 0 0).toNat < 0x80) := by
    rw [← decide_not]
    exact decide_eq_decide.mpr Nat.not_lt.symm
  have long : (v.length == outLen + 1) = decide (v.length = outLen + 1) := rfl
  rw [integerBadWord,integerBad,sign,zero,next,negative,long]
  generalize decide ((v.getD 0 0).toNat < 0x80) = positive
  generalize ((v.getD 0 0).toNat == 0) = leads
  generalize (if v.length > 1 then (v.getD 1 0).toNat else 0x80) = second
  generalize decide (second < 0x80) = clear
  by_cases long : v.length = outLen + 1
  · simp only [long,if_true,decide_true]
    cases positive <;> cases leads <;> cases clear <;> decide
  · simp only [long,if_false,decide_false]
    cases positive <;> cases leads <;> cases clear <;> decide

/-- The call accepts exactly the canonical contents of the numbers that fit, and writes such a
number in `outLen` octets. -/
theorem x509PemIntegerToBytes_exact (content out : Bytes) (outLen : Nat) (positive : 0 < outLen) :
    ((x509PemIntegerToBytes content outLen out).1 = true ↔
        NaturalContent content ∧ ofBytes content < 256 ^ outLen) ∧
      ((x509PemIntegerToBytes content outLen out).1 = true →
        ∃ octets, octets.length = outLen ∧ ofBytes octets = ofBytes content ∧
          (x509PemIntegerToBytes content outLen out).2 = octets ++ out.drop outLen) ∧
      (0 < content.length → content.length ≤ outLen + 1 →
        ((x509PemIntegerToBytes content outLen out).1 = true ↔
          integerBadWord content outLen = 0)) := by
  have spec {written : Bytes} := @x509PemIntegerToBytes_eq_true content outLen out written positive
  have fitted : NaturalContent content ∧ ofBytes content < 256 ^ outLen →
      (x509PemIntegerToBytes content outLen out).1 = true := by
    rintro ⟨natural,fits⟩
    obtain ⟨short,led⟩ := natural.led positive fits
    exact congrArg Prod.fst (spec.mpr ⟨natural,integerOctets content outLen,
      integerOctets_length short,ofBytes_integerOctets led,rfl⟩)
  refine ⟨⟨fun ok => ?_,fitted⟩,fun ok => (spec.mp (Prod.ext ok rfl)).2,fun filled short => ?_⟩
  · obtain ⟨natural,octets,length,value,-⟩ := spec.mp (Prod.ext ok rfl)
    rw [← value,← length]
    exact ⟨natural,ofBytes_lt octets⟩
  · rw [x509PemIntegerToBytes,if_neg (by omega),integerBadWord_eq_zero]
    simp

theorem x509PemIntegerToBytes_exact_sample :
    (x509PemIntegerToBytes [0,0x80] 1 [7,7]).1 = true ∧
      (x509PemIntegerToBytes [0,0x7f] 1 [7,7]).1 = false := by
  have canonical : NaturalContent [0,0x80] := ⟨by decide,by decide,by decide⟩
  have exact := fun content => (x509PemIntegerToBytes_exact content [7,7] 1 (by decide)).1
  refine ⟨(exact [0,0x80]).mpr ⟨canonical,by decide⟩,?_⟩
  rw [Bool.eq_false_iff,ne_eq,exact]
  exact fun refused => absurd (refused.1.shortest rfl (by decide)) (by decide)

/-! ### RSA and ML-DSA private keys -/

theorem reads_integer :
    Reads readInteger
      (fun content front => content ≠ [] ∧ content.length < 65536 ∧ front = tlv 0x02 content) := by
  have reads : Reads readInteger (fun value front => ∃ content right, content.length < 65536 ∧
      (content ≠ [] ∧ value = content ∧ right = []) ∧ front = tlv 0x02 content ++ right) := by
    refine reads_header fun len =>
      (Reads.refuse fun _ => reads_take len).congr fun value front => ?_
    constructor
    · rintro ⟨positive,rfl,length⟩
      refine ⟨value,[],length,⟨?_,rfl,rfl⟩,(append_nil _).symm⟩
      rintro rfl
      exact positive length.symm
    · rintro ⟨_,_,length,⟨nonempty,rfl,rfl⟩,rfl⟩
      refine ⟨?_,(append_nil _).symm,by rw [append_nil]; exact length⟩
      rintro rfl
      exact nonempty (length_eq_zero_iff.mp length)
  refine reads.congr fun value front => ?_
  constructor
  · rintro ⟨_,_,small,⟨nonempty,rfl,rfl⟩,rfl⟩
    exact ⟨nonempty,small,append_nil _⟩
  · rintro ⟨nonempty,small,rfl⟩
    exact ⟨value,[],small,⟨nonempty,rfl,rfl⟩,(append_nil _).symm⟩

namespace RsaIntegers

variable (k : RsaIntegers)

/-- The fields of an `RSAPrivateKey` of two primes with the exponent 65537. -/
def body : Bytes :=
  rsaTwoPrimeVersion ++ (tlv 0x02 k.n ++ (rsaExponent ++ (tlv 0x02 k.d ++ (tlv 0x02 k.p ++
    (tlv 0x02 k.q ++ (tlv 0x02 k.dp ++ (tlv 0x02 k.dq ++ tlv 0x02 k.qinv)))))))

def encode : Bytes := tlv 0x30 k.body

def contents : List Bytes := [k.n,k.d,k.p,k.q,k.dp,k.dq,k.qinv]

structure Fits : Prop where
  contents : ∀ content ∈ k.contents, content ≠ [] ∧ content.length < 65536
  body : k.body.length < 65536

end RsaIntegers

/-- An RSA private key is read from its canonical encoding only. -/
theorem readRsaPrivateKey_eq_some {k : RsaIntegers} :
    readRsaPrivateKey der = some k ↔ k.Fits ∧ der = k.encode := by
  have reads := filling 0x30 (behind rsaTwoPrimeVersion
    (ReadsWhole.bind reads_integer fun n => behind rsaExponent
      (ReadsWhole.bind reads_integer fun d => ReadsWhole.bind reads_integer fun p =>
        ReadsWhole.bind reads_integer fun q => ReadsWhole.bind reads_integer fun dp =>
          ReadsWhole.bind reads_integer fun dq => reads_integer.whole.map fun qinv =>
            (⟨n,d,p,q,dp,dq,qinv⟩ : RsaIntegers))))
  rw [show readRsaPrivateKey der = readWhole _ der from rfl,reads der k]
  constructor
  · rintro ⟨_,small,⟨_,⟨n,_,_,⟨nFilled,nFits,rfl⟩,⟨_,⟨d,_,_,⟨dFilled,dFits,rfl⟩,
      ⟨p,_,_,⟨pFilled,pFits,rfl⟩,⟨q,_,_,⟨qFilled,qFits,rfl⟩,⟨dp,_,_,⟨dpFilled,dpFits,rfl⟩,
      ⟨dq,_,_,⟨dqFilled,dqFits,rfl⟩,⟨qinv,⟨qinvFilled,qinvFits,rfl⟩,rfl⟩,rfl⟩,rfl⟩,rfl⟩,rfl⟩,rfl⟩,
      rfl⟩,rfl⟩,rfl⟩,rfl⟩
    refine ⟨⟨?_,small⟩,rfl⟩
    simp only [RsaIntegers.contents,forall_mem_cons]
    exact ⟨⟨nFilled,nFits⟩,⟨dFilled,dFits⟩,⟨pFilled,pFits⟩,⟨qFilled,qFits⟩,⟨dpFilled,dpFits⟩,
      ⟨dqFilled,dqFits⟩,⟨qinvFilled,qinvFits⟩,fun _ among => absurd among not_mem_nil⟩
  · rintro ⟨fits,rfl⟩
    have each := fits.contents
    simp only [RsaIntegers.contents,forall_mem_cons] at each
    obtain ⟨⟨nFilled,nFits⟩,⟨dFilled,dFits⟩,⟨pFilled,pFits⟩,⟨qFilled,qFits⟩,⟨dpFilled,dpFits⟩,
      ⟨dqFilled,dqFits⟩,⟨qinvFilled,qinvFits⟩,-⟩ := each
    exact ⟨_,fits.body,⟨_,⟨k.n,_,_,⟨nFilled,nFits,rfl⟩,⟨_,⟨k.d,_,_,⟨dFilled,dFits,rfl⟩,
      ⟨k.p,_,_,⟨pFilled,pFits,rfl⟩,⟨k.q,_,_,⟨qFilled,qFits,rfl⟩,⟨k.dp,_,_,⟨dpFilled,dpFits,rfl⟩,
      ⟨k.dq,_,_,⟨dqFilled,dqFits,rfl⟩,⟨k.qinv,⟨qinvFilled,qinvFits,rfl⟩,rfl⟩,rfl⟩,rfl⟩,rfl⟩,rfl⟩,
      rfl⟩,rfl⟩,rfl⟩,rfl⟩,rfl⟩

theorem x509PemReadRsaPkcs8_eq_some {k : RsaIntegers} :
    x509PemReadRsaPkcs8 der = some k ↔
      k.Fits ∧ k.encode.length < 65536 ∧
        (pkcs8Version ++ (rsaAlgorithm ++ tlv 0x04 k.encode)).length < 65536 ∧
        der = pkcs8 rsaAlgorithm k.encode := by
  change (readPkcs8 rsaAlgorithm der).bind _ = _ ↔ _
  rw [Option.bind_eq_some_iff]
  constructor
  · rintro ⟨key,wrapped,read⟩
    obtain ⟨fits,rfl⟩ := readRsaPrivateKey_eq_some.mp read
    exact ⟨fits,readPkcs8_eq_some.mp wrapped⟩
  · rintro ⟨fits,wrapped⟩
    exact ⟨k.encode,readPkcs8_eq_some.mpr wrapped,readRsaPrivateKey_eq_some.mpr ⟨fits,rfl⟩⟩

/-- An ML-DSA-87 private key in the seed form, or in the form that has both. -/
def mldsaPrivateKey (seed : Bytes) : Option Bytes → Bytes
  | none => mldsaSeedForm ++ seed
  | some expanded => tlv 0x30 (mldsaBothSeed ++ (seed ++ (mldsaBothExpanded ++ expanded)))

structure MldsaFields (seed : Bytes) (expanded : Option Bytes) : Prop where
  seed : seed.length = 32
  expanded : ∀ key ∈ expanded, key.length = 4896

/-- An ML-DSA key is its seed, alone or with the expanded key. -/
theorem readMldsaPrivateKey_eq_some :
    readMldsaPrivateKey key = some (seed, expanded) ↔
      MldsaFields seed expanded ∧ key = mldsaPrivateKey seed expanded := by
  have both := filling 0x30 (behind mldsaBothSeed
    (taking 32 fun seed => behind mldsaBothExpanded
      (taking 4896 fun expanded => (reads_pure (seed, some expanded)).whole)))
  have alone := behind mldsaSeedForm (taking 32 fun seed =>
    (reads_pure (seed, (none : Option Bytes))).whole)
  have reads := readsWhole_choice 0x30 both alone
    (by
      rintro _ _ ⟨_,_,_,rfl⟩
      rfl)
    (by
      rintro _ _ ⟨_,_,rfl⟩
      simp [mldsaSeedForm])
  rw [show readMldsaPrivateKey key = readWhole _ key from rfl,reads key (seed, expanded)]
  constructor
  · rintro (⟨_,_,⟨_,⟨taken,_,length,⟨_,⟨whole,_,wholeLength,⟨same,rfl⟩,rfl⟩,rfl⟩,rfl⟩,rfl⟩,
      rfl⟩ | ⟨_,⟨taken,_,length,⟨same,rfl⟩,rfl⟩,rfl⟩)
    · obtain ⟨rfl,rfl⟩ := Prod.mk.inj same
      refine ⟨⟨length,fun found among => ?_⟩,by rw [append_nil]; rfl⟩
      rw [← Option.mem_some_iff.mp among]
      exact wholeLength
    · obtain ⟨rfl,rfl⟩ := Prod.mk.inj same
      refine ⟨⟨length,fun found among => ?_⟩,by rw [append_nil]; rfl⟩
      cases among
  · rintro ⟨fields,rfl⟩
    cases expanded with
    | none =>
      exact .inr ⟨seed,⟨seed,[],fields.seed,⟨rfl,rfl⟩,(append_nil _).symm⟩,rfl⟩
    | some whole =>
      have length := fields.expanded whole rfl
      refine .inl ⟨_,?_,⟨_,⟨seed,_,fields.seed,⟨_,⟨whole,[],length,⟨rfl,rfl⟩,(append_nil _).symm⟩,
        rfl⟩,rfl⟩,rfl⟩,rfl⟩
      have seedHeader : mldsaBothSeed.length = 2 := rfl
      have header : mldsaBothExpanded.length = 4 := rfl
      simp only [length_append,fields.seed,length,seedHeader,header]
      decide

theorem mldsaPrivateKey_length_le
    (fields : MldsaFields seed expanded) : (mldsaPrivateKey seed expanded).length ≤ 4938 := by
  cases expanded with
  | none => simp [mldsaPrivateKey,mldsaSeedForm,fields.seed]
  | some whole =>
    have wrapped := tlv_length_le 0x30 (mldsaBothSeed ++ (seed ++ (mldsaBothExpanded ++ whole)))
    simp only [length_append,fields.seed,fields.expanded whole rfl] at wrapped
    exact wrapped

theorem mldsaContent_length_le (fields : MldsaFields seed expanded) :
    (pkcs8Version ++ (mldsa87Algorithm ++ tlv 0x04 (mldsaPrivateKey seed expanded))).length
      ≤ 4958 := by
  have length := mldsaPrivateKey_length_le fields
  have wrapped := tlv_length_le 0x04 (mldsaPrivateKey seed expanded)
  have version : pkcs8Version.length = 3 := rfl
  have algorithm : mldsa87Algorithm.length = 13 := rfl
  simp only [length_append,version,algorithm]
  omega

theorem x509PemReadMldsa87Pkcs8_eq_some :
    x509PemReadMldsa87Pkcs8 der = some (seed, expanded) ↔
      MldsaFields seed expanded ∧ der = pkcs8 mldsa87Algorithm (mldsaPrivateKey seed expanded) := by
  change (readPkcs8 mldsa87Algorithm der).bind _ = _ ↔ _
  rw [Option.bind_eq_some_iff]
  constructor
  · rintro ⟨key,wrapped,read⟩
    obtain ⟨fields,rfl⟩ := readMldsaPrivateKey_eq_some.mp read
    exact ⟨fields,(readPkcs8_eq_some.mp wrapped).2.2⟩
  · rintro ⟨fields,rfl⟩
    have inside := Nat.lt_of_le_of_lt (mldsaPrivateKey_length_le fields) (by decide : 4938 < 65536)
    have small := Nat.lt_of_le_of_lt (mldsaContent_length_le fields) (by decide : 4958 < 65536)
    exact ⟨_,readPkcs8_eq_some.mpr ⟨inside,small,rfl⟩,readMldsaPrivateKey_eq_some.mpr
      ⟨fields,rfl⟩⟩

end Chapulin
