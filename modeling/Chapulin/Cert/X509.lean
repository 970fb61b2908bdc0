/-
The certificate walker of a pinned certificate authority (`x509.c`): one leaf, or
a leaf and the one intermediate that signed it, up to one of two pinned keys.

Every certificate is read field by field, each container to its last byte.
-/

import Chapulin.Cert.Judge

namespace Chapulin

open Lib

structure X509Build where
  pin : PinAlg
  x509Max : Nat
  bounds : 512 ≤ x509Max ∧ x509Max ≤ 0x3fe0

structure CertCrypto where
  /-- By digest length, 32 or 48. -/
  hash : Nat → Bytes → Bytes
  rsaPssVerify : Bytes → Bytes → Bytes → Bool
  rsaPkcs1Verify : Bytes → Bytes → Bytes → Bool
  p256EcdsaVerify : Bytes → Bytes → Bytes → Bool
  p384EcdsaVerify : Bytes → Bytes → Bytes → Bool
  /-- Key, message and signature. -/
  mldsa87Verify : Bytes → Bytes → Bytes → Bool

def versionV3 : Bytes := [0xa0,0x03,0x02,0x01,0x02]

def pinnedSigalg : PinAlg → Bytes
  | .ecdsa => [0x30,0x0a,0x06,0x08,0x2a,0x86,0x48,0xce,0x3d,0x04,0x03,0x02]
  | .mldsa => [0x30,0x0b,0x06,0x09,0x60,0x86,0x48,0x01,0x65,0x03,0x04,0x03,0x13]
  | .rsa => [0x30,0x41,0x06,0x09,0x2a,0x86,0x48,0x86,0xf7,0x0d,0x01,0x01,0x0a,0x30,0x34,0xa0,0x0f,
      0x30,0x0d,0x06,0x09,0x60,0x86,0x48,0x01,0x65,0x03,0x04,0x02,0x01,0x05,0x00,0xa1,0x1c,0x30,
      0x1a,0x06,0x09,0x2a,0x86,0x48,0x86,0xf7,0x0d,0x01,0x01,0x08,0x30,0x0d,0x06,0x09,0x60,0x86,
      0x48,0x01,0x65,0x03,0x04,0x02,0x01,0x05,0x00,0xa2,0x03,0x02,0x01,0x20]

def oidKeyUsage : Bytes := [0x55,0x1d,0x0f]

def oidExtKeyUsage : Bytes := [0x55,0x1d,0x25]

def oidBasicConstraints : Bytes := [0x55,0x1d,0x13]

def ekuServerAuth : Bytes :=
  [0x30,0x0a,0x06,0x08,0x2b,0x06,0x01,0x05,0x05,0x07,0x03,0x01]

def bcNotCa : Bytes := [0x30,0x00]

def bcCaPathlen0 : Bytes := [0x30,0x06,0x01,0x01,0xff,0x02,0x01,0x00]

def x509ExtCountMax : Nat := 8

def x509ExtTlvMax : Nat := 256

/-- `check_extension_value`: the bit of a known extension (1, 2 or 4), 0 for an unknown
one, none (`-1`) for a value outside the profile. -/
def checkExtensionValue (oid value : Bytes) (isCa : Bool) : Option Nat :=
  if oid = oidKeyUsage then
    if x509ReadKeyusage value (if isCa then 0x04 else 0x80) then some 1 else none
  else if oid = oidExtKeyUsage then
    if !isCa && decide (value = ekuServerAuth) then some 2 else none
  else if oid = oidBasicConstraints then
    if value = (if isCa then bcCaPathlen0 else bcNotCa) then some 4 else none
  else some 0

/-- `parse_one_extension`: the bits seen so far with this one's. -/
def parseOneExtension (isCa : Bool) (seen : Nat) : CertReader Nat := do
  let ext ← quietly (x509ReadExtension x509ExtTlvMax)
  match checkExtensionValue ext.oid ext.value isCa with
  | none => fun _ => offProfile
  | some bit =>
    if bit = 0 then
      if !ext.critical then pure seen else fun _ => offProfile
    else if seen &&& bit ≠ 0 then fun _ => offProfile
    else pure (seen ||| bit)

/-- The loop of `parse_extensions`; `room` is what the count cap still admits. -/
def parseExtensionList (isCa : Bool) (room seen : Nat) : CertReader Nat := fun w =>
  if rbLeft w = 0 then Proc.ret (seen, w)
  else
    match room with
    | 0 => offProfile
    | room + 1 => do
        let (seen, w) ← parseOneExtension isCa seen w
        parseExtensionList isCa room seen w

def extensionsNeeded (isCa : Bool) : Nat := if isCa then 1 ||| 4 else 1 ||| 2

/-- `Extensions`, filling its wrapper and not empty. -/
def readExtensionsHead : DerReader Unit := do
  readFilling 0x30
  fun w => if rbLeft w = 0 then none else some ((), w)

/-- `parse_extensions` on what the wrapper holds. -/
def judgeExtensionList (isCa : Bool) (wrap : Bytes) : Judge Unit := do
  let (_, w) ← quietly readExtensionsHead (rbInit wrap)
  let (seen, _) ← parseExtensionList isCa x509ExtCountMax 0 w
  if seen &&& extensionsNeeded isCa ≠ extensionsNeeded isCa then offProfile else pure ()

def x509ParseExtensions (isCa : Bool) : CertReader Unit := do
  let wrap ← quietly (readElement 0xa3)
  judgeExtensionList isCa wrap

def readNotBefore (leaf : Bool) : DerReader (Option Nat) :=
  if leaf then x509ReadTimeEpoch
  else do
    x509ReadTime
    pure none

/-- `read_validity`; the epoch is read where there is leaf information to write it to. -/
def readValidity (leaf : Bool) : DerReader (Option Nat) := do
  let validity ← readElement 0x30
  readWhole (do
    let epoch ← readNotBefore leaf
    x509ReadTime
    pure epoch) validity

def parseTbs (pin : PinAlg) (isCa leaf : Bool) (tbs : Bytes) : Judge (Bytes × Option Nat) :=
  judgeWhole (do
    quietly (x509ReadExact versionV3)
    quietly x509ReadSerial
    orOffProfile (x509ReadExact (pinnedSigalg pin))
    quietly (x509Skip 0x30)
    let epoch ← quietly (readValidity leaf)
    quietly (x509Skip 0x30)
    let key ← orOffProfile (x509ReadSpki pin)
    x509ParseExtensions isCa
    pure (key, epoch)) tbs

structure ParsedCertificate where
  key : Bytes
  epoch : Option Nat
  /-- `signed_part`: the digest of the signed bytes, the bytes themselves under ML-DSA. -/
  signedPart : Bytes
  sig : Bytes
  deriving DecidableEq, Repr

section Walk

variable (b : X509Build) (c : CertCrypto)

/-- The TBSCertificate: its bytes with the header, as the ML-DSA build reads them a
second time from a copy of the buffer, and its content. -/
def readTbs : DerReader (Bytes × Bytes) := fun atTbs =>
  match x509ReadHeader 0x30 atTbs with
  | none => none
  | some (tbsLen, r) =>
    match rbTake tbsLen r with
    | none => none
    | some (tbs, r) => some ((atTbs.rest.take (rbLeft atTbs - rbLeft r), tbs), r)

/-- What the signature covers.  ML-DSA takes the bytes read a second time; the others
hash a header written anew and the content. -/
def signedPartOf (tbs : Bytes × Bytes) : Bytes :=
  match b.pin with
  | .mldsa => tbs.1
  | _ => c.hash sha256Len (x509EmitHeader 0x30 tbs.2.length ++ tbs.2)

def parseCertificate (isCa leaf : Bool) (cert : Bytes) : Judge ParsedCertificate :=
  judgeWhole (do
    quietly (readFilling 0x30)
    let tbs ← quietly readTbs
    let fields ← (parseTbs b.pin isCa leaf tbs.2 : Judge _)
    orOffProfile (x509ReadExact (pinnedSigalg b.pin))
    let sig ← quietly x509ReadBitstring
    if sig.length = 0 then fun _ => Proc.stop .eproto
    else
      pure { key := fields.1, epoch := fields.2, signedPart := signedPartOf b c tbs, sig := sig })
    cert

def verifyOne (key signedPart sig : Bytes) : Bool :=
  match b.pin with
  | .ecdsa => key.length == 64 && c.p256EcdsaVerify key signedPart sig
  | .mldsa => c.mldsa87Verify key signedPart sig
  | .rsa => key.length == sig.length && c.rsaPssVerify key signedPart sig

def readEntry : DerReader Bytes := readEntryUpTo b.x509Max

/-- What the pins have to vouch for, and the intermediate's key when there is one. -/
structure ChainHead where
  signedPart : Bytes
  sig : Bytes
  intKey : Option Bytes
  deriving DecidableEq, Repr

def readIntermediate (r : Rbuf) : Judge ChainHead := do
  let (inter, r) ← quietly (readEntry b) r
  if rbLeft r ≠ 0 then offProfile
  else
    let parsed ← parseCertificate b c true false inter
    pure { signedPart := parsed.signedPart, sig := parsed.sig, intKey := some parsed.key }

def pinSlot (first second : Option Bytes) (head : ChainHead) : Nat :=
  match first with
  | none => 0
  | some key =>
    if verifyOne b c key head.signedPart head.sig then 1
    else
      match second with
      | none => 0
      | some key => if verifyOne b c key head.signedPart head.sig then 2 else 0

structure X509LeafInfo where
  key : Bytes
  caSlot : Nat
  epoch : Nat
  epochOk : Bool
  deriving DecidableEq, Repr

def findHead (parsed : ParsedCertificate) (r : Rbuf) : Judge ChainHead :=
  if rbLeft r ≠ 0 then readIntermediate b c r
  else pure { signedPart := parsed.signedPart, sig := parsed.sig, intKey := none }

/-- The signatures: a pin vouches for the head, and the intermediate for the leaf. -/
def judgeSignatures (first second : Option Bytes) (parsed : ParsedCertificate) (head : ChainHead) :
    Judge X509LeafInfo :=
  let slot := pinSlot b c first second head
  if slot = 0 then refuseWith .eauth Alert.unknownCa
  else if head.intKey.any fun key => !verifyOne b c key parsed.signedPart parsed.sig then
    refuseWith .eauth Alert.badCertificate
  else
    pure
      { key := parsed.key
        caSlot := slot
        epoch := parsed.epoch.getD 0
        epochOk := parsed.epoch.isSome }

def x509VerifyLeaf (list : Bytes) (first second : Option Bytes) : Judge X509LeafInfo := do
  let (leaf, r) ← quietly (readEntry b) (rbInit list)
  let parsed ← parseCertificate b c false true leaf
  let head ← findHead b c parsed r
  judgeSignatures b c first second parsed head

end Walk

end Chapulin
