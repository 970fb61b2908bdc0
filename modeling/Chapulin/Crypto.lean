/-
The primitives the protocol calls, and the key schedule over them
(`hkdf.h`, `keysched.c`, `transcript.h`).

The primitives are a parameter of the whole model: a function for each routine
the source calls, with the failure it can report.  Nothing here says they are
secure.  The few facts a proof needs about them (opening inverts sealing, both
sides of an exchange agree) are named structures, so that a theorem shows
which of them it rests on.
-/

import Chapulin.Build

namespace Chapulin

open Lib List

structure LeafInfo where
  key : Bytes
  /-- The signature scheme the leaf's key signs with. -/
  scheme : Nat
  epochOk : Bool
  epoch : Nat
  /-- `ca_slot`: which configured authority accepted the leaf. -/
  caSlot : Nat
  /-- `path_entries` and `anchor_index`: the path of a `CH_TRUST_WEBPKI` chain. -/
  pathEntries : Nat := 0
  anchorIndex : Nat := 0
  deriving DecidableEq, Repr

def LeafInfo.none : LeafInfo :=
  { key := [], scheme := 0, epochOk := false, epoch := 0, caSlot := 0 }

/-- The routines behind the protocol.  A hash length names the hash (32 for
SHA-256, 48 for SHA-384) and a Boolean names the AEAD (true for AES-GCM). -/
structure Crypto where
  hash : Nat → Bytes → Bytes
  hmac : Nat → Bytes → Bytes → Bytes
  hkdfExpandLabel : Nat → Bytes → String → Bytes → Nat → Bytes
  aeadSeal : Bool → Bytes → Bytes → Bytes → Bytes → Bytes
  aeadOpen : Bool → Bytes → Bytes → Bytes → Bytes → Option Bytes
  /-- The header protection mask of a key and a sample. -/
  hpMask : Bool → Bytes → Bytes → Bytes
  x25519Base : Bytes → Bytes
  x25519 : Bytes → Bytes → Option Bytes
  /-- The encapsulation key a seed expands to, by module rank. -/
  mlkemEk : Nat → Bytes → Bytes
  mlkemDecaps : Nat → Bytes → Bytes → Bytes
  mlkemEncapsDerand : Nat → Bytes → Bytes → Option (Bytes × Bytes)
  p256EcdhKeygen : Bytes → Option (Bytes × Bytes)
  p256EcdhPointValid : Bytes → Bool
  p256Ecdh : Bytes → Bytes → Option Bytes
  /-- Scheme, public key, signed content, signature. -/
  verify : Nat → Bytes → Bytes → Bytes → Bool
  /-- Scheme, private key, signed content, drawn bytes. -/
  sign : Nat → Bytes → Bytes → Bytes → Option Bytes

/-- Opening inverts sealing, and a sealed text is 16 bytes longer than its plaintext. -/
structure AeadSound (c : Crypto) : Prop where
  opens : ∀ gcm key nonce aad pt,
    c.aeadOpen gcm key nonce aad (c.aeadSeal gcm key nonce aad pt) = some pt
  sealLength : ∀ gcm key nonce aad pt,
    (c.aeadSeal gcm key nonce aad pt).length = pt.length + aeadTag

structure AeadExact (c : Crypto) : Prop where
  opens : ∀ gcm key nonce aad ct pt,
    c.aeadOpen gcm key nonce aad ct = some pt ↔ ct = c.aeadSeal gcm key nonce aad pt

/-- Routines that stand in for the primitives where a concrete run is evaluated:
every digest and every derived byte is a constant, and a sealed text ends in the
first bytes of its key. -/
def Crypto.sample : Crypto where
  hash hashLen _ := replicate hashLen 1
  hmac hashLen _ _ := replicate hashLen 2
  hkdfExpandLabel _ _ _ _ len := replicate len 3
  aeadSeal _ key _ _ pt := pt ++ fitTo aeadTag key
  aeadOpen _ key _ _ ct :=
    if aeadTag ≤ ct.length ∧ ct.drop (ct.length - aeadTag) = fitTo aeadTag key then
      some (ct.take (ct.length - aeadTag))
    else none
  hpMask _ _ _ := zeros 5
  x25519Base _ := replicate 32 4
  x25519 _ _ := some (replicate 32 5)
  mlkemEk _ _ := []
  mlkemDecaps _ _ _ := []
  mlkemEncapsDerand _ _ _ := none
  p256EcdhKeygen _ := none
  p256EcdhPointValid _ := false
  p256Ecdh _ _ := none
  verify _ _ _ _ := true
  sign _ _ _ _ := some (replicate 70 6)

theorem Crypto.sample_exact : AeadExact Crypto.sample where
  opens gcm key nonce aad ct pt := by
    have tag : (fitTo aeadTag key).length = aeadTag := fitTo_length _ _
    simp only [Crypto.sample]
    constructor
    · intro opened
      split at opened
      · rename_i closed
        cases opened
        rw [← closed.2,take_append_drop]
      · cases opened
    · rintro rfl
      have size : (pt ++ fitTo aeadTag key).length - aeadTag = pt.length := by
        rw [length_append,tag,Nat.add_sub_cancel]
      rw [if_pos ⟨by rw [length_append,tag]; exact Nat.le_add_left _ _,by
        rw [size,drop_left]⟩,size,take_left]

theorem Crypto.sample_sound : AeadSound Crypto.sample where
  opens gcm key nonce aad pt := (sample_exact.opens gcm key nonce aad _ pt).mpr rfl
  sealLength gcm key nonce aad pt := by
    simp only [sample,length_append,fitTo_length]

/-- `quic_nonce`, and `nonce_of` of the record layer: the number in big-endian
order over the last eight bytes of the IV. -/
def nonceOf (iv : Bytes) (number : Nat) : Bytes := xorAt iv 4 (be64 number)

section KeySchedule

variable (c : Crypto)

def hkdfExtract (hashLen : Nat) (salt ikm : Bytes) : Bytes := c.hmac hashLen salt ikm

def hkdfDeriveSecret (hashLen : Nat) (secret : Bytes) (label : String) (transcript : Bytes) :
    Bytes :=
  c.hkdfExpandLabel hashLen secret label transcript hashLen

/-- `empty_hash`: the digest of no bytes, a table in the source. -/
def emptyHash (hashLen : Nat) : Bytes := c.hash hashLen []

def ksEarly (hashLen : Nat) (psk : Bytes) (resumption : Bool) : Bytes × Bytes :=
  let early := hkdfExtract c hashLen (zeros hashLen) psk
  (early, hkdfDeriveSecret c hashLen early (if resumption then "res binder" else "ext binder")
    (emptyHash c hashLen))

def ksVerifyData (hashLen : Nat) (key transcript : Bytes) : Bytes :=
  let finishedKey := c.hkdfExpandLabel hashLen key "finished" [] hashLen
  c.hmac hashLen finishedKey transcript

/-- What `ks_handshake` and `ks_master` write: the stage's secret and the two
traffic secrets derived from it, the client's first. -/
structure StageSecrets where
  secret : Bytes
  client : Bytes
  server : Bytes
  deriving DecidableEq, Repr

def ksHandshake (hashLen : Nat) (early ecdhe transcript : Bytes) : StageSecrets :=
  let derived := hkdfDeriveSecret c hashLen early "derived" (emptyHash c hashLen)
  let handshakeSecret := hkdfExtract c hashLen derived ecdhe
  { secret := handshakeSecret
    client := hkdfDeriveSecret c hashLen handshakeSecret "c hs traffic" transcript
    server := hkdfDeriveSecret c hashLen handshakeSecret "s hs traffic" transcript }

def ksMaster (hashLen : Nat) (handshakeSecret transcript : Bytes) : StageSecrets :=
  let derived := hkdfDeriveSecret c hashLen handshakeSecret "derived" (emptyHash c hashLen)
  let master := hkdfExtract c hashLen derived (zeros hashLen)
  { secret := master
    client := hkdfDeriveSecret c hashLen master "c ap traffic" transcript
    server := hkdfDeriveSecret c hashLen master "s ap traffic" transcript }

def ksResMaster (hashLen : Nat) (master transcript : Bytes) : Bytes :=
  hkdfDeriveSecret c hashLen master "res master" transcript

def ksResPsk (hashLen : Nat) (resMaster nonce : Bytes) : Bytes :=
  c.hkdfExpandLabel hashLen resMaster "resumption" nonce hashLen

def ksExpMaster (hashLen : Nat) (master transcript : Bytes) : Bytes :=
  hkdfDeriveSecret c hashLen master "exp master" transcript

end KeySchedule

/-! ### The running transcript -/

/-- `ch_transcript`: a running hash is the bytes it has absorbed since its last
start, one string for each hash because the server stops feeding the hash the
negotiated suite does not use. -/
structure Transcript where
  sha256 : Bytes
  sha384 : Bytes
  deriving DecidableEq, Repr

def transcriptInit : Transcript := { sha256 := [], sha384 := [] }

def transcriptUpdate (t : Transcript) (msg : Bytes) : Transcript :=
  { sha256 := t.sha256 ++ msg, sha384 := t.sha384 ++ msg }

def transcriptUpdateSelected (t : Transcript) (hashLen : Nat) (msg : Bytes) : Transcript :=
  if hashLen = sha384Len then { t with sha384 := t.sha384 ++ msg }
  else { t with sha256 := t.sha256 ++ msg }

def Transcript.under (t : Transcript) (hashLen : Nat) : Bytes :=
  if hashLen = sha384Len then t.sha384 else t.sha256

def transcriptHashAfter (c : Crypto) (t : Transcript) (hashLen : Nat) (after : Bytes) : Bytes :=
  c.hash hashLen (t.under hashLen ++ after)

end Chapulin
