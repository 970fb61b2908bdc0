/-
QUIC packet keys (`quic_keys.c`, `quic_version.h`).

A key set is derived from a traffic secret by the labels of the negotiated
version.  An update replaces the secret by its "ku" successor and derives the
set again; header protection keys have no update.
-/

import Chapulin.Record

namespace Chapulin

open Lib

def quicVersion1 : Nat := 0x00000001
def quicVersion2 : Nat := 0x6B3343CF

def quicVersionDerived (version : Nat) : Bool :=
  version == quicVersion1 || version == quicVersion2

structure QuicLabels where
  key : String
  iv : String
  hp : String
  ku : String

/-- `quic_version_labels`; every version but 2 takes the first row. -/
def quicVersionLabels (version : Nat) : QuicLabels :=
  if version = quicVersion2 then
    { key := "quicv2 key", iv := "quicv2 iv", hp := "quicv2 hp", ku := "quicv2 ku" }
  else
    { key := "quic key", iv := "quic iv", hp := "quic hp", ku := "quic ku" }

structure QuicKeys where
  key : Bytes
  iv : Bytes
  suite : Nat
  sealedCount : Nat
  deriving DecidableEq, Repr

def QuicKeys.wiped : QuicKeys := { key := zeros 32, iv := zeros 12, suite := 0, sealedCount := 0 }

structure QuicHpKey where
  key : Bytes
  suite : Nat
  deriving DecidableEq, Repr

def QuicHpKey.wiped : QuicHpKey := { key := zeros 32, suite := 0 }

section Derivation

variable (e : Env)

def quicKeysInitSuite (version : Nat) (secret : Bytes) (suite : Nat) : QuicKeys :=
  let suite := keySuite e.build suite
  let hashLen := suiteHashLen e.build suite
  let labels := quicVersionLabels version
  { key := fitTo 32 (e.hkdfExpandLabel hashLen secret labels.key [] (suiteKeyLen suite))
    iv := fitTo 12 (e.hkdfExpandLabel hashLen secret labels.iv [] 12)
    suite := suite
    sealedCount := 0 }

def quicHpKeyInitSuite (version : Nat) (secret : Bytes) (suite : Nat) : QuicHpKey :=
  let suite := keySuite e.build suite
  { key := fitTo 32 (e.hkdfExpandLabel (suiteHashLen e.build suite) secret
      (quicVersionLabels version).hp [] (suiteKeyLen suite))
    suite := suite }

/-- The secret that follows `secret` in a direction's key update chain. -/
def quicNextSecret (version suite : Nat) (secret : Bytes) : Bytes :=
  let hashLen := suiteHashLen e.build (keySuite e.build suite)
  e.hkdfExpandLabel hashLen secret (quicVersionLabels version).ku [] hashLen

/-- `quic_keys_update`: the secret and the set after one update. -/
def quicKeysUpdate (version : Nat) (secret : Bytes) (k : QuicKeys) : Bytes × QuicKeys :=
  let next := quicNextSecret e version k.suite secret
  (next, quicKeysInitSuite e version next k.suite)

end Derivation

@[simp] theorem quicKeysInitSuite_keySuite (e : Env) (version : Nat) (secret : Bytes)
    (suite : Nat) :
    quicKeysInitSuite e version secret (keySuite e.build suite) =
      quicKeysInitSuite e version secret suite := by
  simp [quicKeysInitSuite]

@[simp] theorem quicNextSecret_keySuite (e : Env) (version suite : Nat) (secret : Bytes) :
    quicNextSecret e version (keySuite e.build suite) secret =
      quicNextSecret e version suite secret := by
  simp [quicNextSecret]

theorem quicKeysUpdate_of_suite {e : Env} {version suite : Nat} {secret : Bytes} {k : QuicKeys}
    (derived : k.suite = keySuite e.build suite) :
    quicKeysUpdate e version secret k =
      (quicNextSecret e version suite secret,
        quicKeysInitSuite e version (quicNextSecret e version suite secret) suite) := by
  simp [quicKeysUpdate,derived]

end Chapulin
