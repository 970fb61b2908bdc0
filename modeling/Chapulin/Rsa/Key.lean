/-
The RSA private key a server signs with, and the keys its two signers admit
(`rsa_key.h`, `rsa_sign.h`, `rsa_sign64.c`).
-/

import Chapulin.Build
import Chapulin.Lib.Der

namespace Chapulin

open Lib Lib.Der

def Build.modulusMax (b : Build) : Nat := if b.webpki then 512 else 384

theorem Build.modulusMax_le (b : Build) : b.modulusMax ≤ 512 := by
  unfold Build.modulusMax
  split
  · exact Nat.le_refl _
  · decide

/-- `ch_rsa_priv`: arrays of the bound's size, each with an integer in its first bytes.  The key of
a device object ends at `nLen`. -/
structure RsaPriv where
  n : Bytes
  d : Bytes
  nLen : Nat
  p : Bytes
  q : Bytes
  dp : Bytes
  dq : Bytes
  qinv : Bytes
  deriving DecidableEq, Repr

namespace RsaPriv

variable (k : RsaPriv)

def modulus : Bytes := k.n.take k.nLen

def exponent : Bytes := k.d.take k.nLen

def half : Nat := k.nLen / 2

def clearCrt (size : Nat) : RsaPriv :=
  { k with
    p := zeros (size / 2)
    q := zeros (size / 2)
    dp := zeros (size / 2)
    dq := zeros (size / 2)
    qinv := zeros (size / 2) }

def wiped (size : Nat) : RsaPriv :=
  { n := zeros size
    d := zeros size
    nLen := 0
    p := zeros (size / 2)
    q := zeros (size / 2)
    dp := zeros (size / 2)
    dq := zeros (size / 2)
    qinv := zeros (size / 2) }

end RsaPriv

def rsaPssSignKeyOk (b : Build) (k : RsaPriv) : Bool :=
  decide (256 ≤ k.nLen ∧ k.nLen ≤ b.modulusMax ∧ k.nLen % 8 = 0) &&
    decide ((k.n.getD (k.nLen - 1) 0).toNat % 2 = 1) && decide (128 ≤ (k.n.getD 0 0).toNat)

/-- `rsa_sign64_key_ok`: the product of the two halves is compared with the modulus whole. -/
def rsaSign64KeyOk (b : Build) (k : RsaPriv) : Bool :=
  rsaPssSignKeyOk b k &&
    ofBytes (k.p.take k.half) * ofBytes (k.q.take k.half) == ofBytes k.modulus

end Chapulin
