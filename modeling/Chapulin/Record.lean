/-
The record layer (`record.c`): one direction's keys, sealing and opening.
-/

import Chapulin.Session

namespace Chapulin

open Lib

/-- `rec_body_max`: the longest body a record of an outer type may declare. -/
def recBodyMax (outer : Nat) : Nat := if outer = recAppdata then 0x4001 + aeadTag else 0x4000

def recOverhead : Nat := recHdr + 1 + aeadTag

/-- The suite a direction runs under: a build without AES-GCM keeps no suite
field and runs ChaCha20-Poly1305. -/
def keySuite (b : Build) (suite : Nat) : Nat :=
  if b.aesGcm then suite else suiteChacha20Poly1305Sha256

@[simp] theorem keySuite_idem (b : Build) (suite : Nat) :
    keySuite b (keySuite b suite) = keySuite b suite := by
  unfold keySuite
  split <;> rfl

/-- A record header in the version every record but the first hello carries. -/
def recordHeader (outer body : Nat) : Bytes := byte outer :: 0x03 :: 0x03 :: be16 body

@[simp] theorem recordHeader_length (outer body : Nat) :
    (recordHeader outer body).length = recHdr := rfl

section Directions

variable (e : Env)

def recDirInitSuite (secret : Bytes) (suite : Nat) : RecDir :=
  let suite := keySuite e.build suite
  let hashLen := suiteHashLen e.build suite
  { key := fitTo 32 (e.hkdfExpandLabel hashLen secret "key" [] (suiteKeyLen suite))
    iv := fitTo 12 (e.hkdfExpandLabel hashLen secret "iv" [] 12)
    seq := 0
    suite := suite
    used := [] }

def recNextSecret (secret : Bytes) (suite : Nat) : Bytes :=
  let hashLen := suiteHashLen e.build (keySuite e.build suite)
  e.hkdfExpandLabel hashLen secret "traffic upd" [] hashLen

/-- `rec_dir_update`: the secret and the keys after a KeyUpdate. -/
def recDirUpdate (secret : Bytes) (d : RecDir) : Bytes × RecDir :=
  let next := recNextSecret e secret d.suite
  (next, recDirInitSuite e next d.suite)

def recAead (d : RecDir) : Bool := suiteRunsAesGcm e.build d.suite

def recKeyBytes (d : RecDir) : Bytes :=
  if recAead e d then d.key.take (suiteKeyLen d.suite) else d.key

def recSealBody (d : RecDir) (hdr inner : Bytes) : Bytes :=
  e.aeadSeal (recAead e d) (recKeyBytes e d) (nonceOf d.iv d.seq) hdr inner

def recOpenBody (d : RecDir) (hdr ct : Bytes) : Option Bytes :=
  e.aeadOpen (recAead e d) (recKeyBytes e d) (nonceOf d.iv d.seq) hdr ct

/-- `rec_seal`: the record and the direction after it, none when the source
returns -1. -/
def recSeal (d : RecDir) (type : Nat) (pt : Bytes) (cap : Nat) : Option (Bytes × RecDir) :=
  if d.seq = uint64Max then none
  else if recAead e d && decide (d.seq ≥ recAesGcmRecordsMax) then none
  else
    let body := pt.length + 1 + aeadTag
    if body > 0x4000 + 256 ∨ recHdr + body > cap then none
    else
      let hdr := recordHeader recAppdata body
      some (hdr ++ recSealBody e d hdr (pt ++ [byte type]), d.advance (byte type).toNat)

def stripPadding (inner : Bytes) : Bytes := inner.reverse.dropWhile (· == 0)

/-- `rec_open`: the content and its type when the record opens, and the
direction after the call, whose number has moved even when the inner plaintext
held nothing but padding. -/
def recOpen (d : RecDir) (rec : Bytes) (cap : Nat) : Option (Bytes × Nat) × RecDir :=
  if d.seq = uint64Max then (none, d)
  else if rec.length < recHdr + 1 + aeadTag then (none, d)
  else
    let body := ofBe16 (rec.getD 3 0) (rec.getD 4 0)
    if (rec.getD 0 0).toNat ≠ recAppdata ∨ body ≠ rec.length - recHdr ∨ body > 0x4000 + 256 then
      (none, d)
    else if body - aeadTag > 0x4001 ∨ body - aeadTag > cap then (none, d)
    else
      match recOpenBody e d (rec.take recHdr) (rec.drop recHdr) with
      | none => (none, d)
      | some inner =>
        match stripPadding inner with
        | [] => (none, d.advance 0)
        | type :: content => (some (content.reverse, type.toNat), d.advance type.toNat)

end Directions

/-! ### What a sealed record opens to -/

theorem recordHeader_body (outer body : Nat) (rest : Bytes) (bounded : body < 65536) :
    ofBe16 ((recordHeader outer body ++ rest).getD 3 0)
      ((recordHeader outer body ++ rest).getD 4 0) = body :=
  ofBe16_byte body bounded

/-- All that sealing a record asks for and gives. -/
theorem recSeal_eq_some {e : Env} {d next : RecDir} {type cap : Nat} {pt rec : Bytes} :
    recSeal e d type pt cap = some (rec, next) ↔
      d.seq ≠ uint64Max ∧ (recAead e d = true → d.seq < recAesGcmRecordsMax) ∧
      pt.length + 1 + aeadTag ≤ 0x4000 + 256 ∧ recHdr + (pt.length + 1 + aeadTag) ≤ cap ∧
      rec = recordHeader recAppdata (pt.length + 1 + aeadTag) ++
        recSealBody e d (recordHeader recAppdata (pt.length + 1 + aeadTag)) (pt ++ [byte type]) ∧
      next = d.advance (byte type).toNat := by
  unfold recSeal
  simp only [Option.ite_none_left_eq_some,Option.some.injEq,Prod.mk.injEq,Bool.and_eq_true,
    decide_eq_true_eq,not_and,not_or,Nat.not_le,Nat.not_lt,ge_iff_le,gt_iff_lt,ne_eq,
    @eq_comm _ _ rec,@eq_comm _ _ next,and_assoc]

theorem recSeal_length_pos {e : Env} {d next : RecDir} {type : Nat} {pt rec : Bytes} {cap : Nat}
    (sealed : recSeal e d type pt cap = some (rec, next)) : 0 < rec.length := by
  obtain ⟨_,_,_,_,rfl,_⟩ := recSeal_eq_some.mp sealed
  simp [recordHeader]

theorem recSeal_length {e : Env} (aead : AeadSound e.toCrypto) {d after : RecDir} {type cap : Nat}
    {pt rec : Bytes} (sealed : recSeal e d type pt cap = some (rec, after)) :
    rec.length = pt.length + recOverhead := by
  obtain ⟨_,_,_,_,rfl,_⟩ := recSeal_eq_some.mp sealed
  rw [List.length_append,recordHeader_length,recSealBody,aead.sealLength,List.length_append,
    List.length_singleton]
  unfold recOverhead
  omega

theorem recSeal_takes {e : Env} {d : RecDir} {type cap : Nat} {pt : Bytes}
    (notLast : d.seq ≠ uint64Max) (gcm : recAead e d = true → d.seq < recAesGcmRecordsMax)
    (short : pt.length ≤ 16384) (room : pt.length + recOverhead ≤ cap) :
    ∃ rec, recSeal e d type pt cap = some (rec, d.advance (byte type).toNat) := by
  simp only [recOverhead,recHdr,aeadTag] at room
  exact ⟨_,recSeal_eq_some.mpr ⟨notLast,gcm,by simp only [aeadTag]; omega,
    by simp only [recHdr,aeadTag]; omega,rfl,rfl⟩⟩

end Chapulin
