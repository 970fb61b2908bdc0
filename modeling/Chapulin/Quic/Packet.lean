/-
QUIC packet protection (`quic_packet.c`).

The source picks bytes and key sets with masks instead of branches; the masks
are kept, on the machine words they are computed on.
-/

import Chapulin.Quic.Keys

namespace Chapulin

open Lib List

def quicPnMaxLen : Nat := 4
def quicHpSampleLen : Nat := 16
def quicIntegrityLimit : Nat := 2 ^ 36
def quicConfidentialityLimit : Nat := 2 ^ 23

def levelInitial : Nat := 0
def levelHandshake : Nat := 1
def levelApplication : Nat := 2

def quicKeyPrevious : UInt8 := 0
def quicKeyCurrent : UInt8 := 1
def quicKeyNext : UInt8 := 2

def belowMask (a b : UInt64) : UInt64 :=
  let borrow := ((~~~a &&& b) ||| ((~~~a ||| b) &&& (a - b))) >>> 63
  ~~~(borrow - 1)

def byteInUse (i pnLen : UInt32) : UInt32 :=
  let borrow := (i - pnLen) >>> 31
  ~~~(borrow - 1)

def setInUse (name selected : UInt8) : UInt8 := if name = selected then 0xff else 0

def firstByteBits (level : Nat) : UInt8 := if level = levelApplication then 0x1f else 0x0f

def maskPnField (pkt : Bytes) (pnOff pnLen : Nat) (mask : Bytes) : Bytes :=
  xorAt pkt pnOff ((range quicPnMaxLen).map fun i =>
    (mask.getD (1 + i) 0) &&& (byteInUse (UInt32.ofNat i) (UInt32.ofNat pnLen)).toUInt8)

/-- `quic_header_protect`, and the first half of `quic_header_unprotect`. -/
def quicMaskFirstByte (pkt : Bytes) (level : Nat) (mask : Bytes) : Bytes :=
  xorAt pkt 0 [mask.getD 0 0 &&& firstByteBits level]

def quicHeaderProtect (pkt : Bytes) (pnOff pnLen level : Nat) (mask : Bytes) : Bytes :=
  maskPnField (quicMaskFirstByte pkt level mask) pnOff pnLen mask

/-- `quic_header_unprotect`: the packet with its header in the clear and the
length of its packet number. -/
def quicHeaderUnprotect (pkt : Bytes) (pnOff level : Nat) (mask : Bytes) : Bytes × Nat :=
  let pkt := quicMaskFirstByte pkt level mask
  let pnLen := (pkt.getD 0 0 &&& 0x03).toNat + 1
  (maskPnField pkt pnOff pnLen mask, pnLen)

def quicPnRead (pkt : Bytes) (pnOff pnLen : Nat) : UInt64 :=
  ((range quicPnMaxLen).foldl (fun (value : UInt32) i =>
    value ^^^ ((value ^^^ ((value <<< 8) ||| (pkt.getD (pnOff + i) 0).toUInt32)) &&&
      byteInUse (UInt32.ofNat i) (UInt32.ofNat pnLen))) 0).toUInt64

def quicPnDecode (largestPn truncatedPn : UInt64) (pnLen : Nat) : UInt64 :=
  let inUse := fun (i : UInt32) => byteInUse i (UInt32.ofNat pnLen)
  let pnMask : UInt64 := ((inUse 0 &&& 0xff) ||| (inUse 1 &&& 0xff00) |||
    (inUse 2 &&& 0xff0000) ||| (inUse 3 &&& 0xff000000)).toUInt64
  let expectedPn := largestPn + 1
  let pnWin := pnMask + 1
  let pnHwin := pnWin >>> 1
  let candidatePn := (expectedPn &&& ~~~pnMask) ||| truncatedPn
  let wrappedUp := ~~~(belowMask expectedPn (candidatePn + pnHwin)) &&&
    belowMask candidatePn (((1 : UInt64) <<< 62) - pnWin)
  let wrappedDown := belowMask (expectedPn + pnHwin) candidatePn &&&
    ~~~(belowMask candidatePn pnWin)
  candidatePn + (pnWin &&& wrappedUp) - (pnWin &&& wrappedDown)

def quicKeySetSelect (keyPhase packetKeyPhase : UInt8) (pn currentPhaseLowestPn : UInt64) : UInt8 :=
  let differs := (keyPhase.toUInt32 ^^^ packetKeyPhase.toUInt32) &&& 1
  let samePhase := differs - 1
  let below := (belowMask pn currentPhaseLowestPn).toUInt32
  let otherPhase := (quicKeyPrevious.toUInt32 &&& below) ||| (quicKeyNext.toUInt32 &&& ~~~below)
  ((quicKeyCurrent.toUInt32 &&& samePhase) ||| (otherPhase &&& ~~~samePhase)).toUInt8

structure QuicKeySets where
  previous : QuicKeys
  current : QuicKeys
  next : QuicKeys
  deriving DecidableEq, Repr

def orMasked (acc source : Bytes) (take : UInt8) : Bytes :=
  zipWith (fun a b => a ||| (b &&& take)) acc source

/-- `quic_keys_select`: every set is read, and the masks leave the bytes of the
selected one. -/
def quicKeysSelect (sets : QuicKeySets) (selected : UInt8) : QuicKeys :=
  let gather := fun (field : QuicKeys → Bytes) (width : Nat) =>
    [(quicKeyPrevious, sets.previous),(quicKeyCurrent, sets.current),(quicKeyNext, sets.next)].foldl
        (fun acc named => orMasked acc (field named.2) (setInUse named.1 selected)) (zeros width)
  { key := gather QuicKeys.key 32
    iv := gather QuicKeys.iv 12
    suite := sets.current.suite
    sealedCount := 0 }

/-- The set a name stands for; names above the last stand for no set of the source. -/
def QuicKeySets.named (sets : QuicKeySets) (name : UInt8) : QuicKeys :=
  if name = quicKeyPrevious then sets.previous
  else if name = quicKeyCurrent then sets.current
  else sets.next

def QuicKeys.Sized (k : QuicKeys) : Prop := k.key.length = 32 ∧ k.iv.length = 12

/-- Key storage of the sizes `quic_keys` declares. -/
def QuicKeySets.Sized (sets : QuicKeySets) : Prop :=
  sets.previous.Sized ∧ sets.current.Sized ∧ sets.next.Sized

theorem orMasked_zero {acc source : Bytes} (width : acc.length = source.length) :
    orMasked acc source 0 = acc := by
  induction acc generalizing source with
  | nil => rfl
  | cons octet acc ih =>
    cases source with
    | nil => cases width
    | cons other source =>
      have tail := ih (Nat.succ.inj width)
      simp only [orMasked,zipWith_cons_cons] at tail ⊢
      rw [tail,UInt8.and_zero,UInt8.or_zero]

theorem orMasked_zeros (source : Bytes) : orMasked (zeros source.length) source 0xff = source := by
  induction source with
  | nil => rfl
  | cons octet source ih =>
    simp only [orMasked,zeros,length_cons,replicate_succ,zipWith_cons_cons] at ih ⊢
    rw [ih,UInt8.zero_or]
    congr 1
    exact UInt8.and_neg_one

theorem QuicKeySets.named_previous (sets : QuicKeySets) :
    sets.named quicKeyPrevious = sets.previous := rfl

/-- The masks let through the named one of the three key sets. -/
theorem orMasked_selects {previous current next : Bytes} {width : Nat}
    (sized : previous.length = width ∧ current.length = width ∧ next.length = width)
    {name : UInt8} (known : name ≤ quicKeyNext) :
    orMasked (orMasked (orMasked (zeros width) previous (setInUse quicKeyPrevious name)) current
        (setInUse quicKeyCurrent name)) next (setInUse quicKeyNext name) =
      if name = quicKeyPrevious then previous else if name = quicKeyCurrent then current
      else next := by
  obtain ⟨first,second,third⟩ := sized
  have whole : ∀ {source : Bytes}, source.length = width →
      orMasked (zeros width) source 0xff = source := by
    rintro source rfl
    exact orMasked_zeros source
  have absent : ∀ {source : Bytes}, source.length = width →
      orMasked (zeros width) source 0 = zeros width := by
    intro source width
    exact orMasked_zero ((zeros_length _).trans width.symm)
  have cases : name = quicKeyPrevious ∨ name = quicKeyCurrent ∨ name = quicKeyNext := by
    have bound : name.toNat ≤ 2 := known
    rcases Nat.lt_or_ge name.toNat 1 with zero | filled
    · exact .inl (UInt8.toNat_inj.mp (Nat.lt_one_iff.mp zero))
    · rcases Nat.lt_or_ge name.toNat 2 with one | two
      · exact .inr (.inl (UInt8.toNat_inj.mp (Nat.le_antisymm (Nat.le_of_lt_succ one) filled)))
      · exact .inr (.inr (UInt8.toNat_inj.mp (Nat.le_antisymm bound two)))
  rcases cases with rfl | rfl | rfl
  · rw [if_pos rfl]
    change orMasked (orMasked (orMasked (zeros width) previous 0xff) current 0) next 0 = previous
    rw [whole first,orMasked_zero (first.trans second.symm),orMasked_zero (first.trans third.symm)]
  · rw [if_neg (by decide),if_pos rfl]
    change orMasked (orMasked (orMasked (zeros width) previous 0) current 0xff) next 0 = current
    rw [absent first,whole second,orMasked_zero (second.trans third.symm)]
  · rw [if_neg (by decide),if_neg (by decide)]
    change orMasked (orMasked (orMasked (zeros width) previous 0) current 0) next 0xff = next
    rw [absent first,absent second,whole third]

theorem quicKeysSelect_named {sets : QuicKeySets} (sized : sets.Sized) {name : UInt8}
    (known : name ≤ quicKeyNext) :
    quicKeysSelect sets name =
      { key := (sets.named name).key, iv := (sets.named name).iv
        suite := sets.current.suite, sealedCount := 0 } := by
  obtain ⟨⟨pk,pi⟩,⟨ck,ci⟩,nk,ni⟩ := sized
  have key := orMasked_selects ⟨pk,ck,nk⟩ known
  have iv := orMasked_selects ⟨pi,ci,ni⟩ known
  simp only [quicKeysSelect,foldl_cons,foldl_nil,key,iv,QuicKeySets.named,apply_ite QuicKeys.key,
    apply_ite QuicKeys.iv]

section Protection

variable (e : Env)

def quicAead (suite : Nat) : Bool := suiteRunsAesGcm e.build suite

def quicKeyBytes (k : QuicKeys) : Bytes :=
  if quicAead e k.suite then k.key.take (suiteKeyLen k.suite) else k.key

def quicHpMask (h : QuicHpKey) (sample : Bytes) : Bytes :=
  e.hpMask (quicAead e h.suite)
    (if quicAead e h.suite then h.key.take (suiteKeyLen h.suite) else h.key) sample

/-- `seal_body`; an AES-GCM set counts the packets it sealed. -/
def quicSealBody (k : QuicKeys) (nonce aad pt : Bytes) : Bytes × QuicKeys :=
  (e.aeadSeal (quicAead e k.suite) (quicKeyBytes e k) nonce aad pt,
    if quicAead e k.suite then { k with sealedCount := k.sealedCount + 1 } else k)

def quicOpenBody (k : QuicKeys) (nonce aad ct : Bytes) : Option Bytes :=
  e.aeadOpen (quicAead e k.suite) (quicKeyBytes e k) nonce aad ct

def quicIntegrityLimitExceeded (openFailures : Nat) : Bool := openFailures > quicIntegrityLimit

def quicConfidentialityLimitReached (sealedCount : Nat) : Bool :=
  sealedCount ≥ quicConfidentialityLimit - 1

/-- The first byte `quic_packet_seal` writes: a short header carries the Key
Phase bit. -/
def quicClearFirst (level keyPhase : Nat) (first : UInt8) : UInt8 :=
  let phaseBit : UInt8 := if level = levelApplication then 0x04 else 0
  let phase : UInt8 := (UInt8.ofNat keyPhase &&& 1) <<< 2
  (first &&& ~~~phaseBit) ||| (phase &&& phaseBit)

/-- `quic_packet_seal`: the packet and the set with its count. -/
def quicPacketSeal (k : QuicKeys) (h : QuicHpKey) (level keyPhase pn pnLen : Nat)
    (hdr pt : Bytes) (cap : Nat) : Except Rc (Bytes × QuicKeys) :=
  if pnLen = 0 ∨ pnLen > quicPnMaxLen ∨ hdr.length < pnLen then .error .einval
  else if pt.length < quicPnMaxLen - pnLen then .error .einval
  else if cap < hdr.length + pt.length + aeadTag then .error .ecap
  else if quicAead e k.suite && quicConfidentialityLimitReached k.sealedCount then .error .einval
  else
    let clear := quicClearFirst level keyPhase (hdr.getD 0 0) :: hdr.drop 1
    let (body, k) := quicSealBody e k (nonceOf k.iv pn) clear pt
    let out := clear ++ body
    let pnOff := hdr.length - pnLen
    let sample := (out.drop (pnOff + quicPnMaxLen)).take quicHpSampleLen
    .ok (quicHeaderProtect out pnOff pnLen level (quicHpMask e h sample), k)

structure QuicHeader where
  pkt : Bytes
  pnLen : Nat
  pn : UInt64

/-- `unprotect_header`, none for a discard. -/
def quicUnprotectHeader (h : QuicHpKey) (pkt : Bytes) (pnOff level : Nat) (largestPn : UInt64) :
    Option QuicHeader :=
  if pkt.length < pnOff + (quicPnMaxLen + quicHpSampleLen) then none
  else
    let sample := (pkt.drop (pnOff + quicPnMaxLen)).take quicHpSampleLen
    let (clear, pnLen) := quicHeaderUnprotect pkt pnOff level (quicHpMask e h sample)
    some { pkt := clear, pnLen := pnLen,
           pn := quicPnDecode largestPn (quicPnRead clear pnOff pnLen) pnLen }

/-- `open_payload`, none for a discard. -/
def quicOpenPayload (k : QuicKeys) (pkt : Bytes) (bodyOff : Nat) (pn : UInt64) : Option Bytes :=
  quicOpenBody e k (nonceOf k.iv pn.toNat) (pkt.take bodyOff) (pkt.drop bodyOff)

structure QuicOpened where
  keySet : UInt8
  pn : UInt64
  hdr : Bytes
  pt : Bytes
  deriving DecidableEq, Repr

def quicPacketOpenHandshake (k : QuicKeys) (h : QuicHpKey) (pkt : Bytes) (pnOff : Nat)
    (largestPn : UInt64) : Option QuicOpened := do
  let header ← quicUnprotectHeader e h pkt pnOff levelHandshake largestPn
  let pt ← quicOpenPayload e k header.pkt (pnOff + header.pnLen) header.pn
  some { keySet := quicKeyCurrent, pn := header.pn, hdr := header.pkt.take (pnOff + header.pnLen)
         pt := pt }

def quicSelected (keyPhase : UInt8) (header : QuicHeader) (currentPhaseLowestPn : UInt64) : UInt8 :=
  let packetKeyPhase := (header.pkt.getD 0 0 &&& 0x04) >>> 2
  quicKeySetSelect keyPhase packetKeyPhase header.pn currentPhaseLowestPn

def quicPacketOpenApplication (sets : QuicKeySets) (h : QuicHpKey) (keyPhase : UInt8)
    (pkt : Bytes) (pnOff : Nat) (largestPn currentPhaseLowestPn : UInt64) :
    Option QuicOpened := do
  let header ← quicUnprotectHeader e h pkt pnOff levelApplication largestPn
  let selected := quicSelected keyPhase header currentPhaseLowestPn
  let pt ← quicOpenPayload e (quicKeysSelect sets selected) header.pkt (pnOff + header.pnLen)
    header.pn
  some { keySet := selected, pn := header.pn, hdr := header.pkt.take (pnOff + header.pnLen)
         pt := pt }

end Protection

end Chapulin
