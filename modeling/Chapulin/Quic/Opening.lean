/-
`ch_quic_open` with its buffers (`quic.c`, `quic_packet.c`, `quic_initial.c`).

`Quic/Session.lean` returns what a packet opens to.  Here the packet is opened in
place, and the three outputs are cells of the caller: what a call that discards
the packet leaves in them is part of its contract.
-/

import Chapulin.Opening
import Chapulin.Quic.Protect
import Chapulin.Quic.Run

namespace Chapulin

open Lib List

variable {level version : Nat} {h : QuicHpKey} {lowestPn : UInt64}

/-! ### The calls -/

structure OpenCells where
  pkt : Bytes
  keySet : UInt8
  pn : UInt64
  ptLen : Nat
  deriving DecidableEq, Repr

section Calls

variable (c : StreamAead) (e : Env) {Step : Type}

structure PayloadKey where
  gcm : Bool
  key : Bytes
  iv : Bytes

def QuicKeys.payloadKey (k : QuicKeys) : PayloadKey :=
  { gcm := quicAead e k.suite, key := quicKeyBytes e k, iv := k.iv }

def InitialKey.payloadKey (k : InitialKey) : PayloadKey := { gcm := true, key := k.key, iv := k.iv }

/-- `open_payload`, in place behind the header: whether the tag matched, and the
packet. -/
def openPayloadIn (k : PayloadKey) (pkt : Bytes) (bodyOff : Nat) (pn : UInt64) : Bool × Bytes :=
  c.openIn k.gcm k.key (nonceOf k.iv pn.toNat) (pkt.take bodyOff) pkt bodyOff
    (pkt.length - bodyOff - aeadTag) bodyOff

/-- Opens the payload behind an unprotected header and reports the number and the
length. -/
def openBehindHeader (k : PayloadKey) (pnOff : Nat) (header : QuicHeader) :
    Proc OpenCells Rc Unit := fun cells =>
  match openPayloadIn c k header.pkt (pnOff + header.pnLen) header.pn with
  | (false, pkt) => (.error .quicDiscard, { cells with pkt := pkt })
  | (true, pkt) => (.ok (), { cells with
      pkt := pkt
      pn := header.pn
      ptLen := header.pkt.length - (pnOff + header.pnLen) - aeadTag })

def quicPacketOpenHandshakeIn (k : QuicKeys) (h : QuicHpKey) (pnOff : Nat) (largestPn : UInt64) :
    Proc OpenCells Rc Unit := fun cells =>
  match quicUnprotectHeader e h cells.pkt pnOff levelHandshake largestPn with
  | none => (.error .quicDiscard, cells)
  | some header => openBehindHeader c (k.payloadKey e) pnOff header cells

def quicPacketOpenApplicationIn (sets : QuicKeySets) (h : QuicHpKey) (keyPhase : UInt8)
    (pnOff : Nat) (largestPn currentPhaseLowestPn : UInt64) : Proc OpenCells Rc Unit := fun cells =>
  match quicUnprotectHeader e h cells.pkt pnOff levelApplication largestPn with
  | none => (.error .quicDiscard, cells)
  | some header =>
    let selected := quicSelected keyPhase header currentPhaseLowestPn
    match openBehindHeader c ((quicKeysSelect sets selected).payloadKey e) pnOff header cells with
    | (.error rc, cells) => (.error rc, cells)
    | (.ok _, cells) => (.ok (), { cells with keySet := selected })

/-- The header `quic_initial_open` unprotects. -/
def initialHeader (k : InitialKey) (pkt : Bytes) (pnOff : Nat) (largestPn : UInt64) : QuicHeader :=
  let sample := (pkt.drop (pnOff + quicPnMaxLen)).take quicHpSampleLen
  let (clear, pnLen) := quicHeaderUnprotect pkt pnOff levelInitial (e.hpMask true k.hp sample)
  { pkt := clear, pnLen := pnLen
    pn := quicPnDecode largestPn (quicPnRead clear pnOff pnLen) pnLen }

def quicInitialOpenIn (endpoint : Endpoint) (version : Nat) (dcid : Bytes) (pnOff : Nat)
    (largestPn : UInt64) : Proc OpenCells Rc Unit := fun cells =>
  if !quicVersionDerived version then (.error .einval, cells)
  else if cells.pkt.length < pnOff + (quicPnMaxLen + quicHpSampleLen) then
    (.error .quicDiscard, cells)
  else
    let k := aesPublicKeyInitial e version dcid endpoint.peer
    openBehindHeader c k.payloadKey pnOff (initialHeader e k cells.pkt pnOff largestPn) cells

/-- `open_at_level`.  Below the application level the key set is written before
the packet is opened. -/
def openAtLevelIn (level version pnOff : Nat) (largestPn currentPhaseLowestPn : UInt64)
    (q : Quic Step) : Proc OpenCells Rc Unit := fun cells =>
  if level = levelApplication then
    quicPacketOpenApplicationIn c e q.appRx q.appHpRx q.keyPhase pnOff largestPn
      currentPhaseLowestPn cells
  else
    let cells := { cells with keySet := quicKeyCurrent }
    if level = levelHandshake then
      quicPacketOpenHandshakeIn c e q.handshakeRx q.handshakeHpRx pnOff largestPn cells
    else quicInitialOpenIn c e q.endpoint version q.initialDcid pnOff largestPn cells

/-- The calls `quic_open` refuses with `CH_EINVAL`. -/
def openRefused (level version : Nat) (q : Quic Step) : Bool :=
  quicDead q || decide (level > levelApplication) || !versionOk q level version ||
    !q.ready level .read || decide (level = levelApplication ∧ q.st.t.state ≠ .connected)

def quicOpenIn (level version pnOff : Nat) (largestPn currentPhaseLowestPn : UInt64) :
    Proc (OpenCells × Quic Step) Rc Unit := fun (cells, q) =>
  if openRefused level version q then (.error .einval, cells, q)
  else if cells.pkt.length < pnOff + (quicPnMaxLen + quicHpSampleLen) then
    (.error .quicDiscard, cells, q)
  else
    match openAtLevelIn c e level version pnOff largestPn currentPhaseLowestPn q cells with
    | (.ok _, cells) => (.ok (), cells, q)
    | (.error .quicDiscard, cells) =>
      let q := { q with openFailures := q.openFailures + 1 }
      if quicIntegrityLimitExceeded q.openFailures then
        (.error .quicAeadLimit, cells, quicFail (q.withAlert Alert.badRecordMac))
      else (.error .quicDiscard, cells, q)
    | (.error rc, cells) => (.error rc, cells, q)

end Calls

/-! ### The header in the clear -/

section Header

variable {pkt : Bytes} {pnOff : Nat} (fits : pnOff + quicPnMaxLen ≤ pkt.length)
include fits

theorem quicMaskFirstByte_facts (level : Nat) (mask : Bytes) :
    (quicMaskFirstByte pkt level mask).length = pkt.length ∧
      (quicMaskFirstByte pkt level mask).drop 1 = pkt.drop 1 := by
  have max : quicPnMaxLen = 4 := rfl
  obtain ⟨first,rest,rfl⟩ := exists_cons_of_length_pos (by omega : 0 < pkt.length)
  rw [quicMaskFirstByte,xorAt_first]
  exact ⟨rfl,rfl⟩

theorem maskPnField_behind {pnLen : Nat} (least : 1 ≤ pnLen) (few : pnLen ≤ 4) (mask : Bytes) :
    (maskPnField pkt pnOff pnLen mask).drop (pnOff + pnLen) = pkt.drop (pnOff + pnLen) := by
  have max : quicPnMaxLen = 4 := rfl
  have long : 4 ≤ (pkt.drop pnOff).length := by
    rw [length_drop]
    omega
  obtain ⟨a,tail,split⟩ := exists_cons_of_length_pos (by omega : 0 < (pkt.drop pnOff).length)
  rw [split,length_cons] at long
  obtain ⟨b,tail,rfl⟩ := exists_cons_of_length_pos (by omega : 0 < tail.length)
  rw [length_cons] at long
  obtain ⟨c,tail,rfl⟩ := exists_cons_of_length_pos (by omega : 0 < tail.length)
  rw [length_cons] at long
  obtain ⟨d,tail,rfl⟩ := exists_cons_of_length_pos (by omega : 0 < tail.length)
  have before : (pkt.take pnOff).length = pnOff := by
    rw [length_take]
    omega
  have whole : pkt = pkt.take pnOff ++ ([a,b,c,d] ++ tail) := by
    rw [cons_append,cons_append,cons_append,cons_append,nil_append,← split,take_append_drop]
  have used : ∀ i, i < 4 → byteInUse (UInt32.ofNat i) (UInt32.ofNat pnLen) =
      if i < pnLen then -1 else 0 := fun i inside => byteInUse_eq inside few
  have masked : maskPnField pkt pnOff pnLen mask = pkt.take pnOff ++
      (zipWith (· ^^^ ·) [a,b,c,d] ((range quicPnMaxLen).map fun i =>
        (mask.getD (1 + i) 0) &&& (byteInUse (UInt32.ofNat i) (UInt32.ofNat pnLen)).toUInt8) ++
        tail) := by
    have applied := xorAt_split (pkt.take pnOff) [a,b,c,d] tail ((range quicPnMaxLen).map
      fun i => (mask.getD (1 + i) 0) &&&
        (byteInUse (UInt32.ofNat i) (UInt32.ofNat pnLen)).toUInt8) rfl
    rw [before,← whole] at applied
    exact applied
  have steps : range quicPnMaxLen = [0,1,2,3] := by decide
  rw [masked,← drop_drop,← drop_drop,drop_left' before,split,steps]
  simp only [map_cons,map_nil,used 0 (by decide),used 1 (by decide),used 2 (by decide),
    used 3 (by decide)]
  interval_cases pnLen <;> simp

theorem quicHeaderUnprotect_facts (level : Nat) (mask : Bytes) :
    (quicHeaderUnprotect pkt pnOff level mask).1.length = pkt.length ∧
      1 ≤ (quicHeaderUnprotect pkt pnOff level mask).2 ∧
      (quicHeaderUnprotect pkt pnOff level mask).2 ≤ 4 ∧
      (quicHeaderUnprotect pkt pnOff level mask).1.drop
          (pnOff + (quicHeaderUnprotect pkt pnOff level mask).2) =
        pkt.drop (pnOff + (quicHeaderUnprotect pkt pnOff level mask).2) := by
  obtain ⟨length,behind⟩ := quicMaskFirstByte_facts fits level mask
  obtain ⟨least,few⟩ := pnLenOf_le ((quicMaskFirstByte pkt level mask).getD 0 0)
  have fitsMasked : pnOff + quicPnMaxLen ≤ (quicMaskFirstByte pkt level mask).length := by
    rw [length]
    exact fits
  refine ⟨(maskPnField_length _ _ fitsMasked).trans length,least,few,?_⟩
  change (maskPnField (quicMaskFirstByte pkt level mask) pnOff
    (pnLenOf ((quicMaskFirstByte pkt level mask).getD 0 0)) mask).drop
      (pnOff + pnLenOf ((quicMaskFirstByte pkt level mask).getD 0 0)) =
    pkt.drop (pnOff + pnLenOf ((quicMaskFirstByte pkt level mask).getD 0 0))
  generalize pnLenOf ((quicMaskFirstByte pkt level mask).getD 0 0) = pnLen at least few
  rw [maskPnField_behind fitsMasked least few]
  have step : pnOff + pnLen = 1 + (pnOff + pnLen - 1) := by omega
  rw [step,← drop_drop,← drop_drop,behind]

end Header

/-! ### A packet that is discarded -/

/-- The packet with its header in the clear, and the length of the packet number
that the header tells. -/
def clearHeader {Step : Type} (e : Env) (level version pnOff : Nat) (q : Quic Step) (pkt : Bytes) :
    Bytes × Nat :=
  let sample := (pkt.drop (pnOff + quicPnMaxLen)).take quicHpSampleLen
  if level = levelApplication then
    quicHeaderUnprotect pkt pnOff levelApplication (quicHpMask e q.appHpRx sample)
  else if level = levelHandshake then
    quicHeaderUnprotect pkt pnOff levelHandshake (quicHpMask e q.handshakeHpRx sample)
  else
    quicHeaderUnprotect pkt pnOff levelInitial (e.hpMask true
      (aesPublicKeyInitial e version q.initialDcid q.endpoint.peer).hp sample)

/-- The header was unprotected in the packet, and nothing behind it was touched. -/
structure QuicHeader.Of (pkt : Bytes) (pnOff : Nat) (clear : Bytes × Nat) (header : QuicHeader) :
    Prop where
  long : pnOff + (quicPnMaxLen + quicHpSampleLen) ≤ pkt.length
  clear : clear = (header.pkt, header.pnLen)
  length : header.pkt.length = pkt.length
  least : 1 ≤ header.pnLen
  few : header.pnLen ≤ 4
  behind : header.pkt.drop (pnOff + header.pnLen) = pkt.drop (pnOff + header.pnLen)

/-- What a discarded packet holds: its header in the clear, then zeros where the
payload was, or the ciphertext it came with, and the tag it came with. -/
def Scrubbed (pkt : Bytes) (pnOff : Nat) (clear : Bytes × Nat) (after : Bytes) : Prop :=
  let bodyOff := pnOff + clear.2
  after = clear.1.take bodyOff ++
      (zeros (pkt.length - bodyOff - aeadTag) ++ pkt.drop (pkt.length - aeadTag)) ∨
    after = clear.1.take bodyOff ++ pkt.drop bodyOff

section Discards

variable {c : StreamAead} {e : Env} {cells after : OpenCells} {pnOff : Nat} {rc : Rc}

theorem quicUnprotectHeader_of {pkt : Bytes} {largestPn : UInt64} {header : QuicHeader}
    (found : quicUnprotectHeader e h pkt pnOff level largestPn = some header) :
    header.Of pkt pnOff (quicHeaderUnprotect pkt pnOff level
      (quicHpMask e h ((pkt.drop (pnOff + quicPnMaxLen)).take quicHpSampleLen))) := by
  unfold quicUnprotectHeader at found
  split at found
  · cases found
  rename_i long
  cases found
  obtain ⟨length,least,few,behind⟩ := @quicHeaderUnprotect_facts pkt pnOff (by omega) level
    (quicHpMask e h ((pkt.drop (pnOff + quicPnMaxLen)).take quicHpSampleLen))
  exact ⟨by omega,rfl,length,least,few,behind⟩

theorem initialHeader_of {k : InitialKey} {pkt : Bytes} {largestPn : UInt64}
    (long : pnOff + (quicPnMaxLen + quicHpSampleLen) ≤ pkt.length) :
    (initialHeader e k pkt pnOff largestPn).Of pkt pnOff (quicHeaderUnprotect pkt pnOff levelInitial
      (e.hpMask true k.hp ((pkt.drop (pnOff + quicPnMaxLen)).take quicHpSampleLen))) := by
  obtain ⟨length,least,few,behind⟩ := @quicHeaderUnprotect_facts pkt pnOff (by omega) levelInitial
    (e.hpMask true k.hp ((pkt.drop (pnOff + quicPnMaxLen)).take quicHpSampleLen))
  exact ⟨long,rfl,length,least,few,behind⟩

theorem QuicHeader.Of.scrubbed {k : PayloadKey} {pkt : Bytes} {clear : Bytes × Nat}
    {header : QuicHeader} (header_of : header.Of pkt pnOff clear)
    (mismatch : (openPayloadIn c k header.pkt (pnOff + header.pnLen) header.pn).1 = false) :
    Scrubbed pkt pnOff clear (openPayloadIn c k header.pkt (pnOff + header.pnLen) header.pn).2 := by
  obtain ⟨long,rfl,length,least,few,behind⟩ := header_of
  have max : quicPnMaxLen = 4 := rfl
  have sample : quicHpSampleLen = 16 := rfl
  have tagIs : aeadTag = 16 := rfl
  have left := @StreamAead.openIn_mismatch c k.gcm k.key (nonceOf k.iv header.pn.toNat)
    (header.pkt.take (pnOff + header.pnLen)) header.pkt (pnOff + header.pnLen)
    (header.pkt.length - (pnOff + header.pnLen) - aeadTag) (pnOff + header.pnLen) (by omega)
    (.inl (Nat.le_refl _)) (by omega) mismatch
  have ends : pnOff + header.pnLen + (pkt.length - (pnOff + header.pnLen) - aeadTag) =
      pkt.length - aeadTag := by omega
  unfold openPayloadIn Scrubbed
  rw [left,length]
  cases k.gcm with
  | false =>
    right
    dsimp only
    rw [← behind,take_append_drop]
    rfl
  | true =>
    left
    have rest : header.pkt.drop (pkt.length - aeadTag) = pkt.drop (pkt.length - aeadTag) := by
      rw [← ends,← drop_drop,behind,drop_drop]
    simp only [if_true,copyAt,zeros_length,ends,rest,append_assoc]

theorem quicUnprotectHeader_long {pkt : Bytes} {largestPn : UInt64}
    (long : pnOff + (quicPnMaxLen + quicHpSampleLen) ≤ pkt.length) :
    ∃ header, quicUnprotectHeader e h pkt pnOff level largestPn = some header := by
  unfold quicUnprotectHeader
  rw [if_neg (Nat.not_lt.mpr long)]
  exact ⟨_,rfl⟩

structure OpenCells.Holds (cells : OpenCells) (opened : QuicOpened) : Prop where
  keySet : cells.keySet = opened.keySet
  pn : cells.pn = opened.pn
  ptLen : cells.ptLen = opened.pt.length
  pkt : ∃ tag, tag.length = aeadTag ∧ cells.pkt = opened.hdr ++ opened.pt ++ tag

/-- The payload opens and is left in clear, or does not and is scrubbed. -/
theorem openBehindHeader_cases {k : PayloadKey} {clear : Bytes × Nat} {header : QuicHeader}
    (header_of : header.Of cells.pkt pnOff clear) :
    (c.openText k.gcm k.key (nonceOf k.iv header.pn.toNat)
          (header.pkt.take (pnOff + header.pnLen)) (header.pkt.drop (pnOff + header.pnLen)) = none ∧
        ∃ pkt, openBehindHeader c k pnOff header cells =
            (.error .quicDiscard, { cells with pkt := pkt }) ∧
          Scrubbed cells.pkt pnOff clear pkt) ∨
      ∃ pt, c.openText k.gcm k.key (nonceOf k.iv header.pn.toNat)
          (header.pkt.take (pnOff + header.pnLen)) (header.pkt.drop (pnOff + header.pnLen)) =
            some pt ∧
        ∃ tag, tag.length = aeadTag ∧
          openBehindHeader c k pnOff header cells = (.ok (), { cells with
          pkt := header.pkt.take (pnOff + header.pnLen) ++ pt ++ tag
          pn := header.pn
          ptLen := pt.length }) := by
  have scrubs := @QuicHeader.Of.scrubbed c pnOff k cells.pkt clear header header_of
  obtain ⟨long,_,length,least,few,_⟩ := header_of
  have max : quicPnMaxLen = 4 := rfl
  have sample : quicHpSampleLen = 16 := rfl
  have tagIs : aeadTag = 16 := rfl
  have text : slice header.pkt (pnOff + header.pnLen)
      (header.pkt.length - (pnOff + header.pnLen) - aeadTag + aeadTag) =
        header.pkt.drop (pnOff + header.pnLen) := by
    rw [slice,take_of_length_le]
    rw [length_drop]
    omega
  have opened := @StreamAead.openIn_eq c k.gcm k.key (nonceOf k.iv header.pn.toNat)
    (header.pkt.take (pnOff + header.pnLen)) header.pkt (pnOff + header.pnLen)
    (header.pkt.length - (pnOff + header.pnLen) - aeadTag) (pnOff + header.pnLen) (by omega)
    (.inl (Nat.le_refl _)) (by omega)
  rw [text] at opened
  unfold openBehindHeader
  unfold openPayloadIn at scrubs ⊢
  rcases opened with ⟨closed,mismatch⟩ | ⟨pt,opens,size,written⟩
  · refine .inl ⟨closed,?_⟩
    rcases ran : c.openIn k.gcm k.key (nonceOf k.iv header.pn.toNat)
      (header.pkt.take (pnOff + header.pnLen)) header.pkt (pnOff + header.pnLen)
      (header.pkt.length - (pnOff + header.pnLen) - aeadTag) (pnOff + header.pnLen) with
        ⟨found,left⟩
    rw [ran] at mismatch scrubs
    cases mismatch
    exact ⟨left,rfl,scrubs rfl⟩
  · refine .inr ⟨pt,opens,header.pkt.drop (pnOff + header.pnLen + pt.length),?_,?_⟩
    · rw [length_drop]
      omega
    · rw [written,← size]
      rfl

/-- What a packet long enough for a sample is opened with: its header in the
clear, the key, and the key set the cell holds before and after. -/
structure OpenRun where
  header : QuicHeader
  key : PayloadKey
  before : UInt8
  selected : UInt8

def OpenRun.inPlace (c : StreamAead) (run : OpenRun) (pnOff : Nat) (cells : OpenCells) :
    Except Rc Unit × OpenCells :=
  match openBehindHeader c run.key pnOff run.header { cells with keySet := run.before } with
  | (.error rc, cells) => (.error rc, cells)
  | (.ok _, cells) => (.ok (), { cells with keySet := run.selected })

def OpenRun.value (e : Env) (run : OpenRun) (pnOff : Nat) : Except Rc QuicOpened :=
  ((e.aeadOpen run.key.gcm run.key.key (nonceOf run.key.iv run.header.pn.toNat)
    (run.header.pkt.take (pnOff + run.header.pnLen))
    (run.header.pkt.drop (pnOff + run.header.pnLen))).map fun pt =>
      { keySet := run.selected, pn := run.header.pn
        hdr := run.header.pkt.take (pnOff + run.header.pnLen), pt := pt }).elim
    (.error .quicDiscard) .ok

theorem OpenRun.inPlace_current (k : PayloadKey) (header : QuicHeader) :
    (OpenRun.mk header k quicKeyCurrent quicKeyCurrent).inPlace c pnOff cells =
      openBehindHeader c k pnOff header { cells with keySet := quicKeyCurrent } := by
  unfold OpenRun.inPlace openBehindHeader
  rcases openPayloadIn c k header.pkt (pnOff + header.pnLen) header.pn with ⟨_ | _,pkt⟩ <;> rfl

variable {Step : Type} {q : Quic Step} {largestPn : UInt64}
  (long : pnOff + (quicPnMaxLen + quicHpSampleLen) ≤ cells.pkt.length)
include long

theorem openAtLevelIn_runs :
    (openAtLevelIn c e level version pnOff largestPn lowestPn q cells =
          (.error .einval, { cells with keySet := quicKeyCurrent }) ∧
        openAtLevel e level version cells.pkt pnOff largestPn lowestPn q = .error .einval) ∨
      ∃ run : OpenRun,
        run.header.Of cells.pkt pnOff (clearHeader e level version pnOff q cells.pkt) ∧
        run.before = (if level = levelApplication then cells.keySet else quicKeyCurrent) ∧
        openAtLevelIn c e level version pnOff largestPn lowestPn q cells =
          run.inPlace c pnOff cells ∧
        openAtLevel e level version cells.pkt pnOff largestPn lowestPn q = run.value e pnOff := by
  unfold openAtLevelIn openAtLevel clearHeader
  by_cases application : level = levelApplication
  · obtain ⟨header,found⟩ := @quicUnprotectHeader_long levelApplication q.appHpRx e pnOff cells.pkt
      largestPn long
    refine .inr
      ⟨⟨header,(quicKeysSelect q.appRx (quicSelected q.keyPhase header lowestPn)).payloadKey
      e,cells.keySet,quicSelected q.keyPhase header lowestPn⟩,?_,(if_pos application).symm,?_,?_⟩
    · rw [if_pos application]
      exact quicUnprotectHeader_of found
    · rw [if_pos application]
      unfold quicPacketOpenApplicationIn
      rw [found]
      rfl
    · rw [if_pos application]
      unfold quicPacketOpenApplication
      rw [found,OpenRun.value,Option.map_eq_bind]
      rfl
  rw [if_neg application,if_neg application,if_neg application,if_neg application]
  by_cases handshake : level = levelHandshake
  · obtain ⟨header,found⟩ :=
      @quicUnprotectHeader_long levelHandshake q.handshakeHpRx e pnOff cells.pkt
      largestPn long
    refine .inr ⟨⟨header,q.handshakeRx.payloadKey e,quicKeyCurrent,quicKeyCurrent⟩,
      ?_,rfl,?_,?_⟩
    · rw [if_pos handshake]
      exact quicUnprotectHeader_of found
    · rw [if_pos handshake,OpenRun.inPlace_current]
      unfold quicPacketOpenHandshakeIn
      rw [found]
    · rw [if_pos handshake]
      unfold quicPacketOpenHandshake
      rw [found,OpenRun.value,Option.map_eq_bind]
      rfl
  rw [if_neg handshake,if_neg handshake,if_neg handshake]
  unfold quicInitialOpenIn quicInitialOpen
  by_cases derived : (!quicVersionDerived version) = true
  · rw [if_pos derived,if_pos derived]
    exact .inl ⟨rfl,rfl⟩
  rw [if_neg derived,if_neg derived,if_neg (Nat.not_lt.mpr long),if_neg (Nat.not_lt.mpr long)]
  refine .inr
    ⟨⟨initialHeader e (aesPublicKeyInitial e version q.initialDcid q.endpoint.peer) cells.pkt
    pnOff largestPn,(aesPublicKeyInitial e version q.initialDcid q.endpoint.peer).payloadKey,
    quicKeyCurrent,quicKeyCurrent⟩,initialHeader_of long,rfl,?_,?_⟩
  · rw [OpenRun.inPlace_current]
  · unfold OpenRun.value
    dsimp only [InitialKey.payloadKey,initialHeader]
    split
    · rename_i closed
      rw [closed]
      rfl
    · rename_i opens
      rw [opens]
      rfl

/-- An open in place refuses the version, discards the packet, or leaves what the
open of the value model returns. -/
theorem openAtLevelIn_cases :
    (openAtLevelIn c e level version pnOff largestPn lowestPn q cells =
          (.error .einval, { cells with keySet := quicKeyCurrent }) ∧
        openAtLevel e level version cells.pkt pnOff largestPn lowestPn q = .error .einval) ∨
      (∃ pkt, openAtLevelIn c e level version pnOff largestPn lowestPn q cells =
          (.error .quicDiscard, { cells with
            pkt := pkt
            keySet := if level = levelApplication then cells.keySet else quicKeyCurrent }) ∧
        Scrubbed cells.pkt pnOff (clearHeader e level version pnOff q cells.pkt) pkt ∧
          (c.Runs e.toCrypto →
          openAtLevel e level version cells.pkt pnOff largestPn lowestPn q = .error .quicDiscard)) ∨
      ∃ after opened, openAtLevelIn c e level version pnOff largestPn lowestPn q cells =
          (.ok (), after) ∧ after.Holds opened ∧ (c.Runs e.toCrypto →
          openAtLevel e level version cells.pkt pnOff largestPn lowestPn q = .ok opened) := by
  rcases @openAtLevelIn_runs level version lowestPn c e cells pnOff Step q largestPn long with
    refused | ⟨run,header_of,before,inPlace,value⟩
  · exact .inl refused
  rw [inPlace,value]
  unfold OpenRun.inPlace OpenRun.value
  rcases @openBehindHeader_cases c { cells with keySet := run.before } pnOff run.key _ run.header
    header_of with ⟨closed,pkt,ran,scrubbed⟩ | ⟨pt,opens,tag,size,ran⟩
  · refine .inr (.inl ⟨pkt,?_,scrubbed,fun runs => ?_⟩)
    · rw [ran,before]
    · rw [runs.opens,closed]
      rfl
  · rw [ran]
    refine .inr (.inr ⟨_,⟨run.selected,run.header.pn,run.header.pkt.take (pnOff + run.header.pnLen),
      pt⟩,rfl,⟨rfl,rfl,rfl,tag,size,rfl⟩,fun runs => ?_⟩)
    rw [runs.opens,opens]
    rfl

end Discards

/-! ### A session that opens packets -/

section Session

variable (c : StreamAead) (e : Env) {Step : Type}

structure OpenCall where
  level : Nat
  version : Nat
  pnOff : Nat
  largestPn : UInt64
  currentPhaseLowestPn : UInt64
  cells : OpenCells

def OpenCall.exec (call : OpenCall) (q : Quic Step) : Except Rc Unit × OpenCells × Quic Step :=
  quicOpenIn c e call.level call.version call.pnOff call.largestPn call.currentPhaseLowestPn
    (call.cells, q)

def openAll (q : Quic Step) (calls : List OpenCall) : Quic Step :=
  calls.foldl (fun q call => (call.exec c e q).2.2) q

/-- The packet is long enough to hold a sample, so it is passed to the AEAD. -/
def OpenCall.ReachesAead (call : OpenCall) : Prop :=
  call.pnOff + (quicPnMaxLen + quicHpSampleLen) ≤ call.cells.pkt.length

instance (call : OpenCall) : Decidable call.ReachesAead := inferInstanceAs (Decidable (_ ≤ _))

/-- What the call leaves of a packet that does not authenticate. -/
def OpenCall.Scrubs (call : OpenCall) (q : Quic Step) (after : Bytes) : Prop :=
  Scrubbed call.cells.pkt call.pnOff
    (clearHeader e call.level call.version call.pnOff q call.cells.pkt) after

variable {c e} {call : OpenCall} {q : Quic Step}

theorem wipeWriteKeysUnlessReady_openFailures (level : Nat) (q : Quic Step) :
    (wipeWriteKeysUnlessReady level q).openFailures = q.openFailures := by
  unfold wipeWriteKeysUnlessReady
  split
  · rfl
  · unfold quicWipeWriteKeys
    split
    · rfl
    split <;> rfl

theorem quicFail_openFailures (q : Quic Step) : (quicFail q).openFailures = q.openFailures := by
  unfold quicFail
  dsimp only
  rw [wipeWriteKeysUnlessReady_openFailures,wipeWriteKeysUnlessReady_openFailures,
    wipeWriteKeysUnlessReady_openFailures]
  rfl

/-- What a call does to the session: it fails it for the limit, counts a packet
that did not authenticate, or leaves it alone. -/
theorem OpenCall.exec_session (call : OpenCall) (q : Quic Step) :
    ((call.exec c e q).1 = .error .quicAeadLimit ∧ quicDead q = false ∧ call.ReachesAead ∧
        quicIntegrityLimit < q.openFailures + 1 ∧
        (call.exec c e q).2.2.st.t.state = .failed ∧
        (call.exec c e q).2.2.openFailures = q.openFailures + 1) ∨
      ((call.exec c e q).1 = .error .quicDiscard ∧ call.ReachesAead ∧
        q.openFailures + 1 ≤ quicIntegrityLimit ∧
        (call.exec c e q).2.2 = { q with openFailures := q.openFailures + 1 }) ∨
      ((call.exec c e q).1 ≠ .error .quicAeadLimit ∧
        ((call.exec c e q).1 = .error .quicDiscard → ¬ call.ReachesAead) ∧
        (call.exec c e q).2.2 = q) := by
  unfold OpenCall.exec quicOpenIn OpenCall.ReachesAead
  dsimp only
  by_cases refused : openRefused call.level call.version q = true
  · rw [if_pos refused]
    exact .inr (.inr ⟨by simp,by simp,rfl⟩)
  rw [if_neg refused]
  by_cases short : call.cells.pkt.length < call.pnOff + (quicPnMaxLen + quicHpSampleLen)
  · rw [if_pos short]
    exact .inr (.inr ⟨by simp,fun _ => Nat.not_le.mpr short,rfl⟩)
  rw [if_neg short]
  have long : call.pnOff + (quicPnMaxLen + quicHpSampleLen) ≤ call.cells.pkt.length :=
    Nat.le_of_not_lt short
  have alive : quicDead q = false := by
    unfold openRefused at refused
    cases dead : quicDead q with
    | false => rfl
    | true => simp [dead] at refused
  rcases @openAtLevelIn_cases call.level call.version call.currentPhaseLowestPn c e call.cells
    call.pnOff Step q call.largestPn long with ⟨ran,_⟩ | ⟨pkt,ran,_⟩ |
      ⟨after,opened,ran,_⟩ <;> rw [ran]
  · exact .inr (.inr ⟨by simp,by simp,rfl⟩)
  · dsimp only
    by_cases past : quicIntegrityLimitExceeded (q.openFailures + 1) = true
    · rw [if_pos past]
      have exceeds : quicIntegrityLimit < q.openFailures + 1 := by
        simpa [quicIntegrityLimitExceeded] using past
      exact .inl ⟨rfl,alive,long,exceeds,rfl,quicFail_openFailures _⟩
    · rw [if_neg past]
      have within : q.openFailures + 1 ≤ quicIntegrityLimit := by
        simpa [quicIntegrityLimitExceeded] using past
      exact .inr (.inl ⟨rfl,long,within,rfl⟩)
  · exact .inr (.inr ⟨by simp,by simp,rfl⟩)

def LimitHeld (q : Quic Step) : Prop := quicDead q = true ↔ quicIntegrityLimit < q.openFailures

theorem OpenCall.exec_limitHeld (call : OpenCall) (held : LimitHeld q) :
    LimitHeld (call.exec c e q).2.2 := by
  unfold LimitHeld at held ⊢
  rcases @OpenCall.exec_session c e Step call q with ⟨_,_,_,past,failed,counted⟩ |
    ⟨_,_,within,counted⟩ | ⟨_,_,same⟩
  · rw [counted]
    refine ⟨fun _ => past,fun _ => ?_⟩
    unfold quicDead
    rw [failed]
    rfl
  · rw [counted]
    change quicDead q = true ↔ quicIntegrityLimit < q.openFailures + 1
    rw [held]
    omega
  · rw [same]
    exact held

theorem openAll_limitHeld (calls : List OpenCall) (held : LimitHeld q) :
    LimitHeld (openAll c e q calls) := by
  induction calls generalizing q with
  | nil => exact held
  | cons call calls ih => exact ih (call.exec_limitHeld held)

/-- A packet too short for the AEAD is left as it came; any other that is discarded is scrubbed. -/
theorem OpenCall.exec_discards (discarded : (call.exec c e q).1 = .error .quicDiscard) :
    (¬ call.ReachesAead ∧ (call.exec c e q).2.1 = call.cells) ∨
      (call.ReachesAead ∧
        (call.exec c e q).2.1 = { call.cells with
          pkt := (call.exec c e q).2.1.pkt
          keySet := if call.level = levelApplication then call.cells.keySet else quicKeyCurrent } ∧
        call.Scrubs e q (call.exec c e q).2.1.pkt) := by
  unfold OpenCall.exec quicOpenIn OpenCall.ReachesAead at *
  dsimp only at discarded ⊢
  by_cases refused : openRefused call.level call.version q = true
  · rw [if_pos refused] at discarded
    cases discarded
  rw [if_neg refused] at discarded ⊢
  by_cases short : call.cells.pkt.length < call.pnOff + (quicPnMaxLen + quicHpSampleLen)
  · rw [if_pos short]
    exact .inl ⟨Nat.not_le.mpr short,rfl⟩
  rw [if_neg short] at discarded ⊢
  have long : call.pnOff + (quicPnMaxLen + quicHpSampleLen) ≤ call.cells.pkt.length :=
    Nat.le_of_not_lt short
  rcases @openAtLevelIn_cases call.level call.version call.currentPhaseLowestPn c e call.cells
    call.pnOff Step q call.largestPn long with ⟨ran,_⟩ | ⟨pkt,ran,scrubbed,_⟩ |
      ⟨after,opened,ran,_⟩ <;>
    rw [ran] at discarded ⊢
  · cases discarded
  · dsimp only
    split <;> exact .inr ⟨long,rfl,scrubbed⟩
  · cases discarded

/-- A discarded packet leaves the caller's outputs alone exactly when it is a
1-RTT packet, never reached the AEAD, or the key set cell held the current set.
In each case the session changes by the count of a packet that reached the AEAD,
and such a packet holds its clear header, zeros or its ciphertext, and its tag.
Over every sequence of packets the session is over exactly from the call on that
passes the limit. -/
theorem quicOpenIn_discards (call : OpenCall) (q : Quic Step) :
    ((call.exec c e q).1 = .error .quicDiscard →
      (((call.exec c e q).2.1.keySet = call.cells.keySet ∧
          (call.exec c e q).2.1.pn = call.cells.pn ∧
          (call.exec c e q).2.1.ptLen = call.cells.ptLen) ∧
        (call.exec c e q).2.2 =
          (if call.ReachesAead then { q with openFailures := q.openFailures + 1 } else q) ∧
        (¬ call.ReachesAead → (call.exec c e q).2.1.pkt = call.cells.pkt) ∧
        (call.ReachesAead → call.Scrubs e q (call.exec c e q).2.1.pkt) ↔
      call.level = levelApplication ∨ ¬ call.ReachesAead ∨
        call.cells.keySet = quicKeyCurrent)) ∧
      (quicDead q = false → q.openFailures ≤ quicIntegrityLimit → ∀ calls : List OpenCall,
        (quicDead (openAll c e q calls) = true ↔
          quicIntegrityLimit < (openAll c e q calls).openFailures) ∧
        ((call.exec c e (openAll c e q calls)).1 = .error .quicAeadLimit ↔
          (openAll c e q calls).openFailures ≤ quicIntegrityLimit ∧
            quicIntegrityLimit < (openAll c e q (calls ++ [call])).openFailures)) := by
  constructor
  · intro discarded
    have session : (call.exec c e q).2.2 =
        if call.ReachesAead then { q with openFailures := q.openFailures + 1 } else q := by
      rcases @OpenCall.exec_session c e Step call q with ⟨limit,_⟩ | ⟨_,reaches,_,counted⟩ |
        ⟨_,unreached,same⟩
      · rw [discarded] at limit
        cases limit
      · rw [if_pos reaches]
        exact counted
      · rw [if_neg (unreached discarded)]
        exact same
    rcases OpenCall.exec_discards discarded with ⟨unreached,same⟩ | ⟨reaches,cells,scrubbed⟩
    · rw [same]
      exact ⟨fun _ => .inr (.inl unreached),fun _ =>
        ⟨⟨rfl,rfl,rfl⟩,session,fun _ => rfl,fun reaches => absurd reaches unreached⟩⟩
    · have keySet := congrArg OpenCells.keySet cells
      have pn := congrArg OpenCells.pn cells
      have ptLen := congrArg OpenCells.ptLen cells
      dsimp only at keySet pn ptLen
      constructor
      · rintro ⟨⟨written,_⟩,_⟩
        rw [keySet] at written
        by_cases application : call.level = levelApplication
        · exact .inl application
        · rw [if_neg application] at written
          exact .inr (.inr written.symm)
      · intro condition
        refine ⟨⟨?_,pn,ptLen⟩,session,fun unreached => absurd reaches unreached,fun _ => scrubbed⟩
        rw [keySet]
        rcases condition with application | unreached | current
        · rw [if_pos application]
        · exact absurd reaches unreached
        · rw [current]
          exact ite_self _
  · intro alive within calls
    have held : LimitHeld q := by
      unfold LimitHeld
      rw [alive]
      exact ⟨fun dead => Bool.noConfusion dead,fun past => absurd past (Nat.not_lt.mpr within)⟩
    have after : LimitHeld (openAll c e q calls) := openAll_limitHeld calls held
    refine ⟨after,?_⟩
    have next : openAll c e q (calls ++ [call]) = (call.exec c e (openAll c e q calls)).2.2 := by
      rw [openAll,foldl_append]
      rfl
    rw [next]
    generalize openAll c e q calls = before at after
    rcases @OpenCall.exec_session c e Step call before with ⟨limit,live,_,past,_,counted⟩ |
      ⟨result,_,still,counted⟩ | ⟨other,_,same⟩
    · rw [limit,counted]
      have below : ¬ quicIntegrityLimit < before.openFailures := fun over' => by
        rw [after.mpr over'] at live
        cases live
      exact ⟨fun _ => ⟨Nat.le_of_not_lt below,past⟩,fun _ => rfl⟩
    · rw [result,counted]
      constructor
      · intro limit
        cases limit
      · intro both
        exact absurd both.2 (Nat.not_lt.mpr still)
    · rw [same]
      exact ⟨fun limit => absurd limit other,fun both => absurd both.2 (Nat.not_lt.mpr both.1)⟩

/-! ### The calls and the value model -/

/-- An open in place has the result of the open of the value model, and leaves
what that returns. -/
structure Agrees (result : Except Rc Unit × OpenCells) (value : Except Rc QuicOpened) : Prop where
  code : result.1 = value.map (fun _ => ())
  holds : ∀ opened, value = .ok opened → result.2.Holds opened

/-- The call with its buffers does to the session what the call of the value
model does. -/
theorem quicOpenIn_agrees (runs : c.Runs e.toCrypto) {pnOff : Nat} {largestPn : UInt64}
    {cells : OpenCells} :
    let result := quicOpenIn c e level version pnOff largestPn lowestPn (cells, q)
    let value := quicOpen e level version cells.pkt pnOff largestPn lowestPn q
    Agrees (result.1, result.2.1) value.1 ∧ result.2.2 = value.2 := by
  dsimp only
  unfold quicOpenIn quicOpen
  dsimp only
  unfold openRefused
  by_cases refused :
    (quicDead q || decide (level > levelApplication) || !versionOk q level version ||
      !q.ready level .read) = true
  · rw [if_pos refused,if_pos (by rw [refused]; rfl)]
    exact ⟨⟨rfl,fun opened ok => by cases ok⟩,rfl⟩
  rw [if_neg refused]
  by_cases early : level = levelApplication ∧ q.st.t.state ≠ .connected
  · rw [if_pos early,if_pos (by simp [early])]
    exact ⟨⟨rfl,fun opened ok => by cases ok⟩,rfl⟩
  rw [if_neg early,if_neg (by simpa [early] using refused)]
  by_cases short : cells.pkt.length < pnOff + (quicPnMaxLen + quicHpSampleLen)
  · rw [if_pos short,if_pos short]
    exact ⟨⟨rfl,fun opened ok => by cases ok⟩,rfl⟩
  rw [if_neg short,if_neg short]
  rcases @openAtLevelIn_cases level version lowestPn c e cells pnOff Step q largestPn
    (Nat.le_of_not_lt short) with ⟨ran,value⟩ | ⟨pkt,ran,_,value⟩ | ⟨after,opened,ran,holds,value⟩
  · rw [ran,value]
    exact ⟨⟨rfl,fun opened ok => by cases ok⟩,rfl⟩
  · rw [ran,value runs]
    dsimp only
    split <;> exact ⟨⟨rfl,fun opened ok => by cases ok⟩,rfl⟩
  · rw [ran,value runs]
    refine ⟨⟨rfl,fun opened ok => ?_⟩,rfl⟩
    cases ok
    exact holds

end Session

/-- A packet that opens, in the caller's cells. -/
def sampleOpens : OpenCells where
  pkt := (sampleSeal 0x1234 2 [0xe1,9,0x12,0x34] [1,2,3]).1.toOption.getD []
  keySet := quicKeyNext
  pn := 0
  ptLen := 0

theorem quicOpenIn_agrees_sample :
    let result := quicOpenIn sampleStream sampleMaskEnv levelHandshake quicVersion1 2 0x1233 0
      (sampleOpens, sampleSide .server)
    result.1 = .ok () ∧ result.2.1.Holds ⟨quicKeyCurrent,0x1234,[0xe1,9,0x12,0x34],[1,2,3]⟩ ∧
      result.2.2 = (quicOpen sampleMaskEnv levelHandshake quicVersion1 sampleOpens.pkt 2 0x1233 0
        (sampleSide .server)).2 := by
  have runs : sampleStream.Runs sampleMaskEnv.toCrypto :=
    ⟨(sampleStream_runs sampleMaskEnv.build).seals,(sampleStream_runs sampleMaskEnv.build).opens⟩
  have opens : (quicOpen sampleMaskEnv levelHandshake quicVersion1 sampleOpens.pkt 2 0x1233 0
      (sampleSide .server)).1 =
      .ok ⟨quicKeyCurrent,0x1234,[0xe1,9,0x12,0x34],[1,2,3]⟩ := by decide +kernel
  obtain ⟨agrees,same⟩ := @quicOpenIn_agrees levelHandshake quicVersion1 0 sampleStream
    sampleMaskEnv Unit (sampleSide .server) runs 2 0x1233 sampleOpens
  rw [opens] at agrees
  exact ⟨agrees.code,agrees.holds _ rfl,same⟩

/-- A Handshake packet that does not authenticate, with another key set in the
caller's cell. -/
def sampleForgery : OpenCall :=
  { level := levelHandshake, version := quicVersion1, pnOff := 1, largestPn := 0
    currentPhaseLowestPn := 0
    cells := { pkt := zeros 24, keySet := quicKeyNext, pn := 0, ptLen := 0 } }

/-- The forged packet is discarded, and the key set cell is written. -/
theorem quicOpenIn_writes_key_set :
    ((sampleForgery.exec sampleStream sampleMaskEnv (sampleSide .client)).1.toBool = false ∧
      (sampleForgery.exec sampleStream sampleMaskEnv (sampleSide .client)).2.2.openFailures = 1 ∧
      (sampleForgery.exec sampleStream sampleMaskEnv (sampleSide .client)).1 =
        .error .quicDiscard) ∧
      sampleForgery.cells.keySet = quicKeyNext ∧
      (sampleForgery.exec sampleStream sampleMaskEnv (sampleSide .client)).2.1.keySet =
        quicKeyCurrent := by
  decide +kernel

end Chapulin
