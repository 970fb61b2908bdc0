/-
A QUIC session of either role (`quic_session.h`, `quic.c`, `quic_fail.c`,
`quic_initial.c`): its keys, the packet calls, the key update and the ways a
session ends.  What a role does with handshake bytes is in its own module.
-/

import Chapulin.Auth
import Chapulin.Post
import Chapulin.Quic.Packet

namespace Chapulin

open Lib

def quicDcidMax : Nat := 20
def quicCloseMax : Nat := 1200
def quicProtocolViolation : Nat := 0x0a

/-- `ch_quic_priv`.  `levels_ready` is the list of its bits.  `appSecrets` is a
history that no definition reads: the write and the read secret the application
keys were installed from. -/
structure Quic (Step : Type) where
  st : St
  step : Step
  rxLevel : Nat
  txLevel : Nat
  alert : Nat
  endpoint : Endpoint
  txLen : Nat
  keyPhase : UInt8
  errorCode : Nat
  levelsReady : List (Nat × KeyDirection)
  initialDcid : Bytes
  handshakeRx : QuicKeys
  handshakeTx : QuicKeys
  handshakeHpRx : QuicHpKey
  handshakeHpTx : QuicHpKey
  appTx : QuicKeys
  appRx : QuicKeySets
  appHpRx : QuicHpKey
  appHpTx : QuicHpKey
  openFailures : Nat
  initialSealed : Nat
  appSecrets : Bytes × Bytes

def QuicKeySets.wiped : QuicKeySets := { previous := .wiped, current := .wiped, next := .wiped }

/-- A session after `memset`, with what its init call sets first. -/
def Quic.fresh {Step : Type} (st : St) (step : Step) (endpoint : Endpoint) : Quic Step where
  st := st
  step := step
  rxLevel := levelInitial
  txLevel := levelInitial
  alert := 0
  endpoint := endpoint
  txLen := 0
  keyPhase := 0
  errorCode := 0
  levelsReady := []
  initialDcid := []
  handshakeRx := .wiped
  handshakeTx := .wiped
  handshakeHpRx := .wiped
  handshakeHpTx := .wiped
  appTx := .wiped
  appRx := .wiped
  appHpRx := .wiped
  appHpTx := .wiped
  openFailures := 0
  initialSealed := 0
  appSecrets := ([], [])

section QuicSession

variable {Step : Type} (e : Env)

def Quic.ready (q : Quic Step) (level : Nat) (direction : KeyDirection) : Bool :=
  q.levelsReady.contains (level, direction)

def onQuic {α : Type} (act : Act α) : Proc (Quic Step) Rc α :=
  Proc.within Quic.st (fun st q => { q with st := st }) act

def quicDead (q : Quic Step) : Bool := q.st.t.state == .closed || q.st.t.state == .failed

/-! ### Wiping and failing -/

def wipeAllButWriteKeys (q : Quic Step) : Quic Step :=
  { q with
    st := { q.st with
      h := .wiped
      t := { q.st.t with rdSecret := [], wrSecret := [], resMaster := [] }
      rx := q.st.rx.reset }
    handshakeRx := .wiped
    handshakeHpRx := .wiped
    appRx := .wiped
    appHpRx := .wiped
    levelsReady := q.levelsReady.filter fun bit => bit.2 == .write
    txLen := 0 }

def quicWipeWriteKeys (level : Nat) (q : Quic Step) : Quic Step :=
  let q :=
    if level = levelInitial then { q with initialDcid := [] }
    else if level = levelHandshake then { q with handshakeTx := .wiped, handshakeHpTx := .wiped }
    else { q with appTx := .wiped, appHpTx := .wiped }
  { q with levelsReady := q.levelsReady.filter (· != (level, .write)) }

def quicWipe (q : Quic Step) : Quic Step :=
  quicWipeWriteKeys levelApplication
    (quicWipeWriteKeys levelHandshake (quicWipeWriteKeys levelInitial (wipeAllButWriteKeys q)))

def wipeWriteKeysUnlessReady (level : Nat) (q : Quic Step) : Quic Step :=
  if q.ready level .write then q else quicWipeWriteKeys level q

def quicFail (q : Quic Step) : Quic Step :=
  let alert := q.st.h.alert
  let q := wipeAllButWriteKeys
    { q with alert := alert, st := { q.st with t := { q.st.t with alertSent := alert } } }
  let q := wipeWriteKeysUnlessReady levelApplication
    (wipeWriteKeysUnlessReady levelHandshake (wipeWriteKeysUnlessReady levelInitial q))
  { q with st := { q.st with t := { q.st.t with state := .failed } } }

def Quic.withAlert (alert : Nat) (q : Quic Step) : Quic Step :=
  { q with st := { q.st with h := { q.st.h with alert := alert } } }

def quicFailLevel (q : Quic Step) : Quic Step :=
  quicFail ({ q with errorCode := quicProtocolViolation }.withAlert Alert.unexpectedMessage)

/-- `quic_refuse_unread`: what it writes before the failure. -/
def quicRefuseUnread (q : Quic Step) : Quic Step :=
  let keyUpdate := q.st.rx.window.head? == some (byte hsKeyUpdate)
  ({ q with errorCode := if keyUpdate then q.errorCode else quicProtocolViolation }).withAlert
    Alert.unexpectedMessage

/-! ### Keys -/

def announce (level : Nat) (direction : KeyDirection) (q : Quic Step) : Quic Step :=
  { q with
    levelsReady := (level, direction) :: q.levelsReady
    st := { q.st with t := { q.st.t with
      calls := q.st.t.calls ++ [.onLevelReady level direction] } } }

/-- `install_handshake_keys` without its announcements, from the read and the
write secret. -/
def deriveHandshakeKeys (read write : Bytes) (q : Quic Step) : Quic Step :=
  let version := q.st.t.quicNegotiatedVersion
  let suite := q.st.t.suite
  { q with
    handshakeRx := quicKeysInitSuite e version read suite
    handshakeHpRx := quicHpKeyInitSuite e version read suite
    handshakeTx := quicKeysInitSuite e version write suite
    handshakeHpTx := quicHpKeyInitSuite e version write suite }

/-- `install_application_keys` of either role without its announcements. -/
def deriveApplicationKeys (q : Quic Step) : Quic Step :=
  let version := q.st.t.quicNegotiatedVersion
  let suite := q.st.t.suite
  let current := quicKeysInitSuite e version q.st.t.rdSecret suite
  let (rdSecret, next) := quicKeysUpdate e version q.st.t.rdSecret current
  { q with
    appTx := quicKeysInitSuite e version q.st.t.wrSecret suite
    appHpTx := quicHpKeyInitSuite e version q.st.t.wrSecret suite
    appHpRx := quicHpKeyInitSuite e version q.st.t.rdSecret suite
    appRx := { q.appRx with current := current, next := next }
    appSecrets := (q.st.t.wrSecret, q.st.t.rdSecret)
    st := { q.st with t := { q.st.t with rdSecret := rdSecret } } }

def quicKeyUpdate : Proc (Quic Step) Rc Unit := fun q =>
  if q.st.t.state ≠ .connected then (.error .einval, q)
  else
    let version := q.st.t.quicNegotiatedVersion
    let (wrSecret, appTx) := quicKeysUpdate e version q.st.t.wrSecret q.appTx
    let (rdSecret, next) := quicKeysUpdate e version q.st.t.rdSecret q.appRx.next
    (.ok (), { q with
      appTx := appTx
      keyPhase := q.keyPhase ^^^ 1
      appRx := { previous := q.appRx.current, current := q.appRx.next, next := next }
      st := { q.st with t := { q.st.t with wrSecret := wrSecret, rdSecret := rdSecret } } })

def quicDropPreviousKeys (q : Quic Step) : Quic Step :=
  { q with appRx := { q.appRx with previous := .wiped } }

def quicInitialKeys (dcid : Bytes) : Proc (Quic Step) Rc Unit := fun q =>
  if quicDead q || decide (dcid.length > quicDcidMax) then (.error .einval, q)
  else (.ok (), { q with
    initialDcid := dcid
    levelsReady := (levelInitial, .write) :: (levelInitial, .read) :: q.levelsReady })

def quicDiscard (level : Nat) : Proc (Quic Step) Rc Unit := fun q =>
  if level > levelApplication then (.error .einval, q)
  else
    let q :=
      if level = levelInitial then { q with initialDcid := [] }
      else if level = levelHandshake then
        { q with
          handshakeRx := .wiped, handshakeTx := .wiped
          handshakeHpRx := .wiped, handshakeHpTx := .wiped }
      else
        { q with appTx := .wiped, appRx := .wiped, appHpRx := .wiped, appHpTx := .wiped }
    (.ok (), { q with levelsReady := q.levelsReady.filter fun bit => bit.1 != level })

def quicClose (q : Quic Step) : Quic Step :=
  let q := quicWipe q
  { q with st := { q.st with t := { q.st.t with state := .closed } } }

/-! ### Initial packets -/

def initialSalt (version : Nat) : Bytes :=
  if version = quicVersion2 then
    [0x0d,0xed,0xe3,0xde,0xf7,0x00,0xa6,0xdb,0x81,0x93,0x81,0xbe,0x6e,0x26,0x9d,0xcb,0xf9,0xbd,0x2e,
     0xd9]
  else
    [0x38,0x76,0x2c,0xf7,0xf5,0x59,0x34,0xb3,0x4d,0x17,0x9a,0xe6,0xa4,0xc8,0x0c,0xad,0xcc,0xbb,0x7f,
     0x0a]

structure InitialKey where
  key : Bytes
  iv : Bytes
  hp : Bytes

def aesPublicKeyInitial (version : Nat) (dcid : Bytes) (endpoint : Endpoint) : InitialKey :=
  let initialSecret := hkdfExtract e.toCrypto sha256Len (initialSalt version) dcid
  let label := match endpoint with | .client => "client in" | .server => "server in"
  let secret := e.hkdfExpandLabel sha256Len initialSecret label [] sha256Len
  let labels := quicVersionLabels version
  { key := fitTo 16 (e.hkdfExpandLabel sha256Len secret labels.key [] 16)
    iv := fitTo 12 (e.hkdfExpandLabel sha256Len secret labels.iv [] 12)
    hp := fitTo 16 (e.hkdfExpandLabel sha256Len secret labels.hp [] 16) }

def quicInitialSeal (endpoint : Endpoint) (version : Nat) (dcid : Bytes) (pn pnLen : Nat)
    (hdr pt : Bytes) (cap : Nat) : Except Rc Bytes :=
  if !quicVersionDerived version then .error .einval
  else
    let k := aesPublicKeyInitial e version dcid endpoint
    if pnLen = 0 ∨ pnLen > quicPnMaxLen ∨ hdr.length < pnLen then .error .einval
    else if pt.length < quicPnMaxLen - pnLen then .error .einval
    else if cap < hdr.length + pt.length + aeadTag then .error .ecap
    else
      let out := hdr ++ e.aeadSeal true k.key (nonceOf k.iv pn) hdr pt
      let pnOff := hdr.length - pnLen
      let sample := (out.drop (pnOff + quicPnMaxLen)).take quicHpSampleLen
      .ok (quicHeaderProtect out pnOff pnLen levelInitial (e.hpMask true k.hp sample))

def quicInitialOpen (endpoint : Endpoint) (version : Nat) (dcid pkt : Bytes) (pnOff : Nat)
    (largestPn : UInt64) : Except Rc QuicOpened :=
  if !quicVersionDerived version then .error .einval
  else if pkt.length < pnOff + (quicPnMaxLen + quicHpSampleLen) then .error .quicDiscard
  else
    let k := aesPublicKeyInitial e version dcid endpoint.peer
    let sample := (pkt.drop (pnOff + quicPnMaxLen)).take quicHpSampleLen
    let (clear, pnLen) := quicHeaderUnprotect pkt pnOff levelInitial (e.hpMask true k.hp sample)
    let pn := quicPnDecode largestPn (quicPnRead clear pnOff pnLen) pnLen
    match e.aeadOpen true k.key (nonceOf k.iv pn.toNat) (clear.take (pnOff + pnLen))
        (clear.drop (pnOff + pnLen)) with
    | none => .error .quicDiscard
    | some pt => .ok { keySet := quicKeyCurrent, pn := pn, hdr := clear.take (pnOff + pnLen)
                       pt := pt }

/-! ### Packet calls -/

def versionOk (q : Quic Step) (level version : Nat) : Bool :=
  version == q.st.t.quicNegotiatedVersion ||
    (level == levelInitial && version == q.st.t.cfg.quicOriginalVersion)

def sealAtLevel (level version pn pnLen : Nat) (hdr pt : Bytes) (cap : Nat) :
    Proc (Quic Step) Rc Bytes := fun q =>
  if decide (level > levelApplication) || !versionOk q level version || !q.ready level .write then
    (.error .einval, q)
  else if level = levelHandshake then
    match quicPacketSeal e q.handshakeTx q.handshakeHpTx level 0 pn pnLen hdr pt cap with
    | .error rc => (.error rc, q)
    | .ok (out, keys) => (.ok out, { q with handshakeTx := keys })
  else if level = levelApplication then
    match quicPacketSeal e q.appTx q.appHpTx level q.keyPhase.toNat pn pnLen hdr pt cap with
    | .error rc => (.error rc, q)
    | .ok (out, keys) => (.ok out, { q with appTx := keys })
  else if quicConfidentialityLimitReached q.initialSealed then (.error .einval, q)
  else
    match quicInitialSeal e q.endpoint version q.initialDcid pn pnLen hdr pt cap with
    | .error rc => (.error rc, q)
    | .ok out => (.ok out, { q with initialSealed := q.initialSealed + 1 })

def quicSeal (level version pn pnLen : Nat) (hdr pt : Bytes) (cap : Nat) :
    Proc (Quic Step) Rc Bytes := fun q =>
  if quicDead q then (.error .einval, q) else sealAtLevel e level version pn pnLen hdr pt cap q

def quicSealClose (level version pn pnLen : Nat) (hdr pt : Bytes) (cap : Nat) :
    Proc (Quic Step) Rc Bytes := fun q =>
  if q.st.t.state ≠ .failed ∨ hdr.length + pt.length + aeadTag > quicCloseMax then
    (.error .einval, q)
  else
    match sealAtLevel e level version pn pnLen hdr pt cap q with
    | (.error rc, q) => (.error rc, q)
    | (.ok out, q) => (.ok out, quicWipeWriteKeys level q)

def openAtLevel (level version : Nat) (pkt : Bytes) (pnOff : Nat)
    (largestPn currentPhaseLowestPn : UInt64) (q : Quic Step) : Except Rc QuicOpened :=
  if level = levelApplication then
    (quicPacketOpenApplication e q.appRx q.appHpRx q.keyPhase pkt pnOff largestPn
      currentPhaseLowestPn).elim (.error .quicDiscard) .ok
  else if level = levelHandshake then
    (quicPacketOpenHandshake e q.handshakeRx q.handshakeHpRx pkt pnOff largestPn).elim
      (.error .quicDiscard) .ok
  else quicInitialOpen e q.endpoint version q.initialDcid pkt pnOff largestPn

def quicOpen (level version : Nat) (pkt : Bytes) (pnOff : Nat)
    (largestPn currentPhaseLowestPn : UInt64) : Proc (Quic Step) Rc QuicOpened := fun q =>
  if quicDead q || decide (level > levelApplication) || !versionOk q level version ||
      !q.ready level .read then (.error .einval, q)
  else if level = levelApplication ∧ q.st.t.state ≠ .connected then (.error .einval, q)
  else if pkt.length < pnOff + (quicPnMaxLen + quicHpSampleLen) then (.error .quicDiscard, q)
  else
    match openAtLevel e level version pkt pnOff largestPn currentPhaseLowestPn q with
    | .ok opened => (.ok opened, q)
    | .error .quicDiscard =>
      let q := { q with openFailures := q.openFailures + 1 }
      if quicIntegrityLimitExceeded q.openFailures then
        (.error .quicAeadLimit, quicFail (q.withAlert Alert.badRecordMac))
      else (.error .quicDiscard, q)
    | .error rc => (.error rc, q)

/-! ### Handshake bytes -/

/-- What the two roles do differently with CRYPTO bytes: the step a whole
message takes, and whether a step leaves no byte behind it unread. -/
structure QuicDriver (Step : Type) where
  advance : Proc (Quic Step) Rc Unit
  endsInput : Nat → Quic Step → Bool

namespace QuicDriver

variable (d : QuicDriver Step)

/-- A failed assertion stops the program; every other failure fails the session. -/
def stopped (rc : Rc) (q : Quic Step) : Quic Step := if rc = .assertFail then q else quicFail q

/-- A turn of `drive` once what fits is fed: the bytes that did not fit, and the
turns behind this one. -/
def turn (left : Bytes) (more : Proc (Quic Step) Rc Unit) : Proc (Quic Step) Rc Unit := fun q =>
  match hsrPeekMessage q.st.t.cfg.bufLen q.st.rx.window with
  | .ok none => (.ok (), q)
  | .error (rc, alert) => (.error rc, quicFail (q.withAlert alert))
  | .ok (some _) =>
    match d.advance q with
    | (.error rc, next) => (.error rc, stopped rc next)
    | (.ok _, next) =>
      if d.endsInput q.rxLevel next &&
          (next.st.rx.ptOff != next.st.rx.ptLen || left != []) then
        (.error .eproto, quicFail (quicRefuseUnread next))
      else more next

/-- The loop of `drive`: it feeds what fits and takes a message in every turn. -/
def driveLoop : Nat → Bytes → Proc (Quic Step) Rc Unit
  | 0, _ => pure ()
  | fuel + 1, p => fun q =>
    let (took, st) := hsrFeed p q.st
    turn d (p.drop took) (driveLoop fuel (p.drop took)) { q with st := st }

def drive (p : Bytes) : Proc (Quic Step) Rc Unit := fun q =>
  driveLoop d (q.st.rx.window.length + p.length + 1) p q

/-- The level checks of `quic_crypto_in` and `srv_quic_crypto_in`. -/
def atLevel (level : Nat) (p : Bytes) : Proc (Quic Step) Rc Unit := fun q =>
  if level > q.rxLevel then
    if q.st.rx.ptOff = q.st.rx.ptLen then (.error .einval, q) else (.error .eproto, quicFailLevel q)
  else if level < q.rxLevel then (.error .eproto, quicFailLevel q)
  else drive d p q

end QuicDriver

end QuicSession

end Chapulin
