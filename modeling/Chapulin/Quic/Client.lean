/-
The QUIC client (`quic.c`, `quic_step.c`, `quic_config.c`).
-/

import Chapulin.Client.Nonblocking
import Chapulin.Quic.Session

namespace Chapulin

open Lib

abbrev ClientQuic := Quic ClientStep

section QuicClient

variable (e : Env)

def announceLevel (level : Nat) (q : ClientQuic) : ClientQuic :=
  announce level .write (announce level .read q)

def setQuicStep (step : ClientStep) : Proc ClientQuic Rc Unit :=
  Proc.modify fun q => { q with step := step }

def stageCrypto (level : Nat) (msg : Bytes) (q : ClientQuic) : ClientQuic :=
  { q with
    st := { q.st with io := { q.st.io with tx := copyAt q.st.io.tx 0 msg } }
    txLen := msg.length
    txLevel := level }

/-- The retry half of `step_server_hello`. -/
def quicStepRetry : Proc ClientQuic Rc Unit := do
  let q ← Proc.get
  if q.step = .awaitRetryHello then onQuic (stopAlert Alert.unexpectedMessage .eproto)
  else
    match ← onQuic (onCore (hsfBuildClientHello e)) with
    | none => Proc.stop .ecap
    | some hello =>
      Proc.modify (stageCrypto levelInitial hello)
      setQuicStep .awaitRetryHello

def quicInstallHandshakeKeys (q : ClientQuic) : ClientQuic :=
  announceLevel levelHandshake (deriveHandshakeKeys e q.st.h.sHs q.st.h.cHs q)

def quicInstallApplicationKeys (q : ClientQuic) : ClientQuic :=
  announceLevel levelApplication (deriveApplicationKeys e q)

def quicStepServerHello : Proc ClientQuic Rc Unit := do
  let info ← onQuic (hsfReadServerHello e)
  if info.hrr then quicStepRetry e
  else
    onQuic (onCore (hsfAcceptServerHello e info))
    onQuic (onCore (hsfDeriveHandshakeSecrets e info))
    Proc.modify (quicInstallHandshakeKeys e)
    Proc.modify fun q => { q with rxLevel := levelHandshake }
    setQuicStep .awaitEncryptedExtensions

def quicStepEncryptedExtensions : Proc ClientQuic Rc Unit := do
  onQuic (hsfReadEncryptedExtensions e)
  let q ← Proc.get
  setQuicStep (if q.st.t.pskSelected then .awaitFinished else .awaitCertificate)

def quicStepCertificate : Proc ClientQuic Rc Unit := do
  onQuic (hsaServerAuth e)
  setQuicStep .awaitCertificateVerify

def quicStepCertificateVerify : Proc ClientQuic Rc Unit := do
  onQuic (hsaReadCertificateVerify e)
  setQuicStep .awaitFinished

def quicStepFinished : Proc ClientQuic Rc Unit := do
  onQuic (hsfReadFinished e)
  onQuic (onCore (commitEpoch e))
  let finished ← onQuic (onCore (hsfComplete e))
  Proc.modify (stageCrypto levelHandshake finished)
  Proc.modify (quicInstallApplicationKeys e)
  Proc.modify fun q => { q with rxLevel := levelApplication, st := { q.st with h := .wiped } }
  setQuicStep .complete

/-- `step_complete` after the message is read: a ticket, and nothing else. -/
def onLateMessage (raw : Bytes) : Proc ClientQuic Rc Unit := fun q =>
  if msgType raw = hsNewSessionTicket then
    let (result, p) := handleTicket e (msgBody raw)
      { t := q.st.t, alert := q.st.h.alert, errorCode := q.errorCode }
    (result, { q with
      errorCode := p.errorCode
      st := { q.st with t := p.t, h := { q.st.h with alert := p.alert } } })
  else
    let errorCode :=
      if msgType raw = hsCertificateRequest then quicProtocolViolation else q.errorCode
    (.error .eproto, ({ q with errorCode := errorCode }).withAlert Alert.unexpectedMessage)

def quicStepComplete : Proc ClientQuic Rc Unit := do
  let raw ← onQuic (hsrNextMsg e)
  onLateMessage e raw

def hsqAdvance : Proc ClientQuic Rc Unit := fun q =>
  match q.step with
  | .awaitServerHello | .awaitRetryHello => quicStepServerHello e q
  | .awaitEncryptedExtensions => quicStepEncryptedExtensions e q
  | .awaitCertificate => quicStepCertificate e q
  | .awaitCertificateVerify => quicStepCertificateVerify e q
  | .awaitFinished => quicStepFinished e q
  | .complete => quicStepComplete e q

def quicClientDriver : QuicDriver ClientStep where
  advance := hsqAdvance e
  endsInput := fun was q => q.rxLevel != was || q.txLen != 0

def quicCryptoIn (level : Nat) (p : Bytes) : Proc ClientQuic Rc Unit := fun q =>
  if quicDead q then (.error .eproto, q)
  else if level > levelApplication ∨ q.txLen ≠ 0 then (.error .einval, q)
  else (quicClientDriver e).atLevel level p q

def quicCryptoOut (level cap : Nat) : Proc ClientQuic Rc Bytes := fun q =>
  if quicDead q || decide (level > levelApplication) then (.error .einval, q)
  else if q.txLen = 0 ∨ level ≠ q.txLevel then (.ok [], q)
  else if cap < q.txLen then (.error .ecap, q)
  else
    let out := q.st.io.tx.take q.txLen
    let q := { q with txLen := 0 }
    if q.step = .complete ∧ q.st.t.state = .start then
      (.ok out, { q with st := { q.st with t := { q.st.t with state := .connected } } })
    else (.ok out, q)

def switchOpen (q : ClientQuic) : Bool :=
  q.endpoint == .client && q.st.t.state == .start && q.step == .awaitServerHello &&
    q.st.rx.ptLen == 0 && q.st.t.quicNegotiatedVersion == q.st.t.cfg.quicOriginalVersion

def quicSwitchVersion (version : Nat) : Proc ClientQuic Rc Unit := fun q =>
  if !switchOpen q || !quicVersionDerived version || version == q.st.t.quicNegotiatedVersion then
    (.error .einval, q)
  else (.ok (),
    { q with st := { q.st with t := { q.st.t with quicNegotiatedVersion := version } } })

def takeClock (cfg : Cfg) (t : Tls) : Tls :=
  if e.build.webpki then { t with nowSeconds := cfg.nowSeconds.getD 0 } else t

def quicConfigOk (cfg : Cfg) : Except Rc Unit × Tls :=
  match hspostPresentTicket e cfg with
  | none => (.error .einval, Tls.fresh cfg)
  | some cfg =>
    let t := Tls.fresh cfg
    if (e.build.cpuRuntime && !cfg.cpuBitsOk) || !trustConfigOk e cfg ||
        !transportConfigOk quicVersionDerived cfg || cfg.alpnProtocols == [] ||
        !alpnNamesOk cfg.alpnProtocols || decide (cfg.bufLen < e.build.minRxbuf) ||
        !hspostTicketAgeOk cfg ||
        !cfg.ticket.all (fun ticket => ticket.quicVersion == cfg.quicOriginalVersion) ||
        (!e.build.kexMlkem && cfg.requirePq) then (.error .einval, t)
    else
      let t := takeClock e cfg t
      if e.build.webpki && !webpkiClockOk cfg t.nowSeconds then (.error .einval, t)
      else tlsiEpochInit e cfg t

/-- The state `hsf_begin` starts from. -/
def quicClientStart (cfg : Cfg) (t : Tls) : Core :=
  { t := { t with
      quicNegotiatedVersion := cfg.quicOriginalVersion
      takesTickets := if e.build.webpki then cfg.onTicket else t.takesTickets
      ticketConfigHash := if e.build.webpki && cfg.onTicket then
        webpkiTicketConfigHash e cfg else t.ticketConfigHash
      alpnSelected := alpnNone }
    h := { Hs.wiped with alert := Alert.decodeError } }

def quicBlankSt (t : Tls) (buf : Bytes) : St :=
  { t := t, h := .wiped, rx := .fresh buf
    io := { inbox := [], sendPlan := [], sent := [], crypto := [], tx := zeros e.build.txStage } }

def quicRefuseInit (t : Tls) (buf : Bytes) : Except Rc Unit × ClientQuic :=
  (.error .einval, .fresh (quicBlankSt e (refusedTls t) buf) .awaitServerHello .client)

def quicInit (cfg : Cfg) (buf : Bytes) : Except Rc Unit × ClientQuic :=
  match quicConfigOk e cfg with
  | (.error _, t) => quicRefuseInit e t buf
  | (.ok _, t) =>
    match (do hsfBegin e; hsfBuildClientHello e : Handler (Option Bytes))
        (quicClientStart e cfg t) with
    | (.error rc, c) =>
      (.error rc, .fresh ((quicBlankSt e t buf).putCore c) .awaitServerHello .client)
    | (.ok none, c) => quicRefuseInit e c.t buf
    | (.ok (some hello), c) =>
      (.ok (), stageCrypto levelInitial hello
        (.fresh ((quicBlankSt e t buf).putCore c) .awaitServerHello .client))

end QuicClient

end Chapulin
