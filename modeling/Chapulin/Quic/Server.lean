/-
The QUIC server (`srv_quic.c`).
-/

import Chapulin.Quic.Client
import Chapulin.Server.Nonblocking

namespace Chapulin

open Lib Alert

abbrev ServerQuic := Quic ServerStep

section QuicServer

variable (e : Env)

def setLevel (level : Nat) : Handler Unit := modifyHs fun h => { h with level := level }

def setSrvQuicStep (step : ServerStep) : Proc ServerQuic Rc Unit :=
  Proc.modify fun q => { q with step := step }

def srvQuicInstallHandshakeKeys (q : ServerQuic) : ServerQuic :=
  announce levelHandshake .write (announce levelHandshake .read
    (deriveHandshakeKeys e q.st.h.cHs q.st.h.sHs q))

/-- `install_application_keys`: the read side opens with the client's Finished. -/
def srvQuicInstallApplicationKeys (q : ServerQuic) : ServerQuic :=
  announce levelApplication .write (deriveApplicationKeys e q)

def takeTransportParams (ch : ClientHello) : Handler Unit := fun c =>
  match ch.transportParams with
  | none => refuse missingExtension .eproto c
  | some params =>
    (.ok (), { c with t := { c.t with
      calls := if c.t.cfg.onTransportParams then c.t.calls ++ [.onTransportParams params]
        else c.t.calls } })

def chooseVersion : Handler Unit := fun c =>
  match c.t.cfg.srv.chooseVersion with
  | none => (.ok (), c)
  | some version =>
    if !quicVersionDerived version then refuse internalError .eio c
    else (.ok (), { c with t := { c.t with quicNegotiatedVersion := version } })

def srvQuicFlight (ch : ClientHello) (sel : Selection) : Proc ServerQuic Rc Unit := do
  onQuic (onCore (setLevel levelInitial))
  onQuic (srvSendServerHello e ch sel)
  onQuic (onCore (srvStoreSelection e ch sel))
  onQuic (onCore (srvDeriveHandshakeSecrets e ch sel))
  Proc.modify (srvQuicInstallHandshakeKeys e)
  onQuic (onCore (setLevel levelHandshake))
  onQuic (srvProtectedFlight e sel)
  Proc.modify (srvQuicInstallApplicationKeys e)
  Proc.modify fun q => { q with rxLevel := levelHandshake }
  setSrvQuicStep .awaitClientFinished

def quicStepClientHello : Proc ServerQuic Rc Unit := do
  let ch ← onQuic (srvReadClientHello e)
  onQuic (onCore (takeTransportParams ch))
  onQuic (onCore chooseVersion)
  let sel ← onQuic (onCore (srvSelect e ch))
  if sel.needRetry then
    onQuic (onCore (setLevel levelInitial))
    onQuic (srvSendHelloRetryRequest e ch sel)
    setSrvQuicStep .awaitRetryHello
  else srvQuicFlight e ch sel

def quicStepRetryHello : Proc ServerQuic Rc Unit := do
  let ch ← onQuic (srvReadClientHello e)
  let sel ← onQuic (onCore (srvCheckRetryHello e ch .zero))
  srvQuicFlight e ch sel

/-- What `step_client_finished` does with bytes behind the Finished. -/
def refuseUnread : Proc ServerQuic Rc Unit := fun q =>
  if q.st.rx.ptOff ≠ q.st.rx.ptLen then (.error .eproto, quicRefuseUnread q) else (.ok (), q)

def quicStepClientFinished : Proc ServerQuic Rc Unit := do
  onQuic (srvReadClientFinished e)
  refuseUnread
  onQuic (srvComplete e)
  Proc.modify (announce levelApplication .read)
  Proc.modify fun q => { q with rxLevel := levelApplication }
  setSrvQuicStep .complete
  onQuic (onCore (setLevel levelApplication))
  onQuic (srvSendNewSessionTicket e)
  Proc.modify fun q => { q with st := { q.st with h := .wiped } }

def srvQuicAdvance : Proc ServerQuic Rc Unit := fun q =>
  match q.step with
  | .awaitClientHello => quicStepClientHello e q
  | .awaitRetryHello => quicStepRetryHello e q
  | .awaitClientFinished => quicStepClientFinished e q
  | .complete => onQuic (stopAlert unexpectedMessage .eproto) q

def quicServerDriver : QuicDriver ServerStep where
  advance := srvQuicAdvance e
  endsInput := fun was q => q.rxLevel != was

def srvQuicCryptoIn (level : Nat) (p : Bytes) : Proc ServerQuic Rc Unit := fun q =>
  if quicDead q then (.error .eproto, q)
  else if level > levelApplication then (.error .einval, q)
  else (quicServerDriver e).atLevel level p q

/-- The state `srv_begin` starts from. -/
def srvQuicStart (cfg : Cfg) : Core :=
  { t := { Tls.fresh cfg with
      nowSeconds := cfg.nowSeconds.getD 0
      quicNegotiatedVersion := cfg.quicOriginalVersion
      alpnSelected := alpnNone }
    h := { Hs.wiped with alert := decodeError } }

/-- `srv_quic_init` over a configuration, its buffer and what its output
callback answers. -/
def srvQuicInit (cfg : Cfg) (buf : Bytes) (plan : List Nat) : Except Rc Unit × ServerQuic :=
  if !srvConfigOk e cfg || !quicVersionDerived cfg.quicOriginalVersion then
    (.error .einval,
      .fresh (quicBlankSt e (refusedTls (Tls.fresh cfg)) buf) .awaitClientHello .server)
  else
    match srvBegin e (srvQuicStart cfg) with
    | (result, c) =>
      let st := (quicBlankSt e (Tls.fresh cfg) buf).putCore c
      (result, .fresh { st with io := { st.io with sendPlan := plan } } .awaitClientHello .server)

end QuicServer

end Chapulin
