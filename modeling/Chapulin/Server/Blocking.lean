/-
The tcp-blocking server (`srv_handshake.c`, `srv_accept` of `srv.c`): the whole
handshake in one call.
-/

import Chapulin.Post
import Chapulin.Server.Flight

namespace Chapulin

open Lib

section BlockingServer

variable (e : Env)

def retryRound (ch : ClientHello) (sel : Selection) : Act (ClientHello × Selection) := do
  srvSendHelloRetryRequest e ch sel
  srvSendCompatCcs e ch
  let ch ← srvReadClientHello e
  let sel ← onCore (srvCheckRetryHello e ch sel)
  hsrCheckRecordEnd
  srvSendServerHello e ch sel
  pure (ch, sel)

def srvHelloExchange : Act (ClientHello × Selection) := do
  onCore (srvBegin e)
  let ch ← srvReadClientHello e
  let sel ← onCore (srvSelect e ch)
  if sel.needRetry then retryRound e ch sel
  else
    hsrCheckRecordEnd
    srvSendServerHello e ch sel
    srvSendCompatCcs e ch
    pure (ch, sel)

def srvAuthMessages (sel : Selection) : Act Unit :=
  if sel.pskSelected then pure ()
  else do
    srvSendCertificate e sel
    srvSendCertificateVerify e sel

def srvProtectedFlight (sel : Selection) : Act Unit := do
  srvSendEncryptedExtensions e sel
  srvAuthMessages e sel
  srvSendFinished e

def authFlight (sel : Selection) : Act Unit := do
  srvProtectedFlight e sel
  srvReadClientFinished e
  hsrCheckRecordEnd

def srvRun : Act Unit := do
  let (ch, sel) ← srvHelloExchange e
  onCore (srvStoreSelection e ch sel)
  onCore (srvDeriveHandshakeSecrets e ch sel)
  authFlight e sel
  srvComplete e
  srvSendNewSessionTicket e

def srvStart (cfg : Cfg) : Core :=
  { t := { Tls.fresh cfg with
      server := true
      nowSeconds := cfg.nowSeconds.getD 0
      peerLimit := e.build.txPt
      alpnSelected := alpnNone }
    h := { Hs.wiped with
      alert := Alert.decodeError
      recordSizeLimit := recordSizeLimitOf cfg.bufLen } }

/-- `srv_handshake`, on a session whose handshake state is `srvStart`. -/
def srvHandshake : Act Unit := fun s =>
  match srvRun e s with
  | (.ok _, s) => (.ok (), { s with h := .wiped })
  | (.error .assertFail, s) => (.error .assertFail, s)
  | (.error rc, s) => failWith e s.h.alert rc { s with h := .wiped }

/-- `srv_accept` over a configuration, its buffer and its transport. -/
def srvAccept (cfg : Cfg) (buf : Bytes) (io : Io) : Except Rc Unit × St :=
  if !srvConfigOk e cfg then
    (.error .einval, blankSt e { Tls.fresh cfg with server := true, state := .failed } buf io)
  else srvHandshake e ((blankSt e (Tls.fresh cfg) buf io).putCore (srvStart e cfg))

end BlockingServer

end Chapulin
