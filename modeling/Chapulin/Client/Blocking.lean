/-
The tcp-blocking client (`handshake.c`, `tls_connect` of `tls.c`): the whole
handshake in one call.
-/

import Chapulin.Auth
import Chapulin.Post

namespace Chapulin

open Lib

section BlockingClient

variable (e : Env)

def sendHandshakeRecord (rec : Bytes) : Act Unit := fun s =>
  match sendStaged rec s with
  | (.error rc, s) => stopAlert Alert.internalError rc s
  | (.ok _, s) => (.ok (), s)

/-- `send_client_hello`: the first hello's record carries the older version. -/
def sendClientHello (hello : Bytes) (retry : Bool) : Act Unit :=
  sendHandshakeRecord
    ([byte recHandshake,0x03,if retry then 0x03 else 0x01] ++ be16 hello.length ++ hello)

def sendClientFinished (msg : Bytes) : Act Unit := fun s =>
  match recSeal e s.t.wr recHandshake msg (txCap e.build) with
  | none => stopAlert Alert.internalError .ecap s
  | some (rec, wr) => sendHandshakeRecord rec { s with t := { s.t with wr := wr } }

/-- The second round of `hello_exchange`, `send_retry_hello` first. -/
def retryExchange : Act ServerHelloInfo := do
  match ← onCore (hsfBuildClientHello e) with
  | none => Proc.stop .ecap
  | some hello =>
    sendClientHello hello true
    let info ← hsfReadServerHello e
    if info.hrr then stopAlert Alert.unexpectedMessage .eproto else pure info

def helloExchange (hello : Bytes) : Act ServerHelloInfo := do
  sendClientHello hello false
  let first ← hsfReadServerHello e
  let info ← (if first.hrr then retryExchange e else pure first)
  onCore (hsfAcceptServerHello e info)
  pure info

/-- The messages of `run` under the handshake keys, through the server's Finished. -/
def serverMessages : Act Unit := do
  hsfReadEncryptedExtensions e
  let s ← Proc.get
  (if s.t.pskSelected then pure () else hsaServerAuth e)
  hsfReadFinished e
  hsrCheckRecordEnd

def run (hello : Bytes) : Act Unit := do
  let info ← helloExchange e hello
  hsrCheckRecordEnd
  onCore (hsfDeriveHandshakeSecrets e info)
  onCore (installHandshakeKeys e)
  serverMessages e
  onCore (commitEpoch e)
  let finished ← onCore (hsfComplete e)
  sendClientFinished e finished
  onCore (installTrafficKeys e)
  Proc.modify fun s =>
    { s with rx := s.rx.reset, t := { s.t with state := .connected } }

/-- `ch_handshake`, on a session whose handshake state is `clientStart`.  A
failed assertion stops the program where it stands. -/
def chHandshake : Act Unit := fun s =>
  match onCore (do hsfBegin e; hsfBuildClientHello e) s with
  | (.error rc, s) => (.error rc, s)
  | (.ok none, s) => (.error .einval, { s with h := .wiped, t := { s.t with state := .failed } })
  | (.ok (some hello), s) =>
    match run e hello s with
    | (.ok _, s) => (.ok (), { s with h := .wiped })
    | (.error .assertFail, s) => (.error .assertFail, s)
    | (.error rc, s) => failWith e s.h.alert rc { s with h := .wiped }

/-- `tls_connect` over a configuration, its buffer and its transport. -/
def tlsConnect (cfg : Cfg) (buf : Bytes) (io : Io) : Except Rc Unit × St :=
  match tcpClientSetup e cfg with
  | (.error rc, t) => (.error rc, blankSt e { t with state := .failed } buf io)
  | (.ok t, _) => chHandshake e ((blankSt e t buf io).putCore (clientStart e e.build.webpki t))

end BlockingClient

end Chapulin
