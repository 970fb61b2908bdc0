/-
The server's flight (`srv_flight.c`, `srv_out.c`, the ticket of `srv_resume.c`):
every message handler the three server drivers share.

A message is built over the session alone and then handed to an output
function, which seals it, splits it or passes it on as the transport wants.
-/

import Chapulin.Server.Select

namespace Chapulin

open Lib Proc Alert

section ServerFlight

variable (e : Env)

/-! ### Output -/

/-- The callback that takes output: whether it took the bytes, and the rest of
its answers. -/
def outAnswer (io : Io) : Bool × List Nat :=
  match io.sendPlan with
  | [] => (true, [])
  | answer :: plan => (answer != 0, plan)

def onRecordOut (p : Bytes) : Proc Io Rc Unit := fun io =>
  let (took, plan) := outAnswer io
  if took then (.ok (), { io with sendPlan := plan, sent := io.sent ++ [p] })
  else (.error .eio, { io with sendPlan := plan })

def onCryptoOut (level : Nat) (p : Bytes) : Proc Io Rc Unit := fun io =>
  let (took, plan) := outAnswer io
  if took then (.ok (), { io with sendPlan := plan, crypto := io.crypto ++ [(level, p)] })
  else (.error .eio, { io with sendPlan := plan })

def orInternalError (out : Proc Io Rc Unit) : Act Unit := fun s =>
  match onIo out s with
  | (.error rc, s) => stopAlert internalError rc s
  | (.ok _, s) => (.ok (), s)

def srvEmit (p : Bytes) : Proc Io Rc Unit :=
  if e.build.transport = .tcpNonblocking then onRecordOut p else ioSendAll p

def srvOutRecord (rec : Bytes) : Act Unit := orInternalError (srvEmit e rec)

/-- `push`, at the level the handshake writes. -/
def pushCrypto (p : Bytes) : Act Unit := fun s => orInternalError (onCryptoOut s.h.level p) s

def stageTx (p : Bytes) (s : St) : St := { s with io := { s.io with tx := copyAt s.io.tx 0 p } }

def srvOutPlain (msg : Bytes) : Act Unit := fun s =>
  if e.build.quic then pushCrypto msg (stageTx msg s)
  else
    let record := recordHeader recHandshake msg.length ++ msg
    srvOutRecord e record (stageTx record s)

def srvOutLimit (t : Tls) : Nat :=
  if e.build.quic then e.build.txPt else min t.peerLimit e.build.txPt

/-- The loop of `srv_out_sealed`; every turn seals at least a byte. -/
def srvOutSealedLoop : Nat → Bytes → Act Unit
  | 0, _ => pure ()
  | fuel + 1, pt => fun s =>
    if pt = [] then (.ok (), s)
    else
      let take := min pt.length (srvOutLimit e s.t)
      match recSeal e s.t.wr recHandshake (pt.take take) (txCap e.build) with
      | none => stopAlert internalError .ecap s
      | some (record, wr) =>
        match srvOutRecord e record (stageTx record { s with t := { s.t with wr := wr } }) with
        | (.error rc, s) => (.error rc, s)
        | (.ok _, s) => srvOutSealedLoop fuel (pt.drop take) s

def srvOutSealed (pt : Bytes) : Act Unit :=
  if e.build.quic then pushCrypto pt else srvOutSealedLoop e pt.length pt

def absorbSelected (hashLen : Nat) (msg : Bytes) : Handler Unit :=
  modifyTls fun t => { t with transcript := transcriptUpdateSelected t.transcript hashLen msg }

/-- The fragmenter over a whole message: a piece of `srv_frag`'s capacity is
hashed and sent when it is full, and the last one when it is flushed. -/
def srvFragLoop : Nat → Bytes → Act Unit
  | 0, _ => pure ()
  | fuel + 1, msg => do
      if msg = [] then pure ()
      else
        let s ← Proc.get
        let take := min msg.length (min (srvOutLimit e s.t) 512)
        onCore (absorbSelected s.t.hashLen (msg.take take))
        srvOutSealed e (msg.take take)
        srvFragLoop fuel (msg.drop take)

/-- `srv_frag_bytes` over all of a message, then `srv_frag_flush`. -/
def srvFrag (msg : Bytes) : Act Unit := srvFragLoop e msg.length msg

/-! ### Hellos -/

def srvBegin : Handler Unit := do
  srvKexBegin e
  modifyTls fun t => { t with transcript := transcriptInit }

def srvNextMsg : Act Bytes := fun s =>
  match hsrNextMsg e s with
  | (.error .ecap, s) => stopAlert internalError .ecap s
  | (.error rc, s) => (.error rc, s)
  | (.ok raw, s) => (.ok raw, s)

def copyHelloFields (ch : ClientHello) (t : Tls) : Tls :=
  { t with
    sessionId := ch.sessionId
    sni := match ch.serverName, t.cfg.srv.sniCap with
      | some name, some cap => if name.length > cap then [] else name
      | _, _ => [] }

def withBinderHashes (t : Tls) (raw : Bytes) (ch : ClientHello) : ClientHello :=
  if ch.truncatedLen = 0 then ch
  else
    let upTo := raw.take (4 + ch.truncatedLen)
    { ch with
      binderHash := transcriptHashAfter e.toCrypto t.transcript sha256Len upTo
      binderHashSha384 := transcriptHashAfter e.toCrypto t.transcript sha384Len upTo }

/-- `srv_read_client_hello` after the message is read. -/
def onClientHello (raw : Bytes) : Handler ClientHello := fun c =>
  if msgType raw ≠ hsClientHello then refuse unexpectedMessage .eproto c
  else
    match srvParseClientHello e.toCrypto e.build (msgBody raw) c.t.cfg.alpnProtocols with
    | .error alert => refuse alert .eproto c
    | .ok parsed =>
      let ch := withBinderHashes e c.t raw parsed
      let t := copyHelloFields ch { c.t with transcript := transcriptUpdate c.t.transcript raw }
      let c := { t := t, h := { c.h with alert := decodeError } }
      if t.cfg.srv.requireServerName && t.sni.length == 0 then
        refuse missingExtension .eproto c
      else (.ok ch, c)

def srvReadClientHello : Act ClientHello := do
  let raw ← srvNextMsg e
  onCore (onClientHello e raw)

/-- `srv_send_hello_retry_request` up to the output. -/
def buildHelloRetryRequest (ch : ClientHello) (sel : Selection) : Handler Bytes := fun c =>
  let ch1 := hsrTranscriptHash e c sel.hashLen
  match srvCookieMint e (c.t.cfg.srv.cookieKey.getD []) sel.suite sel.group ch1 ch.frozen
      sel.hashLen with
  | none => refuse internalError .ecap c
  | some cookie =>
    let c := { c with h := { c.h with cookie := cookie } }
    match srvBuildHelloRetryRequest e.build.txStage sel ch.sessionId cookie with
    | none => refuse internalError .ecap c
    | some msg =>
      (.ok msg, { c with t :=
        { hsrRestartTranscript e sel.hashLen msg c.t with hrrSent := true } })

def srvSendHelloRetryRequest (ch : ClientHello) (sel : Selection) : Act Unit := do
  let msg ← onCore (buildHelloRetryRequest e ch sel)
  srvOutPlain e msg

def srvSendCompatCcs (ch : ClientHello) : Act Unit :=
  if e.build.quic || ch.sessionId.isEmpty then pure ()
  else do
    onCore (modifyTls fun t => { t with compatCcs := true })
    srvOutRecord e srvBuildCompatCcs

def orIllegal {α : Type} (handler : Handler α) : Handler α := fun c =>
  match handler c with
  | (.ok value, c) => (.ok value, c)
  | (.error .assertFail, c) => (.error .assertFail, c)
  | (.error _, c) => refuse illegalParameter .eproto c

/-- `srv_send_server_hello` up to the output. -/
def buildServerHello (ch : ClientHello) (sel : Selection) : Handler Bytes := do
  let share ← orIllegal (srvKexShare e ch sel.group)
  let random ← drawNonzero 32
  match srvBuildServerHello e.build.txStage sel random ch.sessionId share with
  | none => refuse internalError .ecap
  | some msg => do
      absorbSelected sel.hashLen msg
      pure msg

def srvSendServerHello (ch : ClientHello) (sel : Selection) : Act Unit := do
  let msg ← onCore (buildServerHello e ch sel)
  srvOutPlain e msg

/-! ### Secrets and the protected messages -/

def srvStoreSelection (ch : ClientHello) (sel : Selection) : Handler Unit := modifyCore fun c =>
  { t := { c.t with
      suite := sel.suite
      hashLen := sel.hashLen
      group := sel.group
      sigalg := sel.sigalg
      pskSelected := sel.pskSelected
      alpnSelected := ch.alpnSelected
      peerLimit := if !e.build.quic && ch.recordSizeLimit != 0 then
        min ch.recordSizeLimit c.t.peerLimit else c.t.peerLimit }
    h := { c.h with
      recordSizeLimit := if !e.build.quic && ch.recordSizeLimit == 0 then 0
        else c.h.recordSizeLimit } }

def srvDeriveHandshakeSecrets (ch : ClientHello) (sel : Selection) : Handler Unit := fun c =>
  match srvKexSecret e ch sel.group c with
  | (.error rc, c) => (.error rc, c)
  | (.ok none, c) => refuse illegalParameter .eproto c
  | (.ok (some ikm), c) =>
    let early := if sel.pskSelected then c.h.early
      else (ksEarly e.toCrypto sel.hashLen (zeros sel.hashLen) false).1
    let secrets := ksHandshake e.toCrypto sel.hashLen early ikm
      (hsrTranscriptHash e c sel.hashLen)
    let h := { c.h with
      early := []
      handshakeSecret := secrets.secret
      cHs := secrets.client
      sHs := secrets.server }
    if e.build.quic then (.ok (), { c with h := h })
    else
      (.ok (), {
        t := { c.t with
          rd := recDirInitSuite e secrets.client sel.suite
          wr := recDirInitSuite e secrets.server sel.suite
          keys := true
          spent := c.t.spentBoth }
        h := { h with encrypted := true } })

/-- `srv_send_encrypted_extensions` up to the output. -/
def buildEncryptedExtensions (sel : Selection) : Handler Bytes := fun c =>
  let selected := alpnName c.t.cfg c.t.alpnSelected
  let cap := encryptedExtensionsMax e.build
  let msg := if e.build.quic then
      srvBuildEncryptedExtensions cap 0 selected (some c.t.cfg.transportParams)
    else srvBuildEncryptedExtensions cap c.h.recordSizeLimit selected none
  let c := { c with t := { c.t with
    limitSent := if e.build.quic then c.t.limitSent else c.h.recordSizeLimit != 0 } }
  match msg with
  | none => refuse internalError .ecap c
  | some msg =>
    (.ok msg, { c with t := { c.t with
      transcript := transcriptUpdateSelected c.t.transcript sel.hashLen msg } })

def srvSendEncryptedExtensions (sel : Selection) : Act Unit := do
  let msg ← onCore (buildEncryptedExtensions e sel)
  srvOutSealed e msg

def srvSendCertificate (sel : Selection) : Act Unit := fun s =>
  match srvIdentityFor e s.t.cfg sel.sigalg with
  | none => stopAlert internalError .eauth s
  | some id =>
    if id.chain.any fun cert => cert.length > 0xffffff then
      stopAlert internalError .eauth s
    else srvFrag e (certificateMessage id) s

/-- `SRV_SIG_MAX`, or the one length of an ML-DSA signature. -/
def sigMax (sigalg : Nat) : Nat := if sigalg = sigalgMldsa87 then 4627 else rsaModulusMax e

/-- `srv_send_certificate_verify` up to the output. -/
def buildCertificateVerify (sel : Selection) : Handler Bytes := fun c =>
  match srvSignCertificateVerify e sel.sigalg sel.hashLen (hsrTranscriptHash e c sel.hashLen) c with
  | (.error rc, c) => (.error rc, c)
  | (.ok sig, c) =>
    match srvBuildCertificateVerify (8 + sigMax e sel.sigalg) sel.sigalg sig with
    | none => refuse internalError .ecap c
    | some msg => (.ok msg, c)

def srvSendCertificateVerify (sel : Selection) : Act Unit := do
  let msg ← onCore (buildCertificateVerify e sel)
  if sel.sigalg = sigalgMldsa87 then srvFrag e msg
  else do
    onCore (absorbSelected sel.hashLen msg)
    srvOutSealed e msg

/-- The Finished message of `srv_send_finished`. -/
def buildFinished : Handler Bytes := fun c =>
  let verifyData := ksVerifyData e.toCrypto c.t.hashLen c.h.sHs
    (hsrTranscriptHash e c c.t.hashLen)
  let msg := srvBuildFinished (fitTo c.t.hashLen verifyData)
  (.ok msg, { c with t := { c.t with
    transcript := transcriptUpdateSelected c.t.transcript c.t.hashLen msg } })

/-- The secrets `srv_send_finished` derives once the message is out. -/
def srvMasterSecrets : Handler Unit := modifyCore fun c =>
  let hash := hsrTranscriptHash e c c.t.hashLen
  let secrets := ksMaster e.toCrypto c.t.hashLen c.h.handshakeSecret hash
  { t := { c.t with
      rdSecret := secrets.client
      wrSecret := secrets.server
      expMaster := if e.build.exporter then
        ksExpMaster e.toCrypto c.t.hashLen secrets.secret hash else c.t.expMaster
      wr := if e.build.quic then c.t.wr else recDirInitSuite e secrets.server c.t.suite
      spent := if e.build.quic then c.t.spent else c.t.spentWr }
    h := { c.h with master := secrets.secret } }

def srvSendFinished : Act Unit := do
  let msg ← onCore (buildFinished e)
  srvOutSealed e msg
  onCore (srvMasterSecrets e)

/-- `srv_read_client_finished` after the message is read; `hash` is the
transcript hash taken before. -/
def onClientFinished (hash raw : Bytes) : Handler Unit := fun c =>
  if msgType raw ≠ hsFinished ∨ raw.length ≠ 4 + c.t.hashLen then
    refuse unexpectedMessage .eproto c
  else if fitTo c.t.hashLen (ksVerifyData e.toCrypto c.t.hashLen c.h.cHs hash) ≠ msgBody raw then
    refuse decryptError .eauth c
  else
    (.ok (), { c with t := { c.t with
      transcript := transcriptUpdateSelected c.t.transcript c.t.hashLen raw } })

def srvReadClientFinished : Act Unit := do
  let before ← Proc.gets St.core
  let hash := hsrTranscriptHash e before before.t.hashLen
  let raw ← srvNextMsg e
  onCore (onClientFinished e hash raw)

def srvComplete : Act Unit := Proc.modify fun s =>
  { s with
    t := { s.t with
      rd := if e.build.quic then s.t.rd else recDirInitSuite e s.t.rdSecret s.t.suite
      spent := if e.build.quic then s.t.spent else s.t.spentRd
      state := .connected }
    rx := s.rx.reset }

/-! ### The ticket -/

/-- The resumption secret `build_ticket_message` derives. -/
def srvResMaster (c : Core) : Bytes :=
  ksResMaster e.toCrypto c.t.hashLen c.h.master (hsrTranscriptHash e c c.t.hashLen)

def buildTicketMessage (authSeconds lifetime : Nat) (drawn : Bytes) (c : Core) : Option Bytes :=
  let nonce := drawn.take 12
  let ageAdd := ofBe ((drawn.drop 12).take 4)
  let ticketNonce := drawn.drop 16
  let contents : TicketContents :=
    { authSeconds := authSeconds
      suite := c.t.suite
      quicVersion := sessionQuicVersion e c.t
      alpn := (alpnName c.t.cfg c.t.alpnSelected).getD []
      psk := ksResPsk e.toCrypto c.t.hashLen (srvResMaster e c) ticketNonce }
  match srvTicketSeal e (c.t.cfg.srv.ticketKey.getD []) nonce contents with
  | none => none
  | some ticket => srvBuildNewSessionTicket lifetime ageAdd ticketNonce ticket

/-- The message of `srv_send_new_session_ticket`, none when it sends none. -/
def newSessionTicket : Handler (Option Bytes) := do
  let c ← Proc.get
  if !ticketsOn c.t then pure none
  else
    let now := c.t.nowSeconds
    let authSeconds := if c.t.pskSelected then c.h.ticketAuthSeconds else now
    chAssert (ticketFresh authSeconds now)
    if now - authSeconds ≥ srvTicketLifetime then pure none
    else
      let drawn ← drawNonzero 24
      match buildTicketMessage e authSeconds (srvTicketLifetime - (now - authSeconds)) drawn c with
      | none => refuse internalError .ecap
      | some msg => pure (some msg)

def srvSendNewSessionTicket : Act Unit := do
  match ← onCore (newSessionTicket e) with
  | none => pure ()
  | some msg => srvOutSealed e msg

/-! ### What the handlers leave alone -/

theorem absorbSelected_steady (hashLen : Nat) (msg : Bytes) : Steady (absorbSelected hashLen msg) :=
  fun _ => rfl

theorem srvBegin_steady : Steady (srvBegin e) :=
  (srvKexBegin_steady e).bind fun _ => steady_modifyTls fun _ => rfl

theorem onClientHello_steady (raw : Bytes) : Steady (onClientHello e raw) := by
  intro c
  unfold onClientHello
  split
  · rfl
  cases srvParseClientHello e.toCrypto e.build (msgBody raw) c.t.cfg.alpnProtocols with
  | error alert => rfl
  | ok parsed =>
    dsimp only
    split <;> rfl

theorem buildHelloRetryRequest_steady (ch : ClientHello) (sel : Selection) :
    Steady (buildHelloRetryRequest e ch sel) := by
  intro c
  unfold buildHelloRetryRequest
  dsimp only
  rcases srvCookieMint e (c.t.cfg.srv.cookieKey.getD []) sel.suite sel.group
    (hsrTranscriptHash e c sel.hashLen) ch.frozen sel.hashLen with _ | cookie
  · rfl
  dsimp only
  rcases srvBuildHelloRetryRequest e.build.txStage sel ch.sessionId cookie with _ | msg <;> rfl

theorem buildServerHello_steady (ch : ClientHello) (sel : Selection) :
    Steady (buildServerHello e ch sel) := by
  have share : Steady (orIllegal (srvKexShare e ch sel.group)) := by
    intro c
    have kept := srvKexShare_steady e ch sel.group c
    unfold orIllegal
    rcases ran : srvKexShare e ch sel.group c with ⟨rc | _,next⟩ <;> rw [ran] at kept
    · cases rc <;> exact kept
    · exact kept
  refine share.bind fun share => (drawNonzero_steady 32).bind fun random => ?_
  cases srvBuildServerHello e.build.txStage sel random ch.sessionId share with
  | none => exact steady_refuse _ _
  | some msg => exact (absorbSelected_steady _ _).bind fun _ => keeps_pure _

theorem srvDeriveHandshakeSecrets_fixes (ch : ClientHello) (sel : Selection) :
    Fixes (srvDeriveHandshakeSecrets e ch sel) := by
  intro c
  unfold srvDeriveHandshakeSecrets srvKexSecret
  rcases kexSecret e c.h ch sel.group with _ | (_ | ikm)
  · rfl
  · rfl
  · dsimp only
    split <;> rfl

theorem buildEncryptedExtensions_steady (sel : Selection) :
    Steady (buildEncryptedExtensions e sel) := by
  intro c
  unfold buildEncryptedExtensions
  dsimp only
  split <;> rfl

theorem buildCertificateVerify_steady (sel : Selection) :
    Steady (buildCertificateVerify e sel) := by
  intro c
  have kept := srvSignCertificateVerify_steady e sel.sigalg sel.hashLen
    (hsrTranscriptHash e c sel.hashLen) c
  unfold buildCertificateVerify
  rcases ran : srvSignCertificateVerify e sel.sigalg sel.hashLen
    (hsrTranscriptHash e c sel.hashLen) c with ⟨_ | sig,next⟩ <;> rw [ran] at kept
  · exact kept
  · dsimp only
    split <;> exact kept

theorem onClientFinished_steady (hash raw : Bytes) : Steady (onClientFinished e hash raw) := by
  intro c
  unfold onClientFinished
  split
  · rfl
  split <;> rfl

theorem newSessionTicket_steady : Steady (newSessionTicket e) := by
  refine keeps_get.bind fun c => .ite (keeps_pure _) ?_
  refine (steady_chAssert _).bind fun _ => .ite (keeps_pure _) ?_
  refine (drawNonzero_steady 24).bind fun drawn => ?_
  split
  · exact steady_refuse _ _
  · exact keeps_pure _

/-! ### What output leaves alone -/

def St.unsent (s : St) : Tls × Hs × Rx := ({ s.t with wr := .wiped }, { s.h with alert := 0 }, s.rx)

abbrev KeepsUnsent {α : Type} (act : Act α) : Prop := Keeps St.unsent act

theorem KeepsUnsent.protocol {α : Type} {act : Act α} (kept : KeepsUnsent act) :
    KeepsProtocol act :=
  kept.map fun parts => ({ parts.1 with rd := .wiped }, parts.2.1, parts.2.2.opened)

theorem orInternalError_unsent (out : Proc Io Rc Unit) : KeepsUnsent (orInternalError out) := by
  intro s
  have sent : St.unsent (onIo out s).2 = s.unsent := rfl
  unfold orInternalError
  split <;>
    · rename_i ran
      rw [ran] at sent
      exact sent

theorem srvOutRecord_unsent (rec : Bytes) : KeepsUnsent (srvOutRecord e rec) :=
  orInternalError_unsent _

theorem pushCrypto_unsent (p : Bytes) : KeepsUnsent (pushCrypto p) :=
  fun s => orInternalError_unsent _ s

theorem srvOutSealedLoop_unsent (fuel : Nat) (pt : Bytes) :
    KeepsUnsent (srvOutSealedLoop e fuel pt) := by
  induction fuel generalizing pt with
  | zero => exact keeps_pure _
  | succ fuel ih =>
    intro s
    unfold srvOutSealedLoop
    split
    · rfl
    dsimp only
    split
    · rfl
    rename_i record wr _
    have sent := srvOutRecord_unsent e record
      (stageTx record { s with t := { s.t with wr := wr } })
    split
    · rename_i ran
      rw [ran] at sent
      exact sent
    · rename_i ran
      rw [ran] at sent
      exact (ih _ _).trans sent

theorem srvOutSealed_unsent (pt : Bytes) : KeepsUnsent (srvOutSealed e pt) :=
  .ite (pushCrypto_unsent pt) (srvOutSealedLoop_unsent e _ pt)

theorem srvNextMsg_protocol : KeepsProtocol (srvNextMsg e) := by
  intro s
  have read := hsrNextMsg_protocol e s
  unfold srvNextMsg
  split <;>
    · rename_i ran
      rw [ran] at read
      exact read

end ServerFlight

end Chapulin
