/-
The client's flight (`handshake_flight.c`, `handshake_groups.c`): every message
handler the three client drivers share.

A handler `on…` is what the source does with a message it has read; the `hsf…`
function of the same message reads it first.
-/

import Chapulin.Parser
import Chapulin.Reader

namespace Chapulin

open Lib Proc Alert

section ClientFlight

variable (e : Env)

def earlySecretWithoutPsk (h : Hs) : Hs :=
  let hashLen := hsrSuiteHashLen e.build h
  { h with early := (ksEarly e.toCrypto hashLen (zeros hashLen) false).1 }

def drawNonzero (n : Nat) : Handler Bytes := do
  let drawn ← randDraw n
  chAssert (drawn != zeros n)
  pure drawn

def drawKeyPair : Handler Unit := do
  let priv ← drawNonzero 32
  modifyHs fun h => { h with priv := priv, pub := e.x25519Base priv }

def drawKemSeed : Handler Unit := do
  let dz ← randDraw 64
  chAssert (dz.take 32 != zeros 32)
  chAssert (dz.drop 32 != zeros 32)
  modifyHs fun h => { h with dz := dz }

def pskSecrets : Handler Unit := modifyCore fun c =>
  match c.t.cfg.psk with
  | none => c
  | some psk =>
    let (early, binderKey) :=
      ksEarly e.toCrypto (hsPskHashLen e.build c.t.cfg) psk c.t.cfg.ticket.isSome
    { c with h := { c.h with early := early, binderKey := binderKey } }

def hsfBegin : Handler Unit := do
  (if e.build.cnsa2 then pure () else drawKeyPair e)
  let random ← drawNonzero 32
  modifyHs fun h => { h with random := random }
  (if e.build.kexMlkem then drawKemSeed else pure ())
  pskSecrets e
  modifyTls fun t => { t with transcript := transcriptInit }

def bindHello (c : Core) (hello : Bytes) : Bytes :=
  match c.t.cfg.psk with
  | none => hello
  | some _ =>
    let hashLen := hsPskHashLen e.build c.t.cfg
    let hash := transcriptHashAfter e.toCrypto c.t.transcript hashLen
      (hello.take (hello.length - bindersTail hashLen))
    hello.take (hello.length - hashLen) ++
      fitTo hashLen (ksVerifyData e.toCrypto hashLen c.h.binderKey hash)

def unboundHello (c : Core) : Option Bytes :=
  let ek := if c.h.retryGroup ≠ 0 then [] else e.mlkemEk (mlkemRank e.build) c.h.dz
  hsBuildClientHello e.build e.build.txStage c.t.cfg ek
    (if c.h.retryGroup ≠ 0 then some c.h.p256Pub else none) c.h.pub c.h.random
    (if e.build.quic then 0 else c.h.recordSizeLimit)
    (if c.h.cookie.length > 0 then some c.h.cookie else none)

/-- `hsf_build_client_hello`: the message, none for a length of 0. -/
def hsfBuildClientHello : Handler (Option Bytes) := fun c =>
  match unboundHello e c with
  | none => (.ok none, { c with h := { c.h with alert := internalError } })
  | some unbound =>
    let hello := bindHello e c unbound
    (.ok (some hello), { c with t := { c.t with
      transcript := transcriptUpdate c.t.transcript hello
      hellos := c.t.hellos ++ [hello] } })

/-! ### ServerHello -/

/-- `take_suite`; a build with one suite has none to take. -/
def takeSuite (info : ServerHelloInfo) : Handler Unit := fun c =>
  if !e.build.aesGcm then (.ok (), c)
  else if !hsSuiteOffered e.build c.t.cfg info.suite ||
      (!info.hrr && c.h.suite != 0 && info.suite != c.h.suite) then (.error .eproto, c)
  else (.ok (), { c with h := { c.h with suite := info.suite } })

def drawP256Loop : Nat → Handler Unit
  | 0 => chAssert false
  | draws + 1 => do
      let draw ← randDraw 32
      match e.p256EcdhKeygen draw with
      | some (priv, pub) => modifyHs fun h => { h with p256Priv := priv, p256Pub := pub }
      | none => drawP256Loop draws

def drawP256Key : Handler Unit := drawP256Loop e 4

def cookieLen (info : ServerHelloInfo) : Nat := (info.cookie.getD []).length

def hsgTakeRetry (info : ServerHelloInfo) : Handler Unit := do
  if info.retryGroup = 0 then Proc.require (cookieLen info > 0) .eproto
  else
    chAssert (info.retryGroup == groupSecp256r1)
    let t ← getTls
    Proc.require (!t.cfg.requirePq) .eproto
    modifyHs fun h => { h with retryGroup := info.retryGroup }
    drawP256Key e
    modifyHs fun h => { h with priv := [], pub := [], dz := [] }

def takeRetry (info : ServerHelloInfo) : Handler Unit := do
  (if e.build.twoGroups then hsgTakeRetry e info
    else Proc.require (cookieLen info > 0) .eproto)
  modifyHs fun h => { h with cookie := info.cookie.getD [] }

/-- Runs a handler and gives its failure, but not a failed assertion, another
alert and code. -/
def orRefuse (handler : Handler Unit) (alert : Nat) (code : Rc → Rc) : Handler Unit := fun c =>
  match handler c with
  | (.ok _, c) => (.ok (), c)
  | (.error .assertFail, c) => (.error .assertFail, c)
  | (.error rc, c) => refuse alert (code rc) c

def parseServerHello (raw : Bytes) : Handler ServerHelloInfo := fun c =>
  match hspParseServerHello e.build (msgBody raw) c.t.cfg.psk.isSome ServerHelloInfo.zero with
  | (.error rc, _) => (.error rc, c)
  | (.ok _, info) =>
    match takeSuite e info c with
    | (.error rc, c) => (.error rc, c)
    | (.ok _, c) => (.ok info, c)

/-- `hsf_read_server_hello` after the message is read. -/
def onServerHello (raw : Bytes) : Handler ServerHelloInfo := fun c =>
  if msgType raw ≠ hsServerHello then refuse unexpectedMessage .eproto c
  else
    match parseServerHello e raw c with
    | (.error rc, c) => refuse illegalParameter rc c
    | (.ok info, c) =>
      if info.hrr then
        let c := { c with
          t := hsrRestartTranscript e (hsrSuiteHashLen e.build c.h) raw c.t }
        match orRefuse (takeRetry e info) illegalParameter (fun _ => .eproto) c with
        | (.error rc, c) => (.error rc, c)
        | (.ok _, c) => (.ok info, c)
      else
        (.ok info, { c with t := { c.t with
          transcript := transcriptUpdate c.t.transcript raw } })

def hsfReadServerHello : Act ServerHelloInfo := do
  let raw ← hsrNextMsg e
  onCore (onServerHello e raw)

def declinePsk (info : ServerHelloInfo) : Handler Unit := fun c =>
  if e.build.webpki then
    if info.seen.contains extPreSharedKey then refuse illegalParameter .eproto c
    else (.ok (), { c with h := earlySecretWithoutPsk e { c.h with binderKey := [] } })
  else refuse handshakeFailure .eauth c

def hsgSelectedGroupOk (h : Hs) (group : Nat) : Bool :=
  if h.retryGroup ≠ 0 then group == h.retryGroup else group != groupSecp256r1

def acceptPsk (info : ServerHelloInfo) : Handler Unit := fun c =>
  if c.t.cfg.psk.isNone then modifyHs (earlySecretWithoutPsk e) c
  else if !info.pskOk then declinePsk e info c
  else if e.build.clientAesSuites &&
      hsPskHashLen e.build c.t.cfg != hsrSuiteHashLen e.build c.h then
    refuse illegalParameter .eproto c
  else (.ok (), c)

def hsfAcceptServerHello (info : ServerHelloInfo) : Handler Unit := do
  modifyTls fun t => { t with
    group := info.group
    suite := if e.build.aesGcm then info.suite else t.suite }
  let c ← Proc.get
  if !info.haveShare then refuse handshakeFailure .eauth
  else if e.build.twoGroups && !hsgSelectedGroupOk c.h info.group then
    refuse illegalParameter .eproto
  else do
    acceptPsk e info
    modifyTls fun t => { t with pskSelected := c.t.cfg.psk.isSome && info.pskOk }
    if e.build.kexHybrid && c.t.cfg.requirePq && info.group != groupX25519Mlkem768 then
      refuse illegalParameter .eproto
    else pure ()

/-! ### Secrets -/

/-- `kem_secret`: the encapsulated secret and, but for CNSA 2, the x25519 one. -/
def kemSecret (h : Hs) (info : ServerHelloInfo) : Option Bytes :=
  let ss := e.mlkemDecaps (mlkemRank e.build) h.dz info.serverCt
  if e.build.cnsa2 then some ss
  else (e.x25519 h.priv info.serverPub).map (ss ++ ·)

/-- `hsg_classic_secret`; the error is a failed assertion. -/
def hsgClassicSecret (h : Hs) (info : ServerHelloInfo) : Except Rc (Option Bytes) :=
  if info.group = groupSecp256r1 then
    if h.retryGroup = groupSecp256r1 ∧ info.serverP256 ≠ [] then
      .ok (e.p256Ecdh h.p256Priv info.serverP256)
    else .error .assertFail
  else if info.group = groupX25519 then .ok (e.x25519 h.priv info.serverPub)
  else .error .assertFail

/-- The exchanged secret of `hsf_derive_handshake_secrets`. -/
def sharedSecret (h : Hs) (info : ServerHelloInfo) : Except Rc (Option Bytes) :=
  if e.build.kexMlkem then
    if e.build.twoGroups && info.group != groupX25519Mlkem768 then hsgClassicSecret e h info
    else .ok (kemSecret e h info)
  else .ok (e.x25519 h.priv info.serverPub)

def hsfDeriveHandshakeSecrets (info : ServerHelloInfo) : Handler Unit := fun c =>
  let h := { c.h with priv := [], pub := [], random := [], dz := [], p256Priv := [] }
  match sharedSecret e c.h info with
  | .error rc => (.error rc, c)
  | .ok none =>
    refuse illegalParameter .eproto { c with h := { h with early := [], binderKey := [] } }
  | .ok (some ecdhe) =>
    let hashLen := hsrSuiteHashLen e.build c.h
    let secrets := ksHandshake e.toCrypto hashLen c.h.early ecdhe (hsrTranscriptHash e c hashLen)
    (.ok (), { c with h := { h with
      handshakeSecret := secrets.secret
      cHs := secrets.client
      sHs := secrets.server
      early := []
      binderKey := [] } })

/-! ### EncryptedExtensions -/

def eeOffer (cfg : Cfg) : EeOffer where
  alpn := cfg.alpnProtocols
  serverNameSent := cfg.hostname.length > 0
  certTypes := webpkiCertTypesOffered cfg

def eeStart (t : Tls) : EeOut where
  peerLimit := if e.build.quic then 0xffff else t.peerLimit
  selected := t.alpnSelected
  certType := 0
  transportParams := none
  alert := illegalParameter
  seen := []

def storeEncryptedExts (out : EeOut) (c : Core) : Core :=
  { t := { c.t with
      peerLimit := if e.build.quic then c.t.peerLimit else out.peerLimit
      alpnSelected := if e.build.webpki || e.build.quic then out.selected else c.t.alpnSelected
      serverCertType := if e.build.webpki then out.certType else c.t.serverCertType }
    h := { c.h with alert := out.alert } }

def acceptEncryptedExts (out : EeOut) (raw : Bytes) (c : Core) : Core :=
  { c with t := { c.t with
      calls := if e.build.quic && c.t.cfg.onTransportParams then
        c.t.calls ++ [.onTransportParams (out.transportParams.getD [])] else c.t.calls
      transcript := transcriptUpdate c.t.transcript raw } }

/-- `hsf_read_encrypted_extensions` after the message is read. -/
def onEncryptedExtensions (raw : Bytes) : Handler Unit := fun c =>
  if msgType raw ≠ hsEncryptedExtensions then refuse unexpectedMessage .eproto c
  else
    match hspParseEncryptedExts e.build (eeOffer c.t.cfg) (msgBody raw) (eeStart e c.t) with
    | (.error rc, out) => (.error rc, storeEncryptedExts e out c)
    | (.ok _, out) =>
      let stored := storeEncryptedExts e out c
      if e.build.quic && stored.t.alpnSelected == alpnNone then
        refuse noApplicationProtocol .eproto stored
      else (.ok (), acceptEncryptedExts e out raw stored)

def hsfReadEncryptedExtensions : Act Unit := do
  let raw ← hsrNextMsg e
  onCore (onEncryptedExtensions e raw)

/-! ### Finished -/

/-- `hsf_read_finished` after the message is read; `hash` is the transcript hash
taken before. -/
def onFinished (hash raw : Bytes) : Handler Unit := fun c =>
  let hashLen := hsrSuiteHashLen e.build c.h
  if msgType raw = hsCertificate ∨ msgType raw = hsCertificateRequest then
    refuse handshakeFailure .eauth c
  else if msgType raw ≠ hsFinished ∨ raw.length ≠ 4 + hashLen then
    refuse unexpectedMessage .eproto c
  else if fitTo hashLen (ksVerifyData e.toCrypto hashLen c.h.sHs hash) ≠ msgBody raw then
    refuse decryptError .eauth c
  else
    (.ok (), { t := { c.t with transcript := transcriptUpdate c.t.transcript raw },
               h := { c.h with serverFinishedOk := true } })

def hsfReadFinished : Act Unit := do
  let before ← Proc.gets St.core
  let hash := hsrTranscriptHash e before (hsrSuiteHashLen e.build before.h)
  let raw ← hsrNextMsg e
  onCore (onFinished e hash raw)

def hsfComplete : Handler Bytes := fun c =>
  if !c.h.serverFinishedOk then (.error .assertFail, c) else
  let hashLen := hsrSuiteHashLen e.build c.h
  let hash := hsrTranscriptHash e c hashLen
  let secrets := ksMaster e.toCrypto hashLen c.h.handshakeSecret hash
  let finished := handshakeMessage hsFinished
    (fitTo hashLen (ksVerifyData e.toCrypto hashLen c.h.cHs hash))
  let transcript := transcriptUpdate c.t.transcript finished
  (.ok finished,
    { t := { c.t with
        wrSecret := secrets.client
        rdSecret := secrets.server
        expMaster := if e.build.exporter then
          ksExpMaster e.toCrypto hashLen secrets.secret hash else c.t.expMaster
        transcript := transcript
        resMaster := ksResMaster e.toCrypto hashLen secrets.secret
          (transcriptHashAfter e.toCrypto transcript hashLen []) }
      h := { c.h with master := secrets.secret } })

/-! ### What the handlers leave alone -/

theorem drawNonzero_steady (n : Nat) : Steady (drawNonzero n) :=
  (steady_randDraw n).bind fun _ => (steady_chAssert _).bind fun _ => keeps_pure _

theorem drawKeyPair_steady : Steady (drawKeyPair e) :=
  (drawNonzero_steady 32).bind fun _ => steady_modifyHs _

theorem drawKemSeed_steady : Steady drawKemSeed :=
  (steady_randDraw 64).bind fun _ => (steady_chAssert _).bind fun _ =>
    (steady_chAssert _).bind fun _ =>
    steady_modifyHs _

theorem pskSecrets_steady : Steady (pskSecrets e) := by
  refine keeps_modify fun c => ?_
  split <;> rfl

theorem hsfBegin_steady : Steady (hsfBegin e) :=
  .bind (.ite (keeps_pure _) (drawKeyPair_steady e)) fun _ => (drawNonzero_steady 32).bind fun _ =>
    (steady_modifyHs _).bind fun _ =>
      .bind (.ite drawKemSeed_steady (keeps_pure _)) fun _ =>
        (pskSecrets_steady e).bind fun _ => steady_modifyTls fun _ => rfl

theorem drawP256Loop_steady (draws : Nat) : Steady (drawP256Loop e draws) := by
  induction draws with
  | zero => exact steady_chAssert _
  | succ draws ih =>
    refine (steady_randDraw 32).bind fun draw => ?_
    cases e.p256EcdhKeygen draw with
    | none => exact ih
    | some pair => exact steady_modifyHs _

theorem hsfBuildClientHello_steady : Steady (hsfBuildClientHello e) := by
  intro c
  unfold hsfBuildClientHello
  cases unboundHello e c <;> rfl

variable (info : ServerHelloInfo)

theorem takeSuite_steady : Steady (takeSuite e info) := by
  intro c
  unfold takeSuite
  split
  · rfl
  split <;> rfl

theorem takeRetry_steady : Steady (takeRetry e info) := by
  have classic : Steady (hsgTakeRetry e info) := by
    unfold hsgTakeRetry
    refine Keeps.ite (keeps_require _ _) ?_
    exact (steady_chAssert _).bind fun _ => Keeps.bind (fun _ => rfl) fun _ =>
      (keeps_require _ _).bind fun _ => (steady_modifyHs _).bind fun _ =>
        (drawP256Loop_steady e 4).bind fun _ => steady_modifyHs _
  refine Keeps.bind (.ite classic (keeps_require _ _)) fun _ => steady_modifyHs _

theorem parseServerHello_steady (raw : Bytes) : Steady (parseServerHello e raw) := by
  intro c
  unfold parseServerHello
  rcases hspParseServerHello e.build (msgBody raw) c.t.cfg.psk.isSome .zero with ⟨_ | _,info⟩
  · rfl
  have kept := takeSuite_steady e info c
  dsimp only
  rcases took : takeSuite e info c with ⟨_ | _,next⟩ <;> (rw [took] at kept; exact kept)

theorem onServerHello_steady (raw : Bytes) : Steady (onServerHello e raw) := by
  intro c
  unfold onServerHello
  split
  · rfl
  have kept := parseServerHello_steady e raw c
  rcases parsed : parseServerHello e raw c with ⟨_ | info,next⟩
  · rw [parsed] at kept
    exact kept
  rw [parsed] at kept
  dsimp only
  split
  · have retried := takeRetry_steady e info
      { next with t := hsrRestartTranscript e (hsrSuiteHashLen e.build next.h) raw next.t }
    unfold orRefuse
    rcases took : takeRetry e info
      { next with t := hsrRestartTranscript e (hsrSuiteHashLen e.build next.h) raw next.t } with
      ⟨rc | _,last⟩
    · rw [took] at retried
      cases rc <;> exact retried.trans kept
    · rw [took] at retried
      exact retried.trans kept
  · exact kept

theorem acceptPsk_steady : Steady (acceptPsk e info) := by
  intro c
  unfold acceptPsk declinePsk
  split
  · rfl
  split
  · split
    · split <;> rfl
    · rfl
  split <;> rfl

theorem hsfAcceptServerHello_steady : Steady (hsfAcceptServerHello e info) := by
  refine Keeps.bind (fun _ => rfl) fun _ => keeps_get.bind fun c => ?_
  refine .ite (steady_refuse _ _) (.ite (steady_refuse _ _) ?_)
  exact (acceptPsk_steady e info).bind fun _ => Keeps.bind (fun _ => rfl) fun _ =>
    .ite (steady_refuse _ _) (keeps_pure _)

theorem hsfDeriveHandshakeSecrets_steady : Steady (hsfDeriveHandshakeSecrets e info) := by
  intro c
  unfold hsfDeriveHandshakeSecrets
  rcases sharedSecret e c.h info with _ | (_ | _) <;> rfl

theorem onEncryptedExtensions_kept (raw : Bytes) :
    Keeps (fun c => { c.t.kept with peerLimit := 0 }) (onEncryptedExtensions e raw) := by
  intro c
  unfold onEncryptedExtensions
  split
  · rfl
  rcases hspParseEncryptedExts e.build (eeOffer c.t.cfg) (msgBody raw) (eeStart e c.t) with
    ⟨_ | _,out⟩
  · rfl
  · dsimp only
    split <;> rfl

theorem onFinished_steady (hash raw : Bytes) : Steady (onFinished e hash raw) := by
  intro c
  unfold onFinished
  dsimp only
  split
  · rfl
  split
  · rfl
  split <;> rfl

theorem hsfComplete_steady : Steady (hsfComplete e) := by
  intro c
  unfold hsfComplete
  split <;> rfl

end ClientFlight

/-- A ServerHello that takes a pre-shared key, for X25519 and ChaCha20-Poly1305. -/
def samplePskHello : Bytes :=
  [2,0,0,92,3,3] ++ List.replicate 32 9 ++ [0,0x13,3,0,0,52] ++
    [0,0x2b,0,2,3,4] ++ [0,0x33,0,36,0,0x1d,0,32] ++ List.replicate 32 8 ++
    [0,41,0,2,0,0]

end Chapulin
