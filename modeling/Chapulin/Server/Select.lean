/-
What a server decides from a ClientHello: key exchange, identity, cookie,
ticket and the selection (`srv_kex.c`, `srv_auth.c`, `srv_mldsa.c`,
`srv_cookie.c`, `srv_ticket.c`, `srv_resume.c`, and the decisions of
`srv_flight.c`), and the configurations it accepts (`srv.c`).
-/

import Chapulin.Auth
import Chapulin.Config
import Chapulin.Server.Message
import Chapulin.Server.Parser

namespace Chapulin

open Lib Proc Alert

section ServerSelection

variable (e : Env)

/-! ### Key exchange -/

def srvKexBegin : Handler Unit := if e.build.cnsa2 then pure () else drawKeyPair e

/-- `srv_kex_group`: the server's preference among the offered groups, 0 for none. -/
def srvKexGroup (ch : ClientHello) : Nat :=
  if ch.groups.contains groupMlkem1024 then groupMlkem1024
  else if e.build.cnsa2 then 0
  else if ch.groups.contains groupX25519Mlkem768 then groupX25519Mlkem768
  else if ch.groups.contains groupX25519 then groupX25519
  else if ch.groups.contains groupSecp256r1 then groupSecp256r1 else 0

def srvKexShared (ch : ClientHello) (group : Nat) : Bool :=
  srvGroupKnown e.build group && (ch.share group).isSome

def encapsulate (rank : Nat) (key : Bytes) : Handler Bytes := do
  let m ← drawNonzero 32
  match e.mlkemEncapsDerand rank key m with
  | none => do
      modifyHs fun h => { h with mlkemSs := [] }
      Proc.stop .eproto
  | some (ct, ss) => do
      modifyHs fun h => { h with mlkemSs := ss }
      pure ct

def p256ShareLoop : Nat → Handler Bytes
  | 0 => Proc.stop .assertFail
  | draws + 1 => do
      let draw ← randDraw 32
      match e.p256EcdhKeygen draw with
      | some (priv, pub) => do
          modifyHs fun h => { h with p256Priv := priv }
          pure pub
      | none => p256ShareLoop draws

def p256Share (ch : ClientHello) : Handler Bytes :=
  match ch.share groupSecp256r1 with
  | none => Proc.stop .assertFail
  | some point =>
    if e.p256EcdhPointValid point then p256ShareLoop e 4 else Proc.stop .eproto

def kemShare (rank ekLen ctLen : Nat) (share : Option Bytes) : Handler Bytes :=
  match share with
  | none => Proc.stop .assertFail
  | some share => do
      let ct ← encapsulate e rank (share.take ekLen)
      pure (fitTo ctLen ct)

def srvKexShare (ch : ClientHello) (group : Nat) : Handler Bytes :=
  if e.build.cnsa2 then
    if group = groupMlkem1024 then kemShare e 4 1568 1568 (ch.share group)
    else Proc.stop .assertFail
  else if group = groupX25519 then do
    let h ← getHs
    pure (fitTo 32 h.pub)
  else if group = groupSecp256r1 then do
    let pub ← p256Share e ch
    pure (fitTo p256PointLen pub)
  else if group = groupMlkem1024 then kemShare e 4 1568 1568 (ch.share group)
  else if group = groupX25519Mlkem768 then do
    let ct ← kemShare e 3 1184 1088 (ch.share group)
    let h ← getHs
    pure (ct ++ fitTo 32 h.pub)
  else Proc.stop .assertFail

def x25519Secret (h : Hs) (ch : ClientHello) (group : Nat) : Except Rc (Option Bytes) :=
  if group = groupX25519Mlkem768 then
    match ch.share groupX25519Mlkem768 with
    | none => .error .assertFail
    | some share => .ok ((e.x25519 h.priv (share.drop 1184)).map (h.mlkemSs ++ ·))
  else
    match ch.share groupX25519 with
    | none => .error .assertFail
    | some share => .ok (e.x25519 h.priv share)

/-- The secret of `srv_kex_secret`, none for `CH_EPROTO`. -/
def kexSecret (h : Hs) (ch : ClientHello) (group : Nat) : Except Rc (Option Bytes) :=
  if e.build.cnsa2 then
    if group = groupMlkem1024 then .ok (some h.mlkemSs) else .error .assertFail
  else if group = groupMlkem1024 then .ok (some h.mlkemSs)
  else if group = groupSecp256r1 then
    match ch.share groupSecp256r1 with
    | none => .error .assertFail
    | some point => .ok (e.p256Ecdh h.p256Priv point)
  else x25519Secret e h ch group

def srvKexSecret (ch : ClientHello) (group : Nat) : Handler (Option Bytes) := fun c =>
  match kexSecret e c.h ch group with
  | .error rc => (.error rc, c)
  | .ok secret =>
    (.ok secret, { c with h :=
      if e.build.cnsa2 then { c.h with mlkemSs := [] }
      else { c.h with
        mlkemSs := if group = groupSecp256r1 then c.h.mlkemSs else []
        p256Priv := [], priv := [], pub := [] } })

/-! ### Identities -/

def identityProvisioned (id : Identity) : Bool :=
  id.chain != [] && id.priv.isSome && id.pub.isSome

def identitySlot (cfg : Cfg) (sigalg : Nat) : Option Identity :=
  if !e.build.cnsa2 && sigalg == sigalgEcdsaP256Sha256 then some cfg.srv.ecdsaP256
  else if !e.build.cnsa2 && sigalg == sigalgRsaPssRsaeSha256 then some cfg.srv.rsaPss
  else if e.build.signMldsa && sigalg == sigalgMldsa87 then some cfg.srv.mldsa87
  else none

def srvIdentityFor (cfg : Cfg) (sigalg : Nat) : Option Identity :=
  (identitySlot e cfg sigalg).filter identityProvisioned

def sigalgPreference : List Nat :=
  [sigalgMldsa87,sigalgEcdsaP256Sha256,sigalgRsaPssRsaeSha256]

def srvIdentityLive (cfg : Cfg) : List Nat :=
  sigalgPreference.filter fun sigalg => (srvIdentityFor e cfg sigalg).isSome

def srvSelectSigalg (cfg : Cfg) (offered : List Nat) : Nat :=
  ((srvIdentityLive e cfg).find? offered.contains).getD 0

def rsaModulusMax : Nat := if e.build.webpki then 512 else 384

/-- `sizeof(ch_rsa_priv)` where a `size_t` has eight bytes. -/
def rsaPrivLen : Nat :=
  2 * rsaModulusMax e + 8 + (if e.build.cpuRuntime then 5 * (rsaModulusMax e / 2) else 0)

def keyLengthsMatch (id : Identity) (sigalg : Nat) : Bool :=
  let priv := (id.priv.getD []).length
  let pub := (id.pub.getD []).length
  if sigalg = sigalgMldsa87 then priv == 4896 && pub == 2592
  else if sigalg = sigalgEcdsaP256Sha256 then priv == 32 && pub == 64
  else priv == rsaPrivLen e && pub ≤ rsaModulusMax e

def identityUsable (id : Identity) (sigalg : Nat) : Bool :=
  keyLengthsMatch e id sigalg && srvCertificateFits id &&
    (sigalg == sigalgMldsa87 || e.signKeyOk sigalg id)

def srvIdentitiesUsable (cfg : Cfg) : Bool :=
  (srvIdentityLive e cfg).all fun sigalg =>
    (srvIdentityFor e cfg sigalg).all fun id => identityUsable e id sigalg

def signDraw (sigalg : Nat) : Nat := if sigalg = sigalgRsaPssRsaeSha256 then 32 + 16 else 32

/-- What the server's scheme signs: the content itself for ML-DSA, else its digest. -/
def srvSignedContent (sigalg : Nat) (hash : Bytes) : Bytes :=
  if sigalg = sigalgMldsa87 then hsaSignedContent hash
  else e.hash sha256Len (hsaSignedContent hash)

/-- `srv_sign_certificate_verify`, and the signing of
`srv_mldsa_send_certificate_verify`. -/
def srvSignCertificateVerify (sigalg hashLen : Nat) (hash : Bytes) : Handler Bytes := do
  let t ← getTls
  match srvIdentityFor e t.cfg sigalg with
  | none => refuse internalError .eauth
  | some id =>
    if !keyLengthsMatch e id sigalg || (hashLen != sha256Len && hashLen != sha384Len) then
      refuse internalError .eauth
    else do
      let drawn ← randDraw (signDraw sigalg)
      match e.sign sigalg (id.priv.getD []) (srvSignedContent e sigalg hash) drawn with
      | none => refuse internalError .eauth
      | some sig => pure sig

/-! ### The cookie -/

def cookieMacLen : Nat := if e.build.cnsa2 then sha384Len else sha256Len

def cookieMac (key msg : Bytes) : Bytes :=
  fitTo (cookieMacLen e) (e.hmac (cookieMacLen e) key msg)

def srvCookieMint (key : Bytes) (suite group : Nat) (ch1Hash frozen : Bytes) (hashLen : Nat) :
    Option Bytes :=
  if hashLen < sha256Len ∨ hashLen > sha384Len then none
  else if cookieMax e.build < 5 + hashLen + sha256Len + cookieMacLen e then none
  else
    let body := byte 1 :: (be16 suite ++ (be16 group ++ (fitTo hashLen ch1Hash ++
      fitTo sha256Len frozen)))
    some (body ++ cookieMac e key body)

structure CookieBody where
  suite : Nat
  group : Nat
  hashLen : Nat
  frozen : Bytes
  deriving DecidableEq, Repr

def srvCookieOpen (key cookie : Bytes) : Option CookieBody :=
  let (version, r) := rbU8 (rbInit cookie)
  let (suite, r) := rbU16 r
  let (group, r) := rbU16 r
  if r.err || version != 1 then none
  else
    let hashLen := suiteHashLen e.build suite
    if hashLen = 0 then none
    else
      match rbBytes hashLen r with
      | (none, _) => none
      | (some _, r) =>
        match rbBytes sha256Len r with
        | (none, _) => none
        | (some frozen, r) =>
          match rbBytes (cookieMacLen e) r with
          | (none, _) => none
          | (some mac, r) =>
            if rbLeft r ≠ 0 then none
            else if mac = cookieMac e key (cookie.take (cookie.length - cookieMacLen e)) then
              some { suite := suite, group := group, hashLen := hashLen, frozen := frozen }
            else none

/-! ### Tickets -/

structure TicketContents where
  authSeconds : Nat
  suite : Nat
  quicVersion : Nat
  alpn : Bytes
  psk : Bytes
  deriving DecidableEq, Repr

def ticketVersion : UInt8 := if e.build.cnsa2 then 3 else 2

def srvTicketLifetime : Nat := 604800

def ticketBodyLen : Nat := 8 + 2 + 4 + 1 + alpnNameMax + hkdfHashMax e.build

def ticketLen : Nat := 1 + 12 + ticketBodyLen e + aeadTag

def ticketBody (c : TicketContents) : Bytes :=
  be64 c.authSeconds ++ (be16 c.suite ++ (be32 c.quicVersion ++ (byte c.alpn.length ::
    (fitTo alpnNameMax c.alpn ++ fitTo (hkdfHashMax e.build) c.psk))))

def srvTicketSeal (key nonce : Bytes) (c : TicketContents) : Option Bytes :=
  if c.alpn.length > alpnNameMax then none
  else some (ticketVersion e :: (nonce ++
    e.aeadSeal e.build.cnsa2 key nonce [ticketVersion e] (ticketBody e c)))

def ofBe (bytes : Bytes) : Nat := bytes.foldl (fun number octet => number * 256 + octet.toNat) 0

/-- `read_body`, on a body of `SRV_TICKET_BODY_LEN` bytes. -/
def readTicketBody (body : Bytes) : Option TicketContents :=
  let alpnLen := (body.getD 14 0).toNat
  if alpnLen > alpnNameMax then none
  else some {
    authSeconds := ofBe (body.take 8)
    suite := ofBe ((body.drop 8).take 2)
    quicVersion := ofBe ((body.drop 10).take 4)
    alpn := (body.drop 15).take alpnLen
    psk := body.drop (15 + alpnNameMax) }

def srvTicketOpen (key ticket : Bytes) : Option TicketContents :=
  if ticket.length ≠ ticketLen e ∨ ticket.getD 0 0 ≠ ticketVersion e then none
  else
    match e.aeadOpen e.build.cnsa2 key ((ticket.drop 1).take 12) [ticketVersion e]
        (ticket.drop 13) with
    | none => none
    | some body => readTicketBody body

def ticketsOn (t : Tls) : Bool := t.cfg.srv.ticketKey.isSome && t.nowSeconds != 0

def ticketOffered (ch : ClientHello) : Bool :=
  ch.saw extPreSharedKey && ch.pskModes.contains pskDheKe

def ticketFresh (authSeconds nowSeconds : Nat) : Bool :=
  authSeconds ≤ nowSeconds && nowSeconds - authSeconds ≤ srvTicketLifetime

/-- The name at an index of the configured list, none for `CH_ALPN_NONE`. -/
def alpnName (cfg : Cfg) (index : Nat) : Option Bytes :=
  if index = alpnNone then none else cfg.alpnProtocols[index]?

def sessionQuicVersion (t : Tls) : Nat := if e.build.quic then t.quicNegotiatedVersion else 0

def ticketHolds (t : Tls) (ch : ClientHello) (sel : Selection) (c : TicketContents) : Bool :=
  let hashLen := suiteHashLen e.build c.suite
  ticketFresh c.authSeconds t.nowSeconds && hashLen != 0 && hashLen == sel.hashLen &&
    c.alpn == (alpnName t.cfg ch.alpnSelected).getD [] &&
    c.quicVersion == sessionQuicVersion e t

/-- The loop of `find_ticket` over the offered identities. -/
def findTicketLoop (t : Tls) (ch : ClientHello) (sel : Selection) :
    Nat → Nat → Rbuf → Option (Nat × TicketContents)
  | 0, _, _ => none
  | fuel + 1, index, r =>
    if rbLeft r = 0 then none
    else
      let (identityLen, r) := rbU16 r
      match rbBytes identityLen r with
      | (none, _) => none
      | (some identity, r) =>
        match rbBytes 4 r with
        | (none, _) => none
        | (some _, r) =>
          match srvTicketOpen e (t.cfg.srv.ticketKey.getD []) identity with
          | some c =>
            if ticketHolds e t ch sel c then some (index, c)
            else findTicketLoop t ch sel fuel (index + 1) r
          | none => findTicketLoop t ch sel fuel (index + 1) r

/-- `find_ticket`: the index of the first identity that resumes, with its contents. -/
def findTicket (t : Tls) (ch : ClientHello) (sel : Selection) : Option (Nat × TicketContents) :=
  findTicketLoop e t ch sel ch.pskIdentities.length 0 (rbInit ch.pskIdentities)

def binderAt : Nat → Nat → Rbuf → Option Bytes
  | 0, _, _ => none
  | fuel + 1, index, r =>
    if rbLeft r = 0 then none
    else
      let (length, r) := rbU8 r
      match rbBytes length r with
      | (none, _) => none
      | (some binder, r) => if index = 0 then some binder else binderAt fuel (index - 1) r

def binderHashAt (ch : ClientHello) (hashLen : Nat) : Bytes :=
  if hashLen = sha384Len then ch.binderHashSha384 else ch.binderHash

def selectTicket (ch : ClientHello) (sel : Selection) : Handler Selection := fun c =>
  match findTicket e c.t ch sel with
  | none => (.ok sel, c)
  | some (index, contents) =>
    let (early, binderKey) :=
      ksEarly e.toCrypto sel.hashLen (contents.psk.take sel.hashLen) true
    let want := fitTo sel.hashLen
      (ksVerifyData e.toCrypto sel.hashLen binderKey (binderHashAt ch sel.hashLen))
    if binderAt ch.pskBinders.length index (rbInit ch.pskBinders) = some want then
      (.ok { sel with pskSelected := true, pskIdentity := index, sigalg := 0 },
        { c with h := { c.h with
          early := early, binderKey := [], ticketAuthSeconds := contents.authSeconds } })
    else refuse decryptError .eauth { c with h := { c.h with early := [], binderKey := [] } }

def srvSelectAuth (ch : ClientHello) (sel : Selection) : Handler Selection := do
  let sel := { sel with pskSelected := false, pskIdentity := 0 }
  let t ← getTls
  let sel ← (if ticketsOn t && ticketOffered ch then selectTicket e ch sel else pure sel)
  if sel.pskSelected || sel.sigalg != 0 then pure sel
  else refuse (if ch.saw extSignatureAlgorithms then handshakeFailure
    else missingExtension) .eproto

/-! ### The selection -/

def alpnMismatch (cfg : Cfg) (ch : ClientHello) : Bool :=
  cfg.alpnProtocols != [] && ch.saw extAlpn && ch.alpnSelected == alpnNone

def selectSuite (cfg : Cfg) (offered : List Nat) : Nat :=
  let order := if e.build.aesGcm && cfg.srv.cipherSuites != [] then cfg.srv.cipherSuites
    else suiteSessionDefault e.build cfg
  (order.find? fun suite => srvSuiteKnown e.build suite && offered.contains suite).getD 0

def srvSelect (ch : ClientHello) : Handler Selection := do
  setAlert handshakeFailure
  let t ← getTls
  let suite := selectSuite e t.cfg ch.suites
  let group := srvKexGroup e ch
  let sigalg := srvSelectSigalg e t.cfg ch.sigalgs
  if suite = 0 then Proc.stop .eproto
  else if group = 0 then Proc.stop .eproto
  else if sigalg = 0 ∧ !ch.saw extPreSharedKey then Proc.stop .eproto
  else if alpnMismatch t.cfg ch then refuse noApplicationProtocol .eproto
  else
    let sel : Selection :=
      { Selection.zero with
        suite := suite, hashLen := suiteHashLen e.build suite, group := group, sigalg := sigalg
        needRetry := !srvKexShared e ch group }
    if sel.needRetry then pure sel else srvSelectAuth e ch sel

def srvCheckRetryHello (ch : ClientHello) (sel : Selection) : Handler Selection := do
  setAlert illegalParameter
  let t ← getTls
  match ch.cookie with
  | none => Proc.stop .eproto
  | some cookie =>
    if ch.saw extEarlyData then Proc.stop .eproto
    else
      match srvCookieOpen e (t.cfg.srv.cookieKey.getD []) cookie with
      | none => Proc.stop .eproto
      | some body =>
        if body.frozen ≠ ch.frozen then Proc.stop .eproto
        else if e.build.cpuRuntime && e.build.aesGcm && !suiteRunsHere e t.cfg body.suite then
          Proc.stop .eproto
        else if !srvGroupKnown e.build body.group then Proc.stop .eproto
        else if !srvKexShared e ch body.group then refuse handshakeFailure .eproto
        else srvSelectAuth e ch { sel with
          suite := body.suite
          hashLen := body.hashLen
          group := body.group
          sigalg := srvSelectSigalg e t.cfg ch.sigalgs
          needRetry := false }

/-! ### The configuration -/

def srvKeysOk (srv : SrvCfg) : Bool :=
  match srv.cookieKey with
  | none => false
  | some cookieKey =>
    cookieKey != zeros 32 &&
      srv.ticketKey.all fun ticketKey => ticketKey != zeros 32 && ticketKey != cookieKey

/-- `suites_ok` and `suites_run_here`. -/
def srvSuitesOk (cfg : Cfg) : Bool :=
  !e.build.aesGcm ||
    (cfg.srv.cipherSuites.length ≤ 3 &&
      cfg.srv.cipherSuites.all (fun suite => suiteHashLen e.build suite != 0) &&
      (!e.build.cpuRuntime || cfg.srv.cipherSuites.all (suiteRunsHere e cfg)))

def sniOk (srv : SrvCfg) : Bool := srv.sniCap.isSome || !srv.requireServerName

def srvFieldsOk (cfg : Cfg) : Bool :=
  srvSuitesOk e cfg && srvIdentityLive e cfg != [] && srvIdentitiesUsable e cfg &&
    srvKeysOk cfg.srv && sniOk cfg.srv

def clientFieldsUnset (cfg : Cfg) : Bool :=
  cfg.psk.isNone && cfg.pskId.isNone && cfg.ticket.isNone && cfg.ticketAgeMs == 0 &&
    cfg.serverPubkey.isNone && cfg.serverPubkey2.isNone && !cfg.requirePq &&
    cfg.epochLoad.isNone && cfg.epochStore.isNone

def srvTransportOk (cfg : Cfg) : Bool :=
  e.build.minRxbuf ≤ cfg.bufLen &&
    (match e.build.transport with
      | .quic => !cfg.send && !cfg.recv && cfg.srv.onOut && cfg.onLevelReady
      | .tcpNonblocking => cfg.send && cfg.recv && cfg.srv.onOut
      | .tcpBlocking => cfg.send && cfg.recv)

def srvConfigOk (cfg : Cfg) : Bool :=
  (!e.build.cpuRuntime || (cfg.cpuBitsOk && (!e.build.cnsa2 || cfg.constantTimeAes))) &&
    srvFieldsOk e cfg && clientFieldsUnset cfg && alpnNamesOk cfg.alpnProtocols &&
    srvTransportOk e cfg

/-! ### What the handlers leave alone -/

theorem srvKexBegin_steady : Steady (srvKexBegin e) :=
  .ite (keeps_pure _) ((drawNonzero_steady 32).bind fun _ => steady_modifyHs _)

theorem kemShare_steady (rank ekLen ctLen : Nat) (share : Option Bytes) :
    Steady (kemShare e rank ekLen ctLen share) := by
  cases share with
  | none => exact keeps_stop _
  | some share =>
    refine Keeps.bind ?_ fun _ => keeps_pure _
    refine (drawNonzero_steady 32).bind fun m => ?_
    cases e.mlkemEncapsDerand rank (share.take ekLen) m with
    | none => exact (steady_modifyHs _).bind fun _ => keeps_stop _
    | some pair => exact (steady_modifyHs _).bind fun _ => keeps_pure _

theorem p256ShareLoop_steady (draws : Nat) : Steady (p256ShareLoop e draws) := by
  induction draws with
  | zero => exact keeps_stop _
  | succ draws ih =>
    refine (steady_randDraw 32).bind fun draw => ?_
    cases e.p256EcdhKeygen draw with
    | none => exact ih
    | some pair => exact (steady_modifyHs _).bind fun _ => keeps_pure _

theorem srvKexShare_steady (ch : ClientHello) (group : Nat) : Steady (srvKexShare e ch group) := by
  have own : Steady getHs := fun _ => rfl
  have point : Steady (p256Share e ch) := by
    unfold p256Share
    cases ch.share groupSecp256r1 with
    | none => exact keeps_stop _
    | some point => exact .ite (p256ShareLoop_steady e 4) (keeps_stop _)
  refine .ite (.ite (kemShare_steady e _ _ _ _) (keeps_stop _)) ?_
  refine .ite (own.bind fun _ => keeps_pure _) ?_
  refine .ite (point.bind fun _ => keeps_pure _) ?_
  refine .ite (kemShare_steady e _ _ _ _) (.ite ?_ (keeps_stop _))
  exact (kemShare_steady e _ _ _ _).bind fun _ => own.bind fun _ => keeps_pure _

theorem srvSignCertificateVerify_steady (sigalg hashLen : Nat) (hash : Bytes) :
    Steady (srvSignCertificateVerify e sigalg hashLen hash) := by
  refine Keeps.bind (fun _ => rfl) fun t => ?_
  cases srvIdentityFor e t.cfg sigalg with
  | none => exact steady_refuse _ _
  | some id =>
    refine .ite (steady_refuse _ _) ((steady_randDraw _).bind fun drawn => ?_)
    cases e.sign sigalg (id.priv.getD []) (srvSignedContent e sigalg hash) drawn with
    | none => exact steady_refuse _ _
    | some sig => exact keeps_pure _

theorem srvSelectAuth_steady (ch : ClientHello) (sel : Selection) :
    Steady (srvSelectAuth e ch sel) := by
  have ticket : ∀ sel, Steady (selectTicket e ch sel) := by
    intro sel c
    unfold selectTicket
    rcases findTicket e c.t ch sel with _ | ⟨index,contents⟩
    · rfl
    · dsimp only
      split <;> rfl
  refine Keeps.bind (fun _ => rfl) fun t => ?_
  refine Keeps.bind (.ite (ticket _) (keeps_pure _)) fun sel => ?_
  exact .ite (keeps_pure _) (steady_refuse _ _)

theorem srvSelect_steady (ch : ClientHello) : Steady (srvSelect e ch) := by
  refine Keeps.bind (fun _ => rfl) fun _ => Keeps.bind (fun _ => rfl) fun t => ?_
  refine .ite (keeps_stop _) (.ite (keeps_stop _) (.ite (keeps_stop _) ?_))
  exact .ite (steady_refuse _ _) (.ite (keeps_pure _) (srvSelectAuth_steady e _ _))

theorem srvCheckRetryHello_steady (ch : ClientHello) (sel : Selection) :
    Steady (srvCheckRetryHello e ch sel) := by
  refine Keeps.bind (fun _ => rfl) fun _ => Keeps.bind (fun _ => rfl) fun t => ?_
  cases ch.cookie with
  | none => exact keeps_stop _
  | some cookie =>
    refine .ite (keeps_stop _) ?_
    cases srvCookieOpen e (t.cfg.srv.cookieKey.getD []) cookie with
    | none => exact keeps_stop _
    | some body =>
      refine .ite (keeps_stop _) (.ite (keeps_stop _) (.ite (keeps_stop _) ?_))
      exact .ite (steady_refuse _ _) (srvSelectAuth_steady e _ _)

end ServerSelection

end Chapulin
