/-
The server's authentication (`handshake_auth.c`): the Certificate under the
build's trust rule, and the CertificateVerify under the key that rule accepted.
-/

import Chapulin.Flight

namespace Chapulin

open Lib Proc Alert

/-- The context string, with the terminating NUL that `sizeof` counts. -/
def verifyContext : Bytes :=
  [0x54,0x4c,0x53,0x20,0x31,0x2e,0x33,0x2c,0x20,0x73,0x65,0x72,0x76,0x65,0x72,0x20,0x43,0x65,0x72,
   0x74,0x69,0x66,0x69,0x63,0x61,0x74,0x65,0x56,0x65,0x72,0x69,0x66,0x79,0x00]

/-- `hsa_signed_content`: 64 spaces, the context and the transcript hash. -/
def hsaSignedContent (hash : Bytes) : Bytes := List.replicate 64 0x20 ++ verifyContext ++ hash

section ServerAuth

variable (e : Env)

def hsaHashSignedContent (scheme : Nat) (hash : Bytes) : Bytes :=
  if e.build.webpki && scheme == sigalgEcdsaP384Sha384 then
    e.hash sha384Len (hsaSignedContent hash)
  else e.hash sha256Len (hsaSignedContent hash)

def verifyContent (scheme : Nat) (hash : Bytes) : Bytes :=
  if e.build.pin = .mldsa then hsaSignedContent hash else hsaHashSignedContent e scheme hash

def epochCheck : Handler Unit := fun c =>
  if c.t.cfg.epochLoad.isNone then (.ok (), c)
  else
    let t := { c.t with epochSeen := if c.h.leaf.epochOk then c.h.leaf.epoch else 0 }
    if !c.h.leaf.epochOk || c.h.leaf.epoch > t.epoch + epochBound then
      refuse badCertificate .eauth { c with t := { t with epochStatus := epochUntrusted } }
    else if c.h.leaf.epoch < t.epoch then
      refuse certificateRevoked .eauth { c with t := { t with epochStatus := epochRevoked } }
    else
      (.ok (), { c with t := { t with
        epochStatus := if c.h.leaf.epoch > t.epoch then epochAhead else epochMatched } })

def hsaEpochCommit : Handler Unit := fun c =>
  if !c.h.serverFinishedOk then (.error .assertFail, c)
  else if c.t.cfg.epochLoad.isNone || !c.h.leaf.epochOk || decide (c.h.leaf.epoch ≤ c.t.epoch) then
    (.ok (), c)
  else
    (.ok (), { c with t := { c.t with
      epoch := c.h.leaf.epoch
      epochStoreFailed := !c.t.cfg.epochStore.getD true
      calls := c.t.calls ++ [.epochStore c.h.leaf.epoch] } })

def webpkiServerKey (t : Tls) (list : Bytes) : Except Rc LeafInfo × Nat :=
  if t.serverCertType = certTypeRawPublicKey then
    e.webpkiVerifyRawKey list t.cfg badCertificate
  else if t.cfg.anchors = [] then e.webpkiVerifyLeafPin list t.cfg badCertificate
  else
    match e.webpkiVerifyChain list t.cfg t.nowSeconds badCertificate with
    | (.error rc, alert) => (.error rc, alert)
    | (.ok leaf, alert) =>
      if t.cfg.spkiPins ≠ [] ∧ !e.webpkiPathPinned list t.cfg leaf then
        (.error .eauth, badCertificate)
      else (.ok leaf, alert)

/-- The build's trust rule on a certificate list: the leaf it accepts, and the
alert left behind.  A raw key build reads nothing from the list. -/
def serverKey (t : Tls) (list : Bytes) (alert : Nat) : Except Rc LeafInfo × Nat :=
  match e.build.trust with
  | .raw => (.ok .none, alert)
  | .ca => e.x509VerifyLeaf list t.cfg.serverPubkey t.cfg.serverPubkey2 badCertificate
  | .webpki => webpkiServerKey e t list

/-- The certificate's slot and its epoch, a `CH_TRUST_CA` rule. -/
def takeLeaf (leaf : LeafInfo) : Handler Unit := fun c =>
  let c := { c with h := { c.h with leaf := leaf } }
  if e.build.trust = .ca then epochCheck { c with t := { c.t with pinSlot := leaf.caSlot } }
  else (.ok (), c)

/-- `hsa_server_auth` after the message is read, up to the transcript. -/
def onCertificate (raw : Bytes) : Handler Unit := fun c =>
  if msgType raw = hsCertificateRequest then refuse handshakeFailure .eauth c
  else if msgType raw ≠ hsCertificate then refuse unexpectedMessage .eproto c
  else
    match hspParseCertificate (msgBody raw) decodeError with
    | (.error rc, alert) => refuse alert rc c
    | (.ok list, alert) =>
      match serverKey e c.t list alert with
      | (.error rc, alert) => refuse alert rc c
      | (.ok leaf, alert) =>
        match takeLeaf e leaf { c with h := { c.h with alert := alert } } with
        | (.error rc, c) => (.error rc, c)
        | (.ok _, c) => (.ok (), { c with t := { c.t with
            transcript := transcriptUpdate c.t.transcript raw } })

/-- The keys a CertificateVerify may verify under, in the order they are tried. -/
def trustedKeys (c : Core) : List Bytes :=
  match e.build.trust with
  | .raw =>
    match c.t.cfg.serverPubkey with
    | none => []
    | some first => first :: c.t.cfg.serverPubkey2.toList
  | _ => [c.h.leaf.key]

/-- `check_certificate_verify` after the message is read; `hash` is the
transcript hash taken before. -/
def onCertificateVerify (hash raw : Bytes) : Handler Unit := fun c =>
  if msgType raw ≠ hsCertificateVerify then refuse unexpectedMessage .eproto c
  else
    match hspParseCertificateVerify e.build (msgBody raw) decodeError with
    | (.error rc, alert) => refuse alert rc c
    | (.ok (scheme, sig), alert) =>
      let c := { c with h := { c.h with alert := alert } }
      if e.build.webpki && scheme != c.h.leaf.scheme then
        refuse illegalParameter .eauth c
      else
        match (trustedKeys e c).findIdx? fun key =>
            e.verify scheme key (verifyContent e scheme hash) sig with
        | none => refuse decryptError .eauth c
        | some slot =>
          (.ok (), { c with t := { c.t with
            pinSlot := if e.build.trust = .raw then slot + 1 else c.t.pinSlot
            transcript := transcriptUpdate c.t.transcript raw } })

def hsaReadCertificateVerify : Act Unit := do
  let before ← Proc.gets St.core
  let hash := hsrTranscriptHash e before (hsrSuiteHashLen e.build before.h)
  let raw ← hsrNextMsg e
  onCore (onCertificateVerify e hash raw)

/-- `hsa_server_auth`: the Certificate, and in the blocking build the
CertificateVerify behind it. -/
def hsaServerAuth : Act Unit := do
  let raw ← hsrNextMsg e
  onCore (onCertificate e raw)
  if e.build.transport = .tcpBlocking then hsaReadCertificateVerify e else pure ()

/-! ### Around the messages -/

def installHandshakeKeys : Handler Unit := modifyCore fun c =>
  { t := { c.t with
      rd := recDirInitSuite e c.h.sHs c.h.suite
      wr := recDirInitSuite e c.h.cHs c.h.suite
      keys := true
      spent := c.t.spentBoth }
    h := { c.h with encrypted := true } }

def installTrafficKeys : Handler Unit := modifyCore fun c =>
  { c with t := { c.t with
      rd := recDirInitSuite e c.t.rdSecret c.h.suite
      wr := recDirInitSuite e c.t.wrSecret c.h.suite
      spent := c.t.spentBoth } }

/-- `room` of the init functions, as the record_size_limit to offer. -/
def recordSizeLimitOf (bufLen : Nat) : Nat := min 0x4001 (bufLen - recHdr - aeadTag)

/-- The epoch commit of a `CH_TRUST_CA` build. -/
def commitEpoch : Handler Unit := if e.build.trust = .ca then hsaEpochCommit else pure ()

/-- A session after `memset`, over the caller's buffer and transport. -/
def blankSt (t : Tls) (buf : Bytes) (io : Io) : St :=
  { t := t, h := .wiped, rx := .fresh buf, io := { io with tx := zeros (txCap e.build) } }

/-- The state `hsf_begin` starts from.  Whether no ALPN name is selected yet, or
the field keeps its zero, is the driver's. -/
def clientStart (clearAlpn : Bool) (t : Tls) : Core :=
  { t := { t with
      limitSent := true
      peerLimit := e.build.txPt
      alpnSelected := if clearAlpn then alpnNone else t.alpnSelected }
    h := { Hs.wiped with
      alert := decodeError
      recordSizeLimit := recordSizeLimitOf t.cfg.bufLen } }

/-! ### What the handlers leave alone -/

theorem takeLeaf_steady (leaf : LeafInfo) : Steady (takeLeaf e leaf) := by
  intro c
  unfold takeLeaf epochCheck
  dsimp only
  split
  · split
    · rfl
    split
    · rfl
    split <;> rfl
  · rfl

theorem onCertificate_steady (raw : Bytes) : Steady (onCertificate e raw) := by
  intro c
  unfold onCertificate
  split
  · rfl
  split
  · rfl
  rcases hspParseCertificate (msgBody raw) decodeError with ⟨_ | list,alert⟩
  · rfl
  dsimp only
  rcases serverKey e c.t list alert with ⟨_ | leaf,alert⟩
  · rfl
  have kept := takeLeaf_steady e leaf { c with h := { c.h with alert := alert } }
  dsimp only
  rcases took : takeLeaf e leaf { c with h := { c.h with alert := alert } } with ⟨_ | _,next⟩ <;>
    (rw [took] at kept; exact kept)

theorem onCertificateVerify_steady (hash raw : Bytes) :
    Steady (onCertificateVerify e hash raw) := by
  intro c
  unfold onCertificateVerify
  split
  · rfl
  rcases hspParseCertificateVerify e.build (msgBody raw) decodeError with
    ⟨_ | ⟨scheme,sig⟩,alert⟩
  · rfl
  dsimp only
  split
  · rfl
  split <;> rfl

theorem commitEpoch_steady : Steady (commitEpoch e) := by
  refine Keeps.ite ?_ (keeps_pure _)
  intro c
  unfold hsaEpochCommit
  split
  · rfl
  split <;> rfl

theorem installHandshakeKeys_fixes : Fixes (installHandshakeKeys e) := fun _ => rfl

theorem installTrafficKeys_fixes : Fixes (installTrafficKeys e) := fun _ => rfl

end ServerAuth

end Chapulin
