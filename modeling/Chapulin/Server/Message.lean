/-
The messages a server builds (`srv_message.c`).

Each builder is the writes of the source, and its equation gives the message
those writes add up to.
-/

import Chapulin.Parser
import Chapulin.Record

namespace Chapulin

open Lib List

structure Selection where
  suite : Nat
  hashLen : Nat
  group : Nat
  sigalg : Nat
  needRetry : Bool
  pskSelected : Bool
  pskIdentity : Nat
  deriving DecidableEq, Repr

def Selection.zero : Selection where
  suite := 0
  hashLen := 0
  group := 0
  sigalg := 0
  needRetry := false
  pskSelected := false
  pskIdentity := 0

def writeHelloHead (sel : Selection) (random sessionId : Bytes) : Writer :=
  wbAll [wbU16 0x0303,wbBytes random,wbU8 sessionId.length,wbBytes sessionId,wbU16 sel.suite,wbU8 0]

def writeSupportedVersions : Writer := wbExt extSupportedVersions 2 (wbU16 tls13)

def buildHello (cap : Nat) (sel : Selection) (random sessionId : Bytes) (exts : List Writer) :
    Option Bytes :=
  wbResult (wbAll [wbU8 hsServerHello,wbNest24 (wbAll [
    writeHelloHead sel random sessionId,
    wbNest16 (wbAll (writeSupportedVersions :: exts))])] (wbInit cap))

def srvBuildServerHello (cap : Nat) (sel : Selection) (random sessionId share : Bytes) :
    Option Bytes :=
  buildHello cap sel random sessionId [
    wbExt extKeyShare (2 + 2 + share.length)
      (wbAll [wbU16 sel.group,wbU16 share.length,wbBytes share]),
    if sel.pskSelected then wbExt extPreSharedKey 2 (wbU16 sel.pskIdentity) else wbAll []]

/-- `srv_build_hello_retry_request`; its random is the one the client looks for. -/
def srvBuildHelloRetryRequest (cap : Nat) (sel : Selection) (sessionId cookie : Bytes) :
    Option Bytes :=
  buildHello cap sel hrrMagic sessionId [
    wbExt extKeyShare 2 (wbU16 sel.group),
    wbExt extCookie (2 + cookie.length) (wbAll [wbU16 cookie.length,wbBytes cookie])]

def srvBuildCompatCcs : Bytes := recordHeader recCcs 1 ++ [1]

def encryptedExtensionsMax (b : Build) : Nat :=
  if b.quic then 6 + 7 + 32 + 4 + 256 else 6 + 6 + 7 + 32

def writeRecordSizeLimit (recordSizeLimit : Nat) : Writer :=
  if recordSizeLimit ≠ 0 then wbExt extRecordSizeLimit 2 (wbU16 recordSizeLimit) else wbAll []

def writeSelectedAlpn : Option Bytes → Writer
  | none => wbAll []
  | some name => wbExt extAlpn (2 + 1 + name.length)
      (wbAll [wbU16 (1 + name.length),wbU8 name.length,wbBytes name])

def writeTransportParams : Option Bytes → Writer
  | none => wbAll []
  | some params => wbExt extQuicTransportParams params.length (wbBytes params)

def srvBuildEncryptedExtensions (cap recordSizeLimit : Nat) (selected : Option Bytes)
    (transportParams : Option Bytes) : Option Bytes :=
  if (transportParams.getD []).length > 256 then none
  else
    wbResult (wbAll [wbU8 hsEncryptedExtensions,wbNest24 (wbNest16 (wbAll [
      writeRecordSizeLimit recordSizeLimit,writeSelectedAlpn selected,
      writeTransportParams transportParams]))] (wbInit cap))

def srvCertificateMessageLen (id : Identity) : Nat :=
  8 + (id.chain.map fun cert => 5 + cert.length).sum

/-- The loop of `srv_certificate_fits`. -/
def certificateFitsLoop : Nat → List Bytes → Bool
  | _, [] => true
  | room, cert :: chain =>
    if cert = [] ∨ room < 5 ∨ cert.length > room - 5 then false
    else certificateFitsLoop (room - (5 + cert.length)) chain

def srvCertificateFits (id : Identity) : Bool := certificateFitsLoop (0xffffff - 4) id.chain

def srvBuildCertificateHeader (id : Identity) : Bytes :=
  let total := srvCertificateMessageLen id
  byte hsCertificate :: (be24 (total - 4) ++ byte 0 :: be24 (total - 8))

/-- An entry of the Certificate message: its length, the certificate and the
suffix that says no extension follows. -/
def certificateEntry (cert : Bytes) : Bytes := be24 cert.length ++ (cert ++ be16 0)

/-- The bytes `srv_send_certificate` hands to the fragmenter. -/
def certificateMessage (id : Identity) : Bytes :=
  srvBuildCertificateHeader id ++ (id.chain.map certificateEntry).flatten

/-- `srv_build_certificate_verify`, and its head followed by the signature; none
for a signature no length field can carry or a message over `cap`. -/
def srvBuildCertificateVerify (cap sigalg : Nat) (sig : Bytes) : Option Bytes :=
  if sig.length = 0 ∨ sig.length > 0xffff then none
  else
    let message := handshakeMessage hsCertificateVerify (be16 sigalg ++ (be16 sig.length ++ sig))
    if message.length ≤ cap then some message else none

def srvBuildFinished (verifyData : Bytes) : Bytes := handshakeMessage hsFinished verifyData

def srvBuildNewSessionTicket (lifetime ageAdd : Nat) (nonce ticket : Bytes) : Option Bytes :=
  if nonce.length > 0xff ∨ ticket.length = 0 ∨ ticket.length > 0xffff then none
  else some (handshakeMessage hsNewSessionTicket
    (be32 lifetime ++ (be32 ageAdd ++ (byte nonce.length :: (nonce ++
      (be16 ticket.length ++ (ticket ++ be16 0)))))))

/-! ### What the writes add up to -/

def recordSizeLimitItems (recordSizeLimit : Nat) : List Item :=
  if recordSizeLimit ≠ 0 then [(extRecordSizeLimit, be16 recordSizeLimit)] else []

def selectedAlpnItems : Option Bytes → List Item
  | none => []
  | some name => [(extAlpn, be16 (1 + name.length) ++ (byte name.length :: name))]

def transportParamsItems : Option Bytes → List Item
  | none => []
  | some params => [(extQuicTransportParams, params)]

def encryptedExtensionItems (recordSizeLimit : Nat) (selected transportParams : Option Bytes) :
    List Item :=
  [recordSizeLimitItems recordSizeLimit,selectedAlpnItems selected,
    transportParamsItems transportParams].flatten

def encryptedExtensionsMessage (items : List Item) : Bytes :=
  handshakeMessage hsEncryptedExtensions
    (be16 (Item.encodeAll items).length ++ Item.encodeAll items)

private theorem writeRecordSizeLimit_items (recordSizeLimit : Nat) :
    WritesItems (writeRecordSizeLimit recordSizeLimit) (recordSizeLimitItems recordSizeLimit) := by
  unfold writeRecordSizeLimit recordSizeLimitItems
  split
  · exact writesItems_one (writes_ext (writes_u16 _) rfl)
  · exact writesItems_none

private theorem writeSelectedAlpn_items (selected : Option Bytes) :
    WritesItems (writeSelectedAlpn selected) (selectedAlpnItems selected) := by
  cases selected with
  | none => exact writesItems_none
  | some name =>
    refine writesItems_one (writes_ext ?_ (by simp; omega))
    simpa using writes_all (.cons (writes_u16 (1 + name.length))
      (.cons (writes_u8 name.length) (.cons (writes_bytes name) .nil)))

private theorem writeTransportParams_items (transportParams : Option Bytes) :
    WritesItems (writeTransportParams transportParams)
      (transportParamsItems transportParams) := by
  cases transportParams with
  | none => exact writesItems_none
  | some params => exact writesItems_one (writes_ext (writes_bytes _) rfl)

private theorem encryptedExtensions_writes (recordSizeLimit : Nat)
    (selected transportParams : Option Bytes) :
    Writes (wbAll [wbU8 hsEncryptedExtensions,wbNest24 (wbNest16 (wbAll [
        writeRecordSizeLimit recordSizeLimit,writeSelectedAlpn selected,
        writeTransportParams transportParams]))])
      (encryptedExtensionsMessage
        (encryptedExtensionItems recordSizeLimit selected transportParams)) := by
  have block := writesItems_all (.cons (writeRecordSizeLimit_items recordSizeLimit)
    (.cons (writeSelectedAlpn_items selected)
      (.cons (writeTransportParams_items transportParams) .nil)))
  exact (writes_u8 hsEncryptedExtensions).comp (writes_nest24 (writes_nest16 block))

theorem srvBuildEncryptedExtensions_length {cap recordSizeLimit : Nat}
    {selected transportParams : Option Bytes} {message : Bytes}
    (built : srvBuildEncryptedExtensions cap recordSizeLimit selected transportParams =
      some message) : message.length ≤ cap := by
  unfold srvBuildEncryptedExtensions at built
  split at built
  · cases built
  · exact wbResult_length (encryptedExtensions_writes _ _ _) built

/-! ### How long the messages are -/

@[simp] theorem handshakeMessage_length (type : Nat) (body : Bytes) :
    (handshakeMessage type body).length = 4 + body.length := by
  simp only [handshakeMessage,length_cons,length_append,be24_length]
  omega

theorem certificateMessage_length (id : Identity) :
    (certificateMessage id).length = srvCertificateMessageLen id := by
  have entry (cert : Bytes) : (certificateEntry cert).length = 5 + cert.length := by
    simp only [certificateEntry,length_append,be24_length,be16_length]
    omega
  have entries : ((id.chain.map certificateEntry).flatten).length =
      (id.chain.map fun cert => 5 + cert.length).sum := by
    simp only [length_flatten,map_map,Function.comp_def,entry]
  simp only [certificateMessage,srvBuildCertificateHeader,length_append,length_cons,be24_length,
    entries,srvCertificateMessageLen]

theorem certificateFitsLoop_sum {room : Nat} {chain : List Bytes}
    (fits : certificateFitsLoop room chain = true) :
    (chain.map fun cert => 5 + cert.length).sum ≤ room := by
  induction chain generalizing room with
  | nil => exact Nat.zero_le _
  | cons cert chain ih =>
    rw [certificateFitsLoop] at fits
    split at fits
    · cases fits
    rename_i room'
    have rest := ih fits
    rw [map_cons,sum_cons]
    omega

theorem certificateMessage_fits {id : Identity} (fits : srvCertificateFits id = true) :
    (certificateMessage id).length ≤ 4 + 0xffffff := by
  have sum := certificateFitsLoop_sum fits
  rw [certificateMessage_length,srvCertificateMessageLen]
  omega

theorem srvBuildCertificateVerify_length {cap sigalg : Nat} {sig message : Bytes}
    (built : srvBuildCertificateVerify cap sigalg sig = some message) : message.length ≤ cap := by
  unfold srvBuildCertificateVerify at built
  split at built
  · cases built
  dsimp only at built
  split at built
  · rename_i room
    cases built
    exact room
  · cases built

theorem srvBuildNewSessionTicket_length {lifetime ageAdd : Nat} {nonce ticket message : Bytes}
    (built : srvBuildNewSessionTicket lifetime ageAdd nonce ticket = some message) :
    message.length ≤ 4 + (0xff + 0xffff + 13) := by
  unfold srvBuildNewSessionTicket at built
  split at built
  · cases built
  rename_i short
  cases built
  simp only [handshakeMessage_length,length_append,length_cons,be32_length,be16_length]
  omega

end Chapulin
