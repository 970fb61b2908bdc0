/-
Build options and the constants the protocol code compares against.

Every `#ifdef` of the source is a field or a derived flag of `Build`, and the
combinations the headers refuse with `#error` cannot be built.  Code points are
the naturals the wire carries (`handshake_message.h`, `record.h`,
`public_sizes.h`, `result.h`).
-/

import Chapulin.Lib.Octets

namespace Chapulin

/-- `TRUST=`: a pinned raw key, a pinned certificate authority, or a WebPKI chain. -/
inductive Trust where
  | raw | ca | webpki
  deriving DecidableEq, Repr

inductive Transport where
  | tcpBlocking | tcpNonblocking | quic
  deriving DecidableEq, Repr

inductive Role where
  | client | server | both
  deriving DecidableEq, Repr

inductive PinAlg where
  | rsa | ecdsa | mldsa
  deriving DecidableEq, Repr

structure Build where
  trust : Trust
  transport : Transport
  role : Role
  pin : PinAlg
  /-- `CH_KEX_PQ`. -/
  kexPq : Bool
  /-- `CH_PROFILE_CNSA2`. -/
  cnsa2 : Bool
  /-- `CH_SUITE_AES_GCM`. -/
  aesGcm : Bool
  /-- `CH_CPU_RUNTIME`. -/
  cpuRuntime : Bool
  /-- `CH_EXPORTER`. -/
  exporter : Bool
  /-- `CH_SIGN_MLDSA`. -/
  signMldsa : Bool
  /-- `CH_TX_PT`. -/
  txPt : Nat
  /-- `CH_MIN_RXBUF`. -/
  minRxbuf : Nat
  txPtRange : 512 ≤ txPt ∧ txPt ≤ 16384
  txPtQuic : transport = .quic → txPt = 512
  minRxbufFloor : (if transport = .quic then 490 else 512) ≤ minRxbuf
  pqWithoutWebpki : kexPq = true → trust ≠ .webpki
  cnsa2Rules : cnsa2 = true →
    kexPq = false ∧ trust ≠ .webpki ∧ role ≠ .both ∧ aesGcm = true
  cnsa2Server : cnsa2 = true → role = .server → cpuRuntime = true ∧ signMldsa = true
  mldsaPin : pin = .mldsa → cnsa2 = true
  serverTrust : role = .server → trust = .raw
  aesClient : aesGcm = true → role = .client → trust = .webpki ∨ cnsa2 = true

/-- The build of a transport and a role with every other option at its default. -/
def Build.plain (transport : Transport) (role : Role) : Build where
  trust := .raw
  transport := transport
  role := role
  pin := .rsa
  kexPq := false
  cnsa2 := false
  aesGcm := false
  cpuRuntime := false
  exporter := false
  signMldsa := false
  txPt := 512
  minRxbuf := 512
  txPtRange := by omega
  txPtQuic := fun _ => rfl
  minRxbufFloor := by split <;> omega
  pqWithoutWebpki := by simp
  cnsa2Rules := by simp
  cnsa2Server := by simp
  mldsaPin := by simp
  serverTrust := fun _ => rfl
  aesClient := by simp

namespace Build

variable (b : Build)

def roleServer : Bool := b.role != .client

def webpki : Bool := b.trust == .webpki

def quic : Bool := b.transport == .quic

/-- `CH_KEX_TWO_GROUPS`: every WebPKI client offers two groups. -/
def twoGroups : Bool := b.webpki

def kexHybrid : Bool := b.kexPq || b.twoGroups

def kexMlkem : Bool := b.kexHybrid || b.cnsa2

def clientAesSuites : Bool := b.aesGcm && b.webpki

def suiteCnsa2Server : Bool := b.cnsa2 && b.roleServer

def txAesSuites : Nat := if b.aesGcm && b.webpki then 4 + 16 else 0

def txHello : Nat :=
  if b.quic then
    if b.webpki then 2650 + b.txAesSuites
    else if b.cnsa2 && !b.roleServer then 2698
    else if b.kexPq then 2325
    else if b.roleServer then 1664 else 1141
  else if b.webpki then 2396 + b.txAesSuites
  else if b.cnsa2 && !b.roleServer then 2174
  else if b.kexPq then 1801
  else if b.roleServer then 1664 else 617

def txStage : Nat := if b.quic then b.txHello else max b.txHello (b.txPt + 1 + 16)

end Build

/-- The result codes of `result.h` other than `CH_OK`, and the failed assertion. -/
inductive Rc where
  | eio | eproto | eauth | ecap | eclosed | einval
  | quicDiscard | quicAeadLimit | tcpAgain | keyUpdateLimit
  /-- `ch_assert_fail`: the program stops. -/
  | assertFail
  deriving DecidableEq, Repr

inductive SessionState where
  | start | connected | closed | failed
  deriving DecidableEq, Repr

/-! ### Lengths -/

def sha256Len : Nat := 32
def sha384Len : Nat := 48
def aeadTag : Nat := 16
def recHdr : Nat := 5
def recAesGcmRecordsMax : Nat := 16777216
def quietCap : Nat := 32
def keyUpdateRunMax : Nat := 16

def uint64Max : Nat := 18446744073709551615

/-! ### Record content types -/

def recCcs : Nat := 20
def recAlert : Nat := 21
def recHandshake : Nat := 22
def recAppdata : Nat := 23

/-! ### Handshake message types -/

def hsClientHello : Nat := 1
def hsServerHello : Nat := 2
def hsNewSessionTicket : Nat := 4
def hsEncryptedExtensions : Nat := 8
def hsCertificate : Nat := 11
def hsCertificateRequest : Nat := 13
def hsCertificateVerify : Nat := 15
def hsFinished : Nat := 20
def hsKeyUpdate : Nat := 24
def hsMessageHash : Nat := 254

/-! ### Extension types -/

def extServerName : Nat := 0
def extSupportedGroups : Nat := 10
def extSignatureAlgorithms : Nat := 13
def extAlpn : Nat := 16
def extServerCertificateType : Nat := 20
def extRecordSizeLimit : Nat := 28
def extPreSharedKey : Nat := 41
def extEarlyData : Nat := 42
def extSupportedVersions : Nat := 43
def extCookie : Nat := 44
def extPskModes : Nat := 45
def extKeyShare : Nat := 51
def extQuicTransportParams : Nat := 0x39

def tls13 : Nat := 0x0304

/-! ### Groups, suites and signature schemes -/

def groupX25519 : Nat := 0x001d
def groupX25519Mlkem768 : Nat := 0x11ec
def groupSecp256r1 : Nat := 0x0017
def groupMlkem1024 : Nat := 0x0202

def suiteChacha20Poly1305Sha256 : Nat := 0x1303
def suiteAes128GcmSha256 : Nat := 0x1301
def suiteAes256GcmSha384 : Nat := 0x1302

def sigalgEcdsaP256Sha256 : Nat := 0x0403
def sigalgRsaPssRsaeSha256 : Nat := 0x0804
def sigalgEcdsaP384Sha384 : Nat := 0x0503
def sigalgRsaPkcs1Sha256 : Nat := 0x0401
def sigalgRsaPkcs1Sha384 : Nat := 0x0501
def sigalgMldsa87 : Nat := 0x0906

def pinSigalg (b : Build) : Nat :=
  match b.pin with
  | .ecdsa => sigalgEcdsaP256Sha256
  | .mldsa => sigalgMldsa87
  | .rsa => sigalgRsaPssRsaeSha256

def alpnNone : Nat := 255

def certTypeRawPublicKey : Nat := 2

/-! ### Certificate epochs -/

def epochMax : Nat := 16799
def epochBound : Nat := 64
def epochMatched : Nat := 1
def epochAhead : Nat := 2
def epochRevoked : Nat := 3
def epochUntrusted : Nat := 4

/-! ### Alert descriptions -/

namespace Alert

def closeNotify : Nat := 0
def unexpectedMessage : Nat := 10
def badRecordMac : Nat := 20
def recordOverflow : Nat := 22
def handshakeFailure : Nat := 40
def badCertificate : Nat := 42
def unsupportedCertificate : Nat := 43
def certificateRevoked : Nat := 44
def certificateExpired : Nat := 45
def illegalParameter : Nat := 47
def unknownCa : Nat := 48
def decodeError : Nat := 50
def decryptError : Nat := 51
def protocolVersion : Nat := 70
def internalError : Nat := 80
def userCanceled : Nat := 90
def missingExtension : Nat := 109
def unsupportedExtension : Nat := 110
def noApplicationProtocol : Nat := 120

end Alert

/-! ### Cipher suites (`suite.h`) -/

def suiteHashLen (b : Build) (suite : Nat) : Nat :=
  if b.suiteCnsa2Server then
    if suite = suiteAes256GcmSha384 then sha384Len else 0
  else if b.aesGcm && suite == suiteAes256GcmSha384 then sha384Len
  else if b.aesGcm && suite == suiteAes128GcmSha256 then sha256Len
  else if suite = suiteChacha20Poly1305Sha256 then sha256Len else 0

def suiteKeyLen (suite : Nat) : Nat := if suite = suiteAes128GcmSha256 then 16 else 32

/-- Whether `suite` runs AES-GCM; a build without `CH_SUITE_AES_GCM` has no such
suite and runs ChaCha20-Poly1305 whatever the field holds. -/
def suiteRunsAesGcm (b : Build) (suite : Nat) : Bool :=
  b.aesGcm && (suite == suiteAes128GcmSha256 || suite == suiteAes256GcmSha384)

end Chapulin
