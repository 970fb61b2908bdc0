/-
The client's message parsers (`handshake_parser.c`, `handshake_parser_ee.c`).

A parser is a computation over what it writes through its out parameters, so a
refused message leaves there what the extensions before the refusal wrote.
-/

import Chapulin.Hello

namespace Chapulin

open Lib Alert

def hrrMagic : Bytes :=
  [0xcf,0x21,0xad,0x74,0xe5,0x9a,0x61,0x11,0xbe,0x1d,0x8c,0x02,0x1e,0x65,0xb8,0x91,0xc2,0xa2,0x11,
   0x16,0x7a,0xbb,0x8c,0x5e,0x07,0x9e,0x09,0xe2,0xc8,0xa8,0x33,0x9c]

def cookieMax (b : Build) : Nat := if b.cnsa2 then 133 else 128

structure ServerHelloInfo where
  hrr : Bool
  versionOk : Bool
  haveShare : Bool
  pskOk : Bool
  seen : List Nat
  group : Nat
  serverPub : Bytes
  serverCt : Bytes
  serverP256 : Bytes
  retryGroup : Nat
  cookie : Option Bytes
  suite : Nat
  deriving DecidableEq, Repr

def ServerHelloInfo.zero : ServerHelloInfo where
  hrr := false
  versionOk := false
  haveShare := false
  pskOk := false
  seen := []
  group := 0
  serverPub := []
  serverCt := []
  serverP256 := []
  retryGroup := 0
  cookie := none
  suite := 0

/-- Whether a ServerHello extension has a bit in `seen`. -/
def serverHelloExtKnown (ext : Nat) : Bool :=
  [extSupportedVersions,extKeyShare,extPreSharedKey,extCookie].contains ext

def shSuiteOffered (b : Build) (suite : Nat) : Bool :=
  if b.clientAesSuites then
    [suiteChacha20Poly1305Sha256,suiteAes128GcmSha256,suiteAes256GcmSha384].contains suite
  else if b.cnsa2 then suite == suiteAes256GcmSha384
  else suite == suiteChacha20Poly1305Sha256

def readShare (length : Nat) (e : Rbuf) : Option (Bytes × Rbuf) :=
  let (declared, e) := rbU16 e
  if declared ≠ length then none
  else match rbBytes length e with
    | (some share, e) => some (share, e)
    | (none, _) => none

def parseKeyShare (b : Build) (info : ServerHelloInfo) (hrr : Bool) (e : Rbuf) :
    Option (ServerHelloInfo × Rbuf) :=
  let (group, e) := rbU16 e
  if hrr then
    if b.twoGroups && group == groupSecp256r1 then
      some ({ info with retryGroup := groupSecp256r1 }, e)
    else none
  else if b.twoGroups && group == groupX25519 then do
    let (pub, e) ← readShare 32 e
    some ({ info with serverPub := pub, group := groupX25519, haveShare := true }, e)
  else if b.twoGroups && group == groupSecp256r1 then do
    let (point, e) ← readShare p256PointLen e
    some ({ info with serverP256 := point, group := groupSecp256r1, haveShare := true }, e)
  else if group ≠ (if b.twoGroups then groupX25519Mlkem768 else kexGroup b) then none
  else do
    let (share, e) ←
      readShare (if b.twoGroups then hybridServerShare else kexServerShare b) e
    let ctLen := if b.kexMlkem then mlkemCtLen b else 0
    some ({ info with
      serverCt := share.take ctLen
      serverPub := if b.cnsa2 then info.serverPub else share.drop ctLen
      group := group
      haveShare := true }, e)

def parseCookie (b : Build) (info : ServerHelloInfo) (hrr : Bool) (e : Rbuf) :
    Option (ServerHelloInfo × Rbuf) :=
  if !hrr then none
  else
    let (length, e) := rbU16 e
    match rbBytes length e with
    | (none, _) => none
    | (some cookie, e) =>
      if length > cookieMax b then none else some ({ info with cookie := some cookie }, e)

/-- The `switch` of `parse_server_hello_ext`. -/
def serverHelloArm (b : Build) (info : ServerHelloInfo) (ext : Nat) (e : Rbuf) :
    Option (ServerHelloInfo × Rbuf) :=
  if ext = extSupportedVersions then
    let (version, e) := rbU16 e
    some ({ info with versionOk := version == tls13 }, e)
  else if ext = extKeyShare then parseKeyShare b info info.hrr e
  else if ext = extPreSharedKey then
    let (identity, e) := rbU16 e
    some ({ info with pskOk := identity == 0 }, e)
  else parseCookie b info info.hrr e

/-- `parse_server_hello_ext` after the extension is read off the block. -/
def parseServerHelloExt (b : Build) (pskMode : Bool) (ext : Nat) (data : Bytes) :
    Proc ServerHelloInfo Rc Unit := fun info =>
  if ext = extPreSharedKey ∧ (info.hrr || !pskMode) then (.error .eproto, info)
  else if !serverHelloExtKnown ext then (.error .eproto, info)
  else if info.seen.contains ext then (.error .eproto, info)
  else
    let info := { info with seen := ext :: info.seen }
    match serverHelloArm b info ext (rbInit data) with
    | none => (.error .eproto, info)
    | some (info, e) =>
      if e.err || rbLeft e != 0 then (.error .eproto, info) else (.ok (), info)

def hspParseServerHello (b : Build) (body : Bytes) (pskMode : Bool) :
    Proc ServerHelloInfo Rc Unit := fun info =>
  let (version, r) := rbU16 (rbInit body)
  if version ≠ 0x0303 then (.error .eproto, info)
  else match rbBytes 32 r with
    | (none, _) => (.error .eproto, info)
    | (some random, r) =>
      let info := { info with hrr := random == hrrMagic }
      let (sessionIdLen, r) := rbU8 r
      if sessionIdLen ≠ 0 then (.error .eproto, info)
      else
        let (suite, r) := rbU16 r
        let info := if b.aesGcm then { info with suite := suite } else info
        let (compression, r) := rbU8 r
        if !shSuiteOffered b suite || compression != 0 then (.error .eproto, info)
        else
          let (extsLen, r) := rbU16 r
          if r.err || extsLen != rbLeft r then (.error .eproto, info)
          else
            match rbForItems (Proc.stop .eproto) (parseServerHelloExt b pskMode)
                (rbLeft r) r info with
            | (.error rc, info) => (.error rc, info)
            | (.ok _, info) => if info.versionOk then (.ok (), info) else (.error .eproto, info)

/-- `hsp_parse_certificate`: the certificate list; the second part is the alert
the parser writes. -/
def hspParseCertificate (body : Bytes) (alert : Nat) : Except Rc Bytes × Nat :=
  let (contextLen, r) := rbU8 (rbInit body)
  if contextLen ≠ 0 then (.error .eproto, illegalParameter)
  else
    let (length, r) := rbU24 r
    if r.err || length != rbLeft r || length == 0 then (.error .eproto, alert)
    else (.ok r.rest, alert)

def certificateVerifySchemeOk (algorithm : Nat) : Bool :=
  [sigalgRsaPssRsaeSha256,sigalgEcdsaP256Sha256,sigalgEcdsaP384Sha384].contains algorithm

/-- `hsp_parse_certificate_verify`: the scheme and the signature. -/
def hspParseCertificateVerify (b : Build) (body : Bytes) (alert : Nat) :
    Except Rc (Nat × Bytes) × Nat :=
  let (algorithm, r) := rbU16 (rbInit body)
  if !(if b.webpki then certificateVerifySchemeOk algorithm else algorithm == pinSigalg b) then
    (.error .eauth, handshakeFailure)
  else
    let (length, r) := rbU16 r
    match rbBytes length r with
    | (none, _) => (.error .eproto, alert)
    | (some sig, r) =>
      if rbLeft r ≠ 0 then (.error .eproto, alert) else (.ok (algorithm, sig), alert)

/-! ### EncryptedExtensions -/

structure EeOffer where
  alpn : List Bytes
  serverNameSent : Bool
  certTypes : List Nat

structure EeOut where
  peerLimit : Nat
  selected : Nat
  certType : Nat
  transportParams : Option Bytes
  alert : Nat
  seen : List Nat
  deriving DecidableEq, Repr

def parseRecordSizeLimit (data : Bytes) (peerLimit : Nat) : Option Nat :=
  let (limit, e) := rbU16 (rbInit data)
  if e.err || rbLeft e != 0 || limit < 64 then none
  else some (min (limit - 1) peerLimit)

/-- `parse_alpn`: the index of the selected name, or the alert. -/
def parseAlpn (b : Build) (offered : List Bytes) (data : Bytes) : Except Nat Nat :=
  let (listLen, e) := rbU16 (rbInit data)
  let (nameLen, e) := rbU8 e
  match rbBytes nameLen e with
  | (none, _) => .error decodeError
  | (some name, e) =>
    if e.err || nameLen == 0 || listLen != 1 + nameLen || rbLeft e != 0 then
      .error decodeError
    else match offered.findIdx? (· == name) with
      | some i => .ok (i % 256)
      | none => .error (if b.quic then noApplicationProtocol else illegalParameter)

def parseServerCertType (certTypes : List Nat) (data : Bytes) : Except Nat Nat :=
  let (type, e) := rbU8 (rbInit data)
  if e.err || rbLeft e != 0 then .error decodeError
  else if !certTypes.contains type then .error illegalParameter
  else .ok type

/-- The bit of an extension that the build's arms take and what they write, or
the alert of the arm that refused it.  Bits: 0 record_size_limit, 1
supported_groups, 2 server_name, 3 ALPN, 4 transport parameters, 5 certificate
type. -/
def eeArm (b : Build) (offer : EeOffer) (ext : Nat) (data : Bytes) (out : EeOut) :
    Except (Rc × EeOut) (Nat × EeOut) :=
  if ext = extRecordSizeLimit then
    match parseRecordSizeLimit data out.peerLimit with
    | none => .error (.eproto, out)
    | some limit => .ok (0, { out with peerLimit := limit })
  else if ext = extSupportedGroups then .ok (1, out)
  else if (b.webpki || b.quic) && ext == extAlpn && offer.alpn != [] then
    match parseAlpn b offer.alpn data with
    | .error alert => .error (.eproto, { out with alert := alert })
    | .ok selected => .ok (3, { out with selected := selected })
  else if b.webpki && ext == extServerName && offer.serverNameSent then
    if data.length = 0 then .ok (2, out)
    else .error (.eproto, { out with alert := decodeError })
  else if b.webpki && ext == extServerCertificateType && offer.certTypes != [] then
    match parseServerCertType offer.certTypes data with
    | .error alert => .error (.eproto, { out with alert := alert })
    | .ok type => .ok (5, { out with certType := type })
  else if b.quic && ext == extQuicTransportParams then
    .ok (4, { out with transportParams := some data })
  else .error (.eproto, { out with alert := unsupportedExtension })

def eeStep (b : Build) (offer : EeOffer) (ext : Nat) (data : Bytes) : Proc EeOut Rc Unit :=
  fun out =>
    match eeArm b offer ext data out with
    | .error (rc, out) => (.error rc, out)
    | .ok (bit, out) =>
      if out.seen.contains bit then (.error .eproto, out)
      else (.ok (), { out with seen := bit :: out.seen })

def hspParseEncryptedExts (b : Build) (offer : EeOffer) (body : Bytes) : Proc EeOut Rc Unit :=
  fun out =>
    let (extsLen, r) := rbU16 (rbInit body)
    if r.err || extsLen != rbLeft r then (.error .eproto, out)
    else
      match rbForItems (Proc.stop .eproto) (eeStep b offer) (rbLeft r) r
          { out with seen := [] } with
      | (.error rc, out) => (.error rc, out)
      | (.ok _, out) =>
        if b.quic && !out.seen.contains 4 then
          (.error .eproto, { out with alert := missingExtension })
        else (.ok (), out)

end Chapulin
