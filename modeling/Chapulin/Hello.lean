/-
The ClientHello builder (`handshake_message.c`).

`hsBuildClientHello` follows the source write by write.  `clientHelloExts` lists
the extensions those writes add up to, and `hsBuildClientHello_eq` says that the
message is exactly the fixed fields followed by the encoding of that list, or
nothing when it does not fit.
-/

import Chapulin.Buf
import Chapulin.Session

namespace Chapulin

open Lib List

def mlkemRank (b : Build) : Nat := if b.cnsa2 then 4 else 3

def mlkemEkLen (b : Build) : Nat := if b.cnsa2 then 1568 else 1184

def mlkemCtLen (b : Build) : Nat := if b.cnsa2 then 1568 else 1088

def hybridClientShare : Nat := 1184 + 32
def hybridServerShare : Nat := 1088 + 32
def p256PointLen : Nat := 65

def kexGroup (b : Build) : Nat :=
  if b.cnsa2 then groupMlkem1024 else if b.kexPq then groupX25519Mlkem768 else groupX25519

def kexClientShare (b : Build) : Nat :=
  if b.cnsa2 then mlkemEkLen b else if b.kexPq then hybridClientShare else 32

def kexServerShare (b : Build) : Nat :=
  if b.cnsa2 then mlkemCtLen b else if b.kexPq then hybridServerShare else 32

def suiteDefaultOrder (b : Build) : List Nat :=
  if b.suiteCnsa2Server then [suiteAes256GcmSha384]
  else if b.aesGcm && b.cpuRuntime then
    [suiteAes256GcmSha384,suiteAes128GcmSha256,suiteChacha20Poly1305Sha256]
  else if b.aesGcm then
    [suiteChacha20Poly1305Sha256,suiteAes128GcmSha256,suiteAes256GcmSha384]
  else [suiteChacha20Poly1305Sha256]

def suiteSessionDefault (b : Build) (cfg : Cfg) : List Nat :=
  if b.cpuRuntime && b.aesGcm && !b.suiteCnsa2Server && !cfg.constantTimeAes then
    [suiteChacha20Poly1305Sha256]
  else suiteDefaultOrder b

def hsOfferedSuites (b : Build) (cfg : Cfg) : List Nat :=
  if cfg.cipherSuites ≠ [] then cfg.cipherSuites else suiteSessionDefault b cfg

def helloSuites (b : Build) (cfg : Cfg) : List Nat :=
  if b.clientAesSuites then hsOfferedSuites b cfg
  else if b.cnsa2 then [suiteAes256GcmSha384]
  else [suiteChacha20Poly1305Sha256]

def hsSuiteOffered (b : Build) (cfg : Cfg) (suite : Nat) : Bool :=
  (helloSuites b cfg).contains suite

def hsPskHashLen (b : Build) (cfg : Cfg) : Nat :=
  if b.cnsa2 then sha384Len
  else if b.clientAesSuites && cfg.ticket.isSome &&
      (cfg.psk.getD []).length == sha384Len then sha384Len
  else sha256Len

def bindersTail (hashLen : Nat) : Nat := 3 + hashLen

def ticketObfuscatedAge (ticket : Ticket) (ageMs : Nat) : Nat :=
  (ageMs % 4294967296 + ticket.ageAdd) % 4294967296

/-- `webpki_cert_types_offered`: X.509 (0) and raw public key (2), or nothing. -/
def webpkiCertTypesOffered (cfg : Cfg) : List Nat := if cfg.spkiPins = [] then [] else [2,0]

/-! ### The writes -/

def wbExt (type length : Nat) (body : Writer) : Writer := wbAll [wbU16 type,wbU16 length,body]

def wbExtPatched (type : Nat) (body : Writer) : Writer := wbAll [wbU16 type,wbNest16 body]

def writeAlpn (cfg : Cfg) : Writer :=
  if cfg.alpnProtocols = [] then wbAll []
  else wbExtPatched extAlpn (wbNest16 (wbAll (cfg.alpnProtocols.map fun name =>
    wbAll [wbU8 name.length,wbBytes name])))

def writeServerName (cfg : Cfg) : Writer :=
  if cfg.hostname.length = 0 then wbAll []
  else wbExt extServerName (2 + 1 + 2 + cfg.hostname.length)
    (wbAll [wbU16 (1 + 2 + cfg.hostname.length),wbU8 0,wbU16 cfg.hostname.length,
      wbBytes cfg.hostname])

def writeWebpkiSignatureAlgorithms : Writer :=
  wbExt extSignatureAlgorithms (2 + 5 * 2)
    (wbAll [wbU16 (5 * 2),wbU16 sigalgRsaPssRsaeSha256,wbU16 sigalgEcdsaP256Sha256,
      wbU16 sigalgEcdsaP384Sha384,wbU16 sigalgRsaPkcs1Sha256,wbU16 sigalgRsaPkcs1Sha384])

def writeCertTypes (cfg : Cfg) : Writer :=
  let offered := webpkiCertTypesOffered cfg
  if offered = [] then wbAll []
  else wbExt extServerCertificateType (1 + offered.length)
    (wbAll (wbU8 offered.length :: offered.map wbU8))

def writePreSharedKey (b : Build) (cfg : Cfg) : Writer :=
  let pskId := cfg.pskId.getD []
  let age := match cfg.ticket with
    | some ticket => ticketObfuscatedAge ticket cfg.ticketAgeMs
    | none => 0
  let hashLen := hsPskHashLen b cfg
  wbExtPatched extPreSharedKey (wbAll [
    wbNest16 (wbAll [wbU16 pskId.length,wbBytes pskId,wbU16 (age / 65536),wbU16 age]),
    wbU16 (1 + hashLen),wbU8 hashLen,wbMark hashLen])

def writeCipherSuites (suites : List Nat) : Writer :=
  wbAll (wbU16 (2 * suites.length) :: suites.map wbU16)

def writeShare (group length : Nat) (share : Bytes) : Writer :=
  wbAll [wbU16 group,wbU16 length,wbBytes share]

def writeTwoGroups (cfg : Cfg) (ek pub : Bytes) (p256Pub : Option Bytes) : Writer :=
  let groups := if cfg.requirePq then [groupX25519Mlkem768]
    else [groupX25519Mlkem768,groupX25519,groupSecp256r1]
  wbAll [
    wbExt extSupportedGroups (2 + 2 * groups.length)
      (wbAll (wbU16 (2 * groups.length) :: groups.map wbU16)),
    wbExtPatched extKeyShare (wbNest16 (match p256Pub with
      | some point => writeShare groupSecp256r1 p256PointLen (fitTo p256PointLen point)
      | none => wbAll [
          writeShare groupX25519Mlkem768 hybridClientShare (fitTo 1184 ek ++ fitTo 32 pub),
          if cfg.requirePq then wbAll [] else writeShare groupX25519 32 (fitTo 32 pub)]))]

def oneShare (b : Build) (ek pub : Bytes) : Bytes :=
  if b.cnsa2 then fitTo (mlkemEkLen b) ek
  else if b.kexHybrid then fitTo (mlkemEkLen b) ek ++ fitTo 32 pub
  else fitTo 32 pub

def writeOneGroup (b : Build) (ek pub : Bytes) : Writer :=
  wbAll [
    wbExt extSupportedGroups 4 (wbAll [wbU16 2,wbU16 (kexGroup b)]),
    wbExt extKeyShare (2 + 2 + 2 + kexClientShare b)
      (wbAll [wbU16 (2 + 2 + kexClientShare b),wbU16 (kexGroup b),wbU16 (kexClientShare b),
        wbBytes (oneShare b ek pub)])]

def writeCookie (cookie : Option Bytes) : Writer :=
  match cookie with
  | none => wbAll []
  | some cookie => wbExt extCookie (2 + cookie.length)
      (wbAll [wbU16 cookie.length,wbBytes cookie])

def writeCredentials (b : Build) (cfg : Cfg) : Writer :=
  if b.webpki then
    wbAll [writeWebpkiSignatureAlgorithms,writeCertTypes cfg,
      if cfg.psk.isSome then writePreSharedKey b cfg else wbAll []]
  else if cfg.psk.isNone then
    wbExt extSignatureAlgorithms 4 (wbAll [wbU16 2,wbU16 (pinSigalg b)])
  else writePreSharedKey b cfg

/-- `hs_build_client_hello`: the message, none when it does not fit `cap`. -/
def hsBuildClientHello (b : Build) (cap : Nat) (cfg : Cfg) (ek : Bytes) (p256Pub : Option Bytes)
    (pub random : Bytes) (recordSizeLimit : Nat) (cookie : Option Bytes) : Option Bytes :=
  wbResult (wbAll [wbU8 hsClientHello,wbNest24 (wbAll [
    wbU16 0x0303,wbBytes (fitTo 32 random),wbU8 0,writeCipherSuites (helloSuites b cfg),wbU8 1,
    wbU8 0,wbNest16 (wbAll [
      if b.webpki then writeServerName cfg else wbAll [],
      if b.webpki || b.quic then writeAlpn cfg else wbAll [],
      wbExt extSupportedVersions 3 (wbAll [wbU8 2,wbU16 tls13]),
      if b.twoGroups then writeTwoGroups cfg ek pub p256Pub else writeOneGroup b ek pub,
      wbExt extPskModes 2 (wbAll [wbU8 1,wbU8 1]),
      if b.quic then wbExt extQuicTransportParams cfg.transportParams.length
          (wbBytes cfg.transportParams)
        else wbExt extRecordSizeLimit 2 (wbU16 recordSizeLimit),writeCookie cookie,
      writeCredentials b cfg])])] (wbInit cap))

/-! ### The extensions they add up to -/

def list16 (numbers : List Nat) : Bytes :=
  be16 (2 * numbers.length) ++ (numbers.map be16).flatten

def alpnItem (cfg : Cfg) : Item :=
  let names := (cfg.alpnProtocols.map fun name => byte name.length :: name).flatten
  (extAlpn, be16 names.length ++ names)

def preSharedKeyItem (b : Build) (cfg : Cfg) : Item :=
  let pskId := cfg.pskId.getD []
  let age := match cfg.ticket with
    | some ticket => ticketObfuscatedAge ticket cfg.ticketAgeMs
    | none => 0
  let identity := be16 pskId.length ++ (pskId ++ (be16 (age / 65536) ++ be16 age))
  let hashLen := hsPskHashLen b cfg
  (extPreSharedKey, (be16 identity.length ++ identity) ++
    (be16 (1 + hashLen) ++ ([byte hashLen] ++ replicate hashLen 0)))

def shareBytes (group length : Nat) (share : Bytes) : Bytes :=
  be16 group ++ (be16 length ++ share)

def twoGroupItems (cfg : Cfg) (ek pub : Bytes) (p256Pub : Option Bytes) : List Item :=
  let groups := if cfg.requirePq then [groupX25519Mlkem768]
    else [groupX25519Mlkem768,groupX25519,groupSecp256r1]
  let shares := match p256Pub with
    | some point => shareBytes groupSecp256r1 p256PointLen (fitTo p256PointLen point)
    | none =>
      shareBytes groupX25519Mlkem768 hybridClientShare (fitTo 1184 ek ++ fitTo 32 pub) ++
        (if cfg.requirePq then [] else shareBytes groupX25519 32 (fitTo 32 pub))
  [(extSupportedGroups, list16 groups),(extKeyShare, be16 shares.length ++ shares)]

def oneGroupItems (b : Build) (ek pub : Bytes) : List Item :=
  [(extSupportedGroups, list16 [kexGroup b]),(extKeyShare, be16 (2 + 2 + kexClientShare b) ++
      shareBytes (kexGroup b) (kexClientShare b) (oneShare b ek pub))]

def credentialItems (b : Build) (cfg : Cfg) : List Item :=
  if b.webpki then
    [(extSignatureAlgorithms, list16 [sigalgRsaPssRsaeSha256,sigalgEcdsaP256Sha256,
      sigalgEcdsaP384Sha384,sigalgRsaPkcs1Sha256,sigalgRsaPkcs1Sha384])] ++
    (if webpkiCertTypesOffered cfg = [] then []
      else [(extServerCertificateType, byte (webpkiCertTypesOffered cfg).length ::
        (webpkiCertTypesOffered cfg).map byte)]) ++
    (if cfg.psk.isSome then [preSharedKeyItem b cfg] else [])
  else if cfg.psk.isNone then [(extSignatureAlgorithms, list16 [pinSigalg b])]
  else [preSharedKeyItem b cfg]

def serverNameItems (b : Build) (cfg : Cfg) : List Item :=
  if b.webpki && cfg.hostname.length != 0 then
    [(extServerName, be16 (1 + 2 + cfg.hostname.length) ++
      ([byte 0] ++ (be16 cfg.hostname.length ++ cfg.hostname)))]
  else []

def alpnItems (b : Build) (cfg : Cfg) : List Item :=
  if (b.webpki || b.quic) && cfg.alpnProtocols != [] then [alpnItem cfg] else []

def groupItems (b : Build) (cfg : Cfg) (ek : Bytes) (p256Pub : Option Bytes) (pub : Bytes) :
    List Item :=
  if b.twoGroups then twoGroupItems cfg ek pub p256Pub else oneGroupItems b ek pub

def transportItems (b : Build) (cfg : Cfg) (recordSizeLimit : Nat) : List Item :=
  if b.quic then [(extQuicTransportParams, cfg.transportParams)]
  else [(extRecordSizeLimit, be16 recordSizeLimit)]

def cookieItems (cookie : Option Bytes) : List Item :=
  match cookie with
  | none => []
  | some cookie => [(extCookie, be16 cookie.length ++ cookie)]

def clientHelloExts (b : Build) (cfg : Cfg) (ek : Bytes) (p256Pub : Option Bytes) (pub : Bytes)
    (recordSizeLimit : Nat) (cookie : Option Bytes) : List Item :=
  [serverNameItems b cfg,alpnItems b cfg,[(extSupportedVersions, byte 2 :: be16 tls13)],
    groupItems b cfg ek p256Pub pub,[(extPskModes, [byte 1,byte 1])],
    transportItems b cfg recordSizeLimit,cookieItems cookie,credentialItems b cfg].flatten

def clientHelloHead (b : Build) (cfg : Cfg) (random : Bytes) : Bytes :=
  be16 0x0303 ++ (fitTo 32 random ++ ([byte 0] ++ (list16 (helloSuites b cfg) ++ [byte 1,byte 0])))

def clientHelloBody (b : Build) (cfg : Cfg) (random : Bytes) (exts : List Item) : Bytes :=
  clientHelloHead b cfg random ++
    (be16 (Item.encodeAll exts).length ++ Item.encodeAll exts)

def handshakeMessage (type : Nat) (body : Bytes) : Bytes := byte type :: (be24 body.length ++ body)

/-! ### The writes give the extensions -/

theorem writes_ext {type length : Nat} {body : Writer} {data : Bytes} (writes : Writes body data)
    (exact : length = data.length) :
    Writes (wbExt type length body) (Item.encode (type, data)) := by
  subst exact
  simpa [wbExt,Item.encode] using
    writes_all (.cons (writes_u16 type) (.cons (writes_u16 data.length) (.cons writes .nil)))

theorem writes_extPatched {type : Nat} {body : Writer} {data : Bytes} (writes : Writes body data) :
    Writes (wbExtPatched type body) (Item.encode (type, data)) := by
  simpa [wbExtPatched,Item.encode] using
    writes_all (.cons (writes_u16 type) (.cons (writes_nest16 writes) .nil))

def WritesItems (step : Writer) (items : List Item) : Prop := Writes step (Item.encodeAll items)

theorem writesItems_none : WritesItems (wbAll []) [] := Writes.id

theorem writesItems_one {step : Writer} {item : Item} (writes : Writes step item.encode) :
    WritesItems step [item] := by
  simpa [WritesItems] using writes

theorem writesItems_all {steps : List Writer} {parts : List (List Item)}
    (each : List.Forall₂ WritesItems steps parts) : WritesItems (wbAll steps) parts.flatten := by
  induction each with
  | nil => exact writesItems_none
  | @cons step part steps parts head _ ih =>
    have both := Writes.comp head ih
    rw [WritesItems,flatten_cons,Item.encodeAll_append]
    exact both

theorem writes_numbers (numbers : List Nat) :
    Writes (wbAll (numbers.map wbU16)) (numbers.map be16).flatten := by
  apply writes_all
  induction numbers with
  | nil => exact .nil
  | cons number numbers ih => exact .cons (writes_u16 number) ih

theorem writes_list16 (numbers : List Nat) :
    Writes (wbAll (wbU16 (2 * numbers.length) :: numbers.map wbU16)) (list16 numbers) :=
  (writes_u16 (2 * numbers.length)).comp (writes_numbers numbers)

@[simp] theorem list16_length (numbers : List Nat) :
    (list16 numbers).length = 2 + 2 * numbers.length := by
  have widths : ((numbers.map be16).flatten).length = 2 * numbers.length := by
    induction numbers with
    | nil => rfl
    | cons number numbers ih =>
      simp only [map_cons,flatten_cons,length_append,be16_length,ih,length_cons]
      omega
  simp only [list16,length_append,be16_length,widths]

theorem writes_share (group length : Nat) (share : Bytes) :
    Writes (writeShare group length share) (shareBytes group length share) := by
  simpa [writeShare,shareBytes] using
    writes_all (.cons (writes_u16 group) (.cons (writes_u16 length)
      (.cons (writes_bytes share) .nil)))

variable (b : Build)

variable (cfg : Cfg)

theorem writeServerName_items :
    WritesItems (if b.webpki then writeServerName cfg else wbAll []) (serverNameItems b cfg) := by
  cases webpki : b.webpki with
  | false => simpa [serverNameItems,webpki] using writesItems_none
  | true =>
    by_cases empty : cfg.hostname.length = 0
    · simpa [writeServerName,serverNameItems,empty] using writesItems_none
    · have body := writes_all (.cons (writes_u16 (1 + 2 + cfg.hostname.length))
        (.cons (writes_u8 0) (.cons (writes_u16 cfg.hostname.length)
          (.cons (writes_bytes cfg.hostname) .nil))))
      have named := writesItems_one (@writes_ext extServerName
        (2 + 1 + 2 + cfg.hostname.length) _ _ body (by simp; omega))
      simpa [writeServerName,serverNameItems,webpki,empty] using named

theorem writeAlpn_items :
    WritesItems (if b.webpki || b.quic then writeAlpn cfg else wbAll []) (alpnItems b cfg) := by
  unfold alpnItems
  cases b.webpki || b.quic with
  | false => exact writesItems_none
  | true =>
    by_cases empty : cfg.alpnProtocols = []
    · simpa [writeAlpn,empty] using writesItems_none
    · have names : Writes (wbAll (cfg.alpnProtocols.map fun name =>
          wbAll [wbU8 name.length,wbBytes name]))
          (cfg.alpnProtocols.map fun name => byte name.length :: name).flatten := by
        apply writes_all
        generalize cfg.alpnProtocols = protocols
        induction protocols with
        | nil => exact .nil
        | cons name rest ih =>
          refine .cons ?_ ih
          simpa using writes_all (.cons (writes_u8 name.length) (.cons (writes_bytes name) .nil))
      have whole := writesItems_one (@writes_extPatched extAlpn _ _ (writes_nest16 names))
      simpa [writeAlpn,empty,alpnItem] using whole

theorem writePreSharedKey_items :
    WritesItems (writePreSharedKey b cfg) [preSharedKeyItem b cfg] := by
  generalize ageEq : (match cfg.ticket with
    | some ticket => ticketObfuscatedAge ticket cfg.ticketAgeMs
    | none => 0) = age
  have identity := writes_nest16 (writes_all (.cons (writes_u16 (cfg.pskId.getD []).length)
    (.cons (writes_bytes (cfg.pskId.getD [])) (.cons (writes_u16 (age / 65536))
      (.cons (writes_u16 age) .nil)))))
  have body := writes_all (.cons identity (.cons (writes_u16 (1 + hsPskHashLen b cfg))
    (.cons (writes_u8 (hsPskHashLen b cfg)) (.cons (writes_mark (hsPskHashLen b cfg)) .nil))))
  have whole := writesItems_one (@writes_extPatched extPreSharedKey _ _ body)
  simpa [writePreSharedKey,preSharedKeyItem,ageEq] using whole

theorem writeTwoGroups_items (ek pub : Bytes) (p256Pub : Option Bytes) :
    WritesItems (writeTwoGroups cfg ek pub p256Pub) (twoGroupItems cfg ek pub p256Pub) := by
  have groups : ∀ groups : List Nat, WritesItems (wbExt extSupportedGroups (2 + 2 * groups.length)
        (wbAll (wbU16 (2 * groups.length) :: groups.map wbU16)))
      [(extSupportedGroups, list16 groups)] := fun groups =>
    writesItems_one (writes_ext (writes_list16 groups) (list16_length groups).symm)
  have shares : ∀ {body : Writer} {bytes : Bytes}, Writes body bytes → WritesItems
      (wbExtPatched extKeyShare (wbNest16 body))
      [(extKeyShare, be16 bytes.length ++ bytes)] := fun writes =>
    writesItems_one (writes_extPatched (writes_nest16 writes))
  unfold writeTwoGroups twoGroupItems
  cases p256Pub with
  | some point =>
    exact writesItems_all (.cons (groups _) (.cons (shares (writes_share ..)) .nil))
  | none =>
    refine writesItems_all (.cons (groups _) (.cons (shares ?_) .nil))
    cases cfg.requirePq with
    | true => exact (writes_share ..).comp ((Writes.id).comp Writes.id)
    | false =>
      have both := writes_all (.cons
        (writes_share groupX25519Mlkem768 hybridClientShare (fitTo 1184 ek ++ fitTo 32 pub))
        (.cons (writes_share groupX25519 32 (fitTo 32 pub)) .nil))
      simpa using both

theorem oneShare_length (ek pub : Bytes) (oneGroup : b.webpki = false) :
    (oneShare b ek pub).length = kexClientShare b := by
  unfold oneShare kexClientShare
  cases cnsa2 : b.cnsa2 with
  | true => simp
  | false =>
    cases pq : b.kexPq <;>
      simp [Build.kexHybrid,Build.twoGroups,pq,oneGroup,hybridClientShare,mlkemEkLen,cnsa2]

theorem writeOneGroup_items (ek pub : Bytes) (oneGroup : b.webpki = false) :
    WritesItems (writeOneGroup b ek pub) (oneGroupItems b ek pub) := by
  have shareLength := oneShare_length b ek pub oneGroup
  have groups := writesItems_one (@writes_ext extSupportedGroups 4 _ _
    (writes_list16 [kexGroup b]) rfl)
  have share := writes_all (.cons (writes_u16 (2 + 2 + kexClientShare b))
    (.cons (writes_u16 (kexGroup b)) (.cons (writes_u16 (kexClientShare b))
      (.cons (writes_bytes (oneShare b ek pub)) .nil))))
  have keyShare := writesItems_one (@writes_ext extKeyShare
    (2 + 2 + 2 + kexClientShare b) _ _ share (by simp [shareLength]; omega))
  have both := writesItems_all (.cons groups (.cons keyShare .nil))
  simpa [writeOneGroup,oneGroupItems,shareBytes] using both

theorem writeCookie_items (cookie : Option Bytes) :
    WritesItems (writeCookie cookie) (cookieItems cookie) := by
  cases cookie with
  | none => exact writesItems_none
  | some cookie =>
    have body := writes_all (.cons (writes_u16 cookie.length) (.cons (writes_bytes cookie) .nil))
    have whole := writesItems_one (@writes_ext extCookie (2 + cookie.length) _ _
      body (by simp))
    simpa [writeCookie,cookieItems] using whole

theorem writeCertTypes_items : WritesItems (writeCertTypes cfg)
      (if webpkiCertTypesOffered cfg = [] then []
        else [(extServerCertificateType, byte (webpkiCertTypesOffered cfg).length ::
          (webpkiCertTypesOffered cfg).map byte)]) := by
  unfold webpkiCertTypesOffered writeCertTypes
  by_cases none : cfg.spkiPins = []
  · simpa [webpkiCertTypesOffered,none] using writesItems_none
  · have body := writes_all (.cons (writes_u8 2) (.cons (writes_u8 2) (.cons (writes_u8 0) .nil)))
    have whole := writesItems_one (@writes_ext extServerCertificateType 3 _ _ body rfl)
    simpa [webpkiCertTypesOffered,none] using whole

theorem writeCredentials_items : WritesItems (writeCredentials b cfg) (credentialItems b cfg) := by
  have pinned : ∀ numbers : List Nat, WritesItems
      (wbExt extSignatureAlgorithms (2 + 2 * numbers.length)
        (wbAll (wbU16 (2 * numbers.length) :: numbers.map wbU16)))
      [(extSignatureAlgorithms, list16 numbers)] := fun numbers =>
    writesItems_one (writes_ext (writes_list16 numbers) (list16_length numbers).symm)
  unfold writeCredentials credentialItems
  cases b.webpki with
  | true =>
    have psk : WritesItems (if cfg.psk.isSome then writePreSharedKey b cfg else wbAll [])
        (if cfg.psk.isSome then [preSharedKeyItem b cfg] else []) := by
      cases cfg.psk.isSome with
      | true => exact writePreSharedKey_items b cfg
      | false => exact writesItems_none
    have all := writesItems_all (.cons (pinned [sigalgRsaPssRsaeSha256,sigalgEcdsaP256Sha256,
      sigalgEcdsaP384Sha384,sigalgRsaPkcs1Sha256,sigalgRsaPkcs1Sha384])
      (.cons (writeCertTypes_items cfg) (.cons psk .nil)))
    simpa [writeWebpkiSignatureAlgorithms] using all
  | false =>
    cases cfg.psk.isNone with
    | true => exact pinned [pinSigalg b]
    | false => exact writePreSharedKey_items b cfg

/-- The builder's output: the fixed fields, then the listed extensions, when
they fit. -/
theorem hsBuildClientHello_eq (cap : Nat) (cfg : Cfg) (ek : Bytes)
    (p256Pub : Option Bytes) (pub random : Bytes) (recordSizeLimit : Nat) (cookie : Option Bytes) :
    hsBuildClientHello b cap cfg ek p256Pub pub random recordSizeLimit cookie =
      let message := handshakeMessage hsClientHello (clientHelloBody b cfg random
        (clientHelloExts b cfg ek p256Pub pub recordSizeLimit cookie))
      if message.length ≤ cap then some message else none := by
  have versions : WritesItems (wbExt extSupportedVersions 3 (wbAll [wbU8 2,wbU16 tls13]))
      [(extSupportedVersions, byte 2 :: be16 tls13)] :=
    writesItems_one (writes_ext
      (writes_all (.cons (writes_u8 2) (.cons (writes_u16 tls13) .nil))) rfl)
  have groups : WritesItems
      (if b.twoGroups then writeTwoGroups cfg ek pub p256Pub else writeOneGroup b ek pub)
      (groupItems b cfg ek p256Pub pub) := by
    unfold groupItems
    cases two : b.twoGroups with
    | true => exact writeTwoGroups_items cfg ek pub p256Pub
    | false => exact writeOneGroup_items b ek pub two
  have modes : WritesItems (wbExt extPskModes 2 (wbAll [wbU8 1,wbU8 1]))
      [(extPskModes, [byte 1,byte 1])] :=
    writesItems_one (writes_ext (writes_all (.cons (writes_u8 1) (.cons (writes_u8 1) .nil))) rfl)
  have transport : WritesItems
      (if b.quic then wbExt extQuicTransportParams cfg.transportParams.length
          (wbBytes cfg.transportParams)
        else wbExt extRecordSizeLimit 2 (wbU16 recordSizeLimit))
      (transportItems b cfg recordSizeLimit) := by
    unfold transportItems
    cases b.quic with
    | true => exact writesItems_one (writes_ext (writes_bytes _) rfl)
    | false => exact writesItems_one (writes_ext (writes_u16 _) rfl)
  have exts := writesItems_all (.cons (writeServerName_items b cfg)
    (.cons (writeAlpn_items b cfg) (.cons versions (.cons groups (.cons modes (.cons transport
      (.cons (writeCookie_items cookie) (.cons (writeCredentials_items b cfg) .nil))))))))
  have body := writes_all (.cons (writes_u16 0x0303) (.cons (writes_bytes (fitTo 32 random))
    (.cons (writes_u8 0) (.cons (writes_list16 (helloSuites b cfg)) (.cons (writes_u8 1)
      (.cons (writes_u8 0) (.cons (writes_nest16 exts) .nil)))))))
  have bodyEq : ∀ exts : Bytes, [be16 0x0303,fitTo 32 random,[byte 0],list16 (helloSuites b cfg),
      [byte 1],[byte 0],be16 exts.length ++ exts].flatten =
        clientHelloHead b cfg random ++ (be16 exts.length ++ exts) := by
    simp [clientHelloHead]
  rw [bodyEq] at body
  exact wbResult_of_writes ((writes_u8 hsClientHello).comp (writes_nest24 body)) cap

end Chapulin
