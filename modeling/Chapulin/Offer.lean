/-
What EncryptedExtensions may carry: the extensions the parser takes, against
those of the ClientHello the same configuration sent.
-/

import Mathlib.Data.List.Nodup
import Chapulin.Flight

namespace Chapulin

open Lib List Item

variable {b : Build} {cfg : Cfg} {offer : EeOffer} {last out : EeOut}

def encryptedExtsItems (body : Bytes) : Option (List Item) :=
  readAll body.length (body.drop 2)

/-- The extensions of a ClientHello message, read past the fields before them. -/
def clientHelloItems (message : Bytes) : Option (List Item) :=
  match message.drop (4 + 2 + 32) with
  | sessionIdLen :: rest =>
    match rest.drop sessionIdLen.toNat with
    | suitesHigh :: suitesLow :: rest =>
      match rest.drop (ofBe16 suitesHigh suitesLow) with
      | compressionLen :: rest =>
        match rest.drop compressionLen.toNat with
        | extsHigh :: extsLow :: exts =>
          if exts.length = ofBe16 extsHigh extsLow then readAll exts.length exts
          else none
        | _ => none
      | [] => none
    | _ => none
  | [] => none

def Carries (items : Option (List Item)) (type : Nat) : Prop :=
  ∃ list, items = some list ∧ type ∈ list.map Prod.fst

/-! ### What the parser takes -/

def eeTakes (b : Build) (offer : EeOffer) (ext : Nat) : Bool :=
  ext == extRecordSizeLimit || ext == extSupportedGroups ||
    ((b.webpki || b.quic) && ext == extAlpn && offer.alpn != []) ||
    (b.webpki && ext == extServerName && offer.serverNameSent) ||
    (b.webpki && ext == extServerCertificateType && offer.certTypes != []) ||
    (b.quic && ext == extQuicTransportParams)

/-- The bit of `seen` an extension sets. -/
def eeBit (ext : Nat) : Nat :=
  if ext = extRecordSizeLimit then 0
  else if ext = extSupportedGroups then 1
  else if ext = extAlpn then 3
  else if ext = extServerName then 2
  else if ext = extServerCertificateType then 5
  else 4

/-- An arm takes only what was offered, and under its own bit. -/
theorem eeArm_eq_ok {ext bit : Nat} {data : Bytes}
    {next : EeOut} (taken : eeArm b offer ext data out = .ok (bit, next)) :
    eeTakes b offer ext = true ∧ bit = eeBit ext ∧ next.seen = out.seen := by
  unfold eeArm at taken
  split at taken
  · rename_i isLimit
    split at taken
    · cases taken
    · cases taken
      simp [eeTakes,eeBit,isLimit]
  split at taken
  · rename_i notLimit isGroups
    cases taken
    subst isGroups
    simp [eeTakes,eeBit,extSupportedGroups,extRecordSizeLimit]
  split at taken
  · rename_i notLimit notGroups isAlpn
    simp only [Bool.and_eq_true,beq_iff_eq] at isAlpn
    obtain ⟨⟨declared,rfl⟩,offered⟩ := isAlpn
    split at taken
    · cases taken
    · cases taken
      simp [eeTakes,eeBit,declared,offered,extAlpn,extSupportedGroups,extRecordSizeLimit]
  split at taken
  · rename_i notLimit notGroups _ isName
    simp only [Bool.and_eq_true,beq_iff_eq] at isName
    obtain ⟨⟨webpki,rfl⟩,sent⟩ := isName
    split at taken
    · cases taken
      simp [eeTakes,eeBit,webpki,sent,extServerName,extAlpn,extSupportedGroups,extRecordSizeLimit]
    · cases taken
  split at taken
  · rename_i notLimit notGroups _ _ isCertType
    simp only [Bool.and_eq_true,beq_iff_eq] at isCertType
    obtain ⟨⟨webpki,rfl⟩,offered⟩ := isCertType
    split at taken
    · cases taken
    · cases taken
      simp [eeTakes,eeBit,webpki,offered,extServerCertificateType,extServerName,extAlpn,
        extSupportedGroups,extRecordSizeLimit]
  split at taken
  · rename_i notLimit notGroups _ _ _ isParams
    simp only [Bool.and_eq_true,beq_iff_eq] at isParams
    obtain ⟨quic,rfl⟩ := isParams
    cases taken
    simp [eeTakes,eeBit,quic,extQuicTransportParams,extServerCertificateType,extServerName,extAlpn,
      extSupportedGroups,extRecordSizeLimit]
  · cases taken

/-- A run over extensions that returns took each of them, each with a bit not
set before. -/
theorem runItems_eeStep {items : List Item}
    (ran : runItems (eeStep b offer) items out = (.ok (), last)) :
    (∀ item ∈ items, eeTakes b offer item.1 = true) ∧
      (items.map fun item => eeBit item.1).Nodup ∧
      ∀ item ∈ items, eeBit item.1 ∉ out.seen := by
  induction items generalizing out with
  | nil => simp
  | cons item items ih =>
    obtain ⟨_,next,stepped,rest⟩ := Proc.bind_eq_ok.mp ran
    unfold eeStep at stepped
    rcases arm : eeArm b offer item.1 item.2 out with ⟨rc,refused⟩ | ⟨bit,written⟩
    · simp [arm] at stepped
    simp only [arm] at stepped
    obtain ⟨taken,rfl,seenSame⟩ := eeArm_eq_ok arm
    split at stepped
    · cases stepped
    rename_i fresh
    cases stepped
    obtain ⟨restTaken,restNodup,restFresh⟩ := ih rest
    have notBefore : eeBit item.1 ∉ out.seen := by
      rw [← seenSame]
      simpa using fresh
    refine ⟨forall_mem_cons.mpr ⟨taken,restTaken⟩,?_,forall_mem_cons.mpr ⟨notBefore,?_⟩⟩
    · refine nodup_cons.mpr ⟨?_,restNodup⟩
      intro again
      obtain ⟨other,later,sameBit⟩ := mem_map.mp again
      exact restFresh other later (by rw [sameBit]; exact mem_cons_self)
    · intro other later before
      exact restFresh other later (mem_cons_of_mem _ (by rw [seenSame]; exact before))

theorem runItems_eeStep_types {items : List Item}
    (ran : runItems (eeStep b offer) items out = (.ok (), last)) :
    (∀ item ∈ items, eeTakes b offer item.1 = true) ∧ (items.map Prod.fst).Nodup := by
  obtain ⟨taken,bitsNodup,-⟩ := runItems_eeStep ran
  have bits : items.map (fun item => eeBit item.1) = (items.map Prod.fst).map eeBit := by simp
  rw [bits] at bitsNodup
  exact ⟨taken,Nodup.of_map _ bitsNodup⟩

/-- An accepted body is its length followed by extensions the parser takes, no
type twice. -/
theorem hspParseEncryptedExts_eq_ok {body : Bytes}
    (accepted : hspParseEncryptedExts b offer body out = (.ok (), last)) :
    ∃ exts : List Item, (∀ ext ∈ exts, ext.Fits) ∧
      body = be16 (encodeAll exts).length ++ encodeAll exts ∧
      (encodeAll exts).length < 65536 ∧
      (∀ ext ∈ exts, eeTakes b offer ext.1 = true) ∧ (exts.map Prod.fst).Nodup := by
  unfold hspParseEncryptedExts at accepted
  rcases lengthRead : rbU16 (rbInit body) with ⟨extsLen,r⟩
  simp only [lengthRead] at accepted
  split at accepted
  · cases accepted
  rename_i exact
  simp only [Bool.or_eq_true,bne_iff_ne,ne_eq,not_or,Bool.not_eq_true,not_not] at exact
  obtain ⟨live,filled⟩ := exact
  obtain ⟨high,low,rest,bodyEq,readEq⟩ :=
    rbU16_inv (r := rbInit body) (by rw [lengthRead]; exact live)
  rw [lengthRead] at readEq
  cases readEq
  rw [rbLeft_live] at filled accepted
  rcases loop : rbForItems (Proc.stop .eproto) (eeStep b offer) rest.length ⟨rest,false⟩
    { out with seen := [] } with ⟨result,middle⟩
  cases result with
  | error rc => simp [loop] at accepted
  | ok done =>
    obtain ⟨exts,fits,rfl,ran⟩ := rbForItems_eq_ok (by simp) (Nat.le_refl _) loop
    obtain ⟨taken,nodup⟩ := runItems_eeStep_types ran
    refine ⟨exts,fits,?_,by rw [← filled]; exact ofBe16_lt ..,taken,nodup⟩
    have bodyBytes : body = high :: low :: encodeAll exts := congrArg Rbuf.rest bodyEq
    rw [bodyBytes,← filled,be16_ofBe16]
    rfl

theorem encryptedExtsItems_encode {exts : List Item} (fits : ∀ ext ∈ exts, ext.Fits) :
    encryptedExtsItems (be16 (encodeAll exts).length ++ encodeAll exts) =
      some exts := by
  have body : (be16 (encodeAll exts).length ++ encodeAll exts).drop 2 =
      encodeAll exts := rfl
  rw [encryptedExtsItems,body]
  apply readAll_encodeAll fits
  have := length_le_encodeAll_length exts
  simp only [length_append,be16_length]
  omega

/-! ### What the ClientHello carries -/

def helloTypes (b : Build) (cfg : Cfg) (cookie : Option Bytes) : List Nat :=
  (if b.webpki && cfg.hostname.length != 0 then [extServerName] else []) ++
  (if (b.webpki || b.quic) && cfg.alpnProtocols != [] then [extAlpn] else []) ++
  [extSupportedVersions,extSupportedGroups,extKeyShare,extPskModes] ++
  (if b.quic then [extQuicTransportParams] else [extRecordSizeLimit]) ++
  (if cookie.isSome then [extCookie] else []) ++
  (if b.webpki then
    [extSignatureAlgorithms] ++
    (if webpkiCertTypesOffered cfg = [] then [] else [extServerCertificateType]) ++
    (if cfg.psk.isSome then [extPreSharedKey] else [])
  else if cfg.psk.isNone then [extSignatureAlgorithms]
  else [extPreSharedKey])

/-- The build and the configuration decide which extensions are sent. -/
theorem clientHelloExts_types (b : Build) (cfg : Cfg) (ek : Bytes) (p256Pub : Option Bytes)
    (pub : Bytes) (recordSizeLimit : Nat) (cookie : Option Bytes) :
    (clientHelloExts b cfg ek p256Pub pub recordSizeLimit cookie).map Prod.fst =
      helloTypes b cfg cookie := by
  have serverName : (serverNameItems b cfg).map Prod.fst =
      if b.webpki && cfg.hostname.length != 0 then [extServerName] else [] := by
    unfold serverNameItems
    split <;> rfl
  have alpn : (alpnItems b cfg).map Prod.fst =
      if (b.webpki || b.quic) && cfg.alpnProtocols != [] then [extAlpn] else [] := by
    unfold alpnItems
    split <;> rfl
  have groups : (groupItems b cfg ek p256Pub pub).map Prod.fst =
      [extSupportedGroups,extKeyShare] := by
    unfold groupItems
    split <;> rfl
  have transport : (transportItems b cfg recordSizeLimit).map Prod.fst =
      if b.quic then [extQuicTransportParams] else [extRecordSizeLimit] := by
    unfold transportItems
    split <;> rfl
  have cookies : (cookieItems cookie).map Prod.fst =
      if cookie.isSome then [extCookie] else [] := by
    cases cookie <;> rfl
  have credentials : (credentialItems b cfg).map Prod.fst =
      if b.webpki then
        [extSignatureAlgorithms] ++
        (if webpkiCertTypesOffered cfg = [] then [] else [extServerCertificateType]) ++
        (if cfg.psk.isSome then [extPreSharedKey] else [])
      else if cfg.psk.isNone then [extSignatureAlgorithms]
      else [extPreSharedKey] := by
    unfold credentialItems
    split
    · by_cases types : webpkiCertTypesOffered cfg = [] <;> cases cfg.psk <;>
        simp [types,preSharedKeyItem]
    · cases cfg.psk <;> rfl
  simp only [clientHelloExts,flatten_cons,flatten_nil,append_nil,map_append,serverName,alpn,groups,
    transport,cookies,credentials,helloTypes,append_assoc]
  rfl

theorem helloTypes_lt {b : Build} {cfg : Cfg} {cookie : Option Bytes} {type : Nat}
    (among : type ∈ helloTypes b cfg cookie) : type < 65536 := by
  unfold helloTypes at among
  simp only [extServerName,extAlpn,extSupportedVersions,extSupportedGroups,extKeyShare,extPskModes,
    extQuicTransportParams,extRecordSizeLimit,extCookie,extSignatureAlgorithms,
    extServerCertificateType,extPreSharedKey,mem_append] at among
  repeat' split at among
  all_goals
    simp only [mem_append,mem_cons,not_mem_nil,or_false,false_or] at among
    omega

theorem txStage_lt (b : Build) : b.txStage < 65536 := by
  have plaintext := b.txPtRange
  have suites : b.txAesSuites ≤ 20 := by
    unfold Build.txAesSuites
    split <;> omega
  have hello : b.txHello ≤ 2698 := by
    unfold Build.txHello
    repeat' split
    all_goals omega
  unfold Build.txStage
  split
  · omega
  · omega

/-- The extensions of a built ClientHello are read back from it. -/
theorem clientHelloItems_message {random : Bytes} {exts : List Item}
    (typed : ∀ ext ∈ exts, ext.1 < 65536)
    (short : (handshakeMessage hsClientHello (clientHelloBody b cfg random exts)).length < 65536) :
    clientHelloItems (handshakeMessage hsClientHello (clientHelloBody b cfg random exts)) =
      some exts := by
  have lengths : (handshakeMessage hsClientHello (clientHelloBody b cfg random exts)).length =
      4 + (2 + (32 + (1 + (2 + 2 * (helloSuites b cfg).length + 2)))) +
        (2 + (encodeAll exts).length) := by
    simp only [handshakeMessage,clientHelloBody,clientHelloHead,length_cons,length_append,
      be24_length,be16_length,fitTo_length,list16_length,length_nil]
    omega
  rw [lengths] at short
  have headDrop : (handshakeMessage hsClientHello (clientHelloBody b cfg random exts)).drop
      (4 + 2 + 32) = byte 0 :: (list16 (helloSuites b cfg) ++ ([byte 1,byte 0] ++
        (be16 (encodeAll exts).length ++ encodeAll exts))) := by
    have front : handshakeMessage hsClientHello (clientHelloBody b cfg random exts) =
        (byte hsClientHello :: (be24 (clientHelloBody b cfg random exts).length ++
          (be16 0x0303 ++ fitTo 32 random))) ++
        (byte 0 :: (list16 (helloSuites b cfg) ++ ([byte 1,byte 0] ++
          (be16 (encodeAll exts).length ++ encodeAll exts)))) := by
      rw [handshakeMessage]
      simp [clientHelloBody,clientHelloHead]
    rw [front]
    apply drop_left'
    simp
  have suitesEq := ofBe16_byte (2 * (helloSuites b cfg).length) (by omega)
  have suitesDrop : (((helloSuites b cfg).map be16).flatten ++ byte 1 :: byte 0 ::
      byte ((encodeAll exts).length / 256) :: byte (encodeAll exts).length ::
        encodeAll exts).drop (2 * (helloSuites b cfg).length) = byte 1 :: byte 0 ::
      byte ((encodeAll exts).length / 256) :: byte (encodeAll exts).length ::
        encodeAll exts := by
    apply drop_left'
    have width := list16_length (helloSuites b cfg)
    simp only [list16,length_append,be16_length] at width
    omega
  have zeroByte : (byte 0).toNat = 0 := rfl
  have oneByte : (byte 1).toNat = 1 := rfl
  have extsEq := ofBe16_byte (encodeAll exts).length (by omega)
  have itemsFit : ∀ ext ∈ exts, ext.Fits := fun ext among =>
    ⟨typed ext among,by
      have := length_le_encodeAll among
      omega⟩
  have readBack := readAll_encodeAll itemsFit (length_le_encodeAll_length exts)
  rw [clientHelloItems,headDrop]
  simp only [list16,be16,cons_append,nil_append,zeroByte,drop_zero,suitesEq,suitesDrop,oneByte,
    drop_succ_cons,extsEq,if_true,readBack]

theorem hsBuildClientHello_items {ek pub random hello : Bytes}
    {p256Pub cookie : Option Bytes} {recordSizeLimit : Nat}
    (built : hsBuildClientHello b b.txStage cfg ek p256Pub pub random recordSizeLimit cookie =
      some hello) :
    clientHelloItems hello =
      some (clientHelloExts b cfg ek p256Pub pub recordSizeLimit cookie) := by
  rw [hsBuildClientHello_eq] at built
  simp only [Option.ite_none_right_eq_some,Option.some.injEq] at built
  obtain ⟨fits,rfl⟩ := built
  apply clientHelloItems_message
  · intro ext among
    apply @helloTypes_lt b cfg cookie
    rw [← clientHelloExts_types b cfg ek p256Pub pub recordSizeLimit cookie]
    exact mem_map_of_mem among
  · exact Nat.lt_of_le_of_lt fits (txStage_lt b)

/-- An extension the parser takes was offered, but for a record size limit under
QUIC, whose hello carries none. -/
theorem eeTakes_offered {cookie : Option Bytes} {ext : Nat}
    (taken : eeTakes b (eeOffer cfg) ext = true) :
    ext ∈ helloTypes b cfg cookie ↔ ¬ (b.quic = true ∧ ext = extRecordSizeLimit) := by
  have limit : extRecordSizeLimit ∈ helloTypes b cfg cookie ↔ b.quic = false := by
    unfold helloTypes
    repeat' split
    all_goals simp_all [extServerName,extAlpn,extSupportedVersions,extSupportedGroups,extKeyShare,
      extPskModes,extQuicTransportParams,extRecordSizeLimit,extCookie,extSignatureAlgorithms,
      extServerCertificateType,extPreSharedKey]
  simp only [eeTakes,eeOffer,Bool.or_eq_true,Bool.and_eq_true,beq_iff_eq,bne_iff_ne,
    decide_eq_true_eq] at taken
  rcases taken with ((((rfl | rfl) | ⟨⟨declared,rfl⟩,offered⟩) | ⟨⟨webpki,rfl⟩,sent⟩) |
    ⟨⟨webpki,rfl⟩,offered⟩) | ⟨quic,rfl⟩
  · simp [limit]
  · simp [helloTypes,extSupportedGroups,extRecordSizeLimit]
  · simp [helloTypes,declared,offered,extAlpn,extRecordSizeLimit]
  · have named : cfg.hostname ≠ [] := ne_nil_of_length_pos sent
    simp [helloTypes,webpki,named,extServerName,extRecordSizeLimit]
  · simp [helloTypes,webpki,offered,extServerCertificateType,extRecordSizeLimit]
  · simp [helloTypes,quic,extQuicTransportParams,extRecordSizeLimit]

/-- For every message the parser accepts: it is filled exactly by its extensions,
no type occurs twice and each was carried by the ClientHello the configuration
sent, if and only if it is not a QUIC message with a record size limit. -/
theorem encryptedExts_offered_iff {b : Build} {cfg : Cfg} {ek pub random hello body : Bytes}
    {p256Pub cookie : Option Bytes} {recordSizeLimit : Nat} {out last : EeOut}
    (built : hsBuildClientHello b b.txStage cfg ek p256Pub pub random recordSizeLimit cookie =
      some hello) (accepted : hspParseEncryptedExts b (eeOffer cfg) body out = (.ok (), last)) :
    (∃ exts, encryptedExtsItems body = some exts ∧
        body = be16 (encodeAll exts).length ++ encodeAll exts ∧
        (encodeAll exts).length < 65536 ∧ (exts.map Prod.fst).Nodup ∧
        ∀ ext ∈ exts, Carries (clientHelloItems hello) ext.1) ↔
      ¬ (b.quic = true ∧ Carries (encryptedExtsItems body) extRecordSizeLimit) := by
  have helloItems := hsBuildClientHello_items built
  have helloTypesEq := clientHelloExts_types b cfg ek p256Pub pub recordSizeLimit cookie
  have carries : ∀ type, Carries (clientHelloItems hello) type ↔
      type ∈ helloTypes b cfg cookie := by
    intro type
    rw [helloItems,← helloTypesEq]
    simp [Carries]
  obtain ⟨exts,fits,rfl,bounded,taken,nodup⟩ := hspParseEncryptedExts_eq_ok accepted
  have bodyItems := encryptedExtsItems_encode fits
  have offered : ∀ ext ∈ exts, (Carries (clientHelloItems hello) ext.1 ↔
      ¬ (b.quic = true ∧ ext.1 = extRecordSizeLimit)) := fun ext among =>
    (carries ext.1).trans (eeTakes_offered (taken ext among))
  constructor
  · rintro ⟨same,sameItems,-,-,-,allCarried⟩ ⟨quic,list,listItems,limitAmong⟩
    rw [bodyItems] at sameItems listItems
    cases sameItems
    cases listItems
    obtain ⟨ext,among,isLimit⟩ := mem_map.mp limitAmong
    exact (offered ext among).mp (allCarried ext among) ⟨quic,isLimit⟩
  · intro noLimit
    refine ⟨exts,bodyItems,rfl,bounded,nodup,?_⟩
    intro ext among
    apply (offered ext among).mpr
    rintro ⟨quic,isLimit⟩
    exact noLimit ⟨quic,exts,bodyItems,mem_map.mpr ⟨ext,among,isLimit⟩⟩

def offerSampleCfg : Cfg :=
  { Cfg.unset with
    psk := some (replicate 16 7)
    pskId := some [1]
    bufLen := 1024
    send := true
    recv := true
    alpnProtocols := [[0x68,0x33]]
    quicOriginalVersion := 1
    transportParams := [1]
    onLevelReady := true }

def offerSampleOut : EeOut :=
  { peerLimit := 512, selected := alpnNone, certType := 0, transportParams := none,
    alert := Alert.illegalParameter, seen := [] }

def limitBody : Bytes :=
  [0,20,0,16,0,5,0,3,2,0x68,0x33,0,28,0,2,0,64,0,0x39,0,1,1]

def limitOnlyBody : Bytes := [0,6,0,28,0,2,0,64]

/-- Over TCP the same offer covers a record size limit. -/
theorem encryptedExts_offered_tcp : ∃ hello last exts,
    hsBuildClientHello (.plain .tcpBlocking .client) (Build.plain .tcpBlocking .client).txStage
      offerSampleCfg [] none [] [] 1003 none = some hello ∧
    hspParseEncryptedExts (.plain .tcpBlocking .client) (eeOffer offerSampleCfg) limitOnlyBody
      offerSampleOut = (.ok (), last) ∧
    encryptedExtsItems limitOnlyBody = some exts ∧
    ∀ ext ∈ exts, Carries (clientHelloItems hello) ext.1 := by
  obtain ⟨hello,built⟩ : ∃ hello, hsBuildClientHello (.plain .tcpBlocking .client)
      (Build.plain .tcpBlocking .client).txStage offerSampleCfg [] none [] [] 1003 none =
        some hello := ⟨_,(hsBuildClientHello_eq ..).trans (if_pos (by decide +kernel))⟩
  obtain ⟨last,accepted⟩ : ∃ last, hspParseEncryptedExts (.plain .tcpBlocking .client)
      (eeOffer offerSampleCfg) limitOnlyBody offerSampleOut = (.ok (), last) := ⟨_,rfl⟩
  obtain ⟨exts,items,-,-,-,carried⟩ :=
    (encryptedExts_offered_iff built accepted).mpr (by simp [Build.quic,Build.plain])
  exact ⟨hello,last,exts,built,accepted,items,carried⟩

set_option maxRecDepth 2000 in
/-- Over QUIC the parser takes a record size limit that the hello did not offer. -/
theorem encryptedExts_limit_unoffered : ∃ hello last,
    hsBuildClientHello (.plain .quic .client) (Build.plain .quic .client).txStage offerSampleCfg
      [] none [] [] 0 none = some hello ∧
    hspParseEncryptedExts (.plain .quic .client) (eeOffer offerSampleCfg) limitBody
      offerSampleOut = (.ok (), last) ∧
    Carries (encryptedExtsItems limitBody) extRecordSizeLimit ∧
    ¬ Carries (clientHelloItems hello) extRecordSizeLimit := by
  obtain ⟨hello,built⟩ : ∃ hello, hsBuildClientHello (.plain .quic .client)
      (Build.plain .quic .client).txStage offerSampleCfg [] none [] [] 0 none = some hello :=
    ⟨_,(hsBuildClientHello_eq ..).trans (if_pos (by decide +kernel))⟩
  refine ⟨hello,_,built,rfl,⟨_,rfl,by decide⟩,?_⟩
  rw [hsBuildClientHello_items built]
  rintro ⟨list,same,among⟩
  cases same
  rw [clientHelloExts_types] at among
  revert among
  decide

end Chapulin
