/-
The size of the ClientHello (`CH_HELLO_MAX` of `handshake_message.h`) and its
length fields.

`clientHelloFrame` is the message of the protocol, vector by vector.  The
builder computes some of the lengths ahead and patches others in; for every
configuration an init call admits it writes that message whole.
-/

import Mathlib.Tactic.Linarith
import Chapulin.Lib.Frame
import Chapulin.Offer
import Chapulin.Quic.Client

namespace Chapulin

open Lib List Frame

/-! ### `CH_HELLO_MAX` -/

section Sizes

variable (b : Build)

def helloAlpnMax : Nat :=
  if b.webpki || b.quic then 4 + 2 + alpnMax * (1 + alpnNameMax) else 0

def helloServerNameMax : Nat := if b.webpki then 4 + 2 + 1 + 2 + hostnameMax else 0

def helloCertPathMax : Nat := if b.webpki then (4 + 2 + 5 * 2) + (4 + 1 + 2) else 0

def helloTransportMax : Nat := if b.quic then 4 + transportParamsMax - 6 else 0

def helloFirstShareMax : Nat := if b.twoGroups then hybridClientShare else kexClientShare b

def helloMoreGroupsMax : Nat := if b.twoGroups then 2 + 2 else 0

def helloSecondShareMax : Nat := if b.twoGroups then 2 + 2 + 32 else 0

def helloAesSuitesMax : Nat := if b.clientAesSuites then 4 else 0

def helloSha384BinderMax : Nat :=
  if b.clientAesSuites then sha384Len - sha256Len
  else if b.cnsa2 then sha384Len - sha256Len
  else 0

def helloMax : Nat :=
  137 + helloServerNameMax b + helloAlpnMax b + helloTransportMax b + helloCertPathMax b +
    helloMoreGroupsMax b + helloSecondShareMax b + helloAesSuitesMax b + helloSha384BinderMax b +
    ticketIdMax + cookieMax b + helloFirstShareMax b

/-- The longest ClientHello a build can send fits its stage. -/
theorem helloMax_le_txStage (client : b.role ≠ .server) : helloMax b ≤ b.txStage := by
  have hello : helloMax b ≤ b.txHello := by
    have device : b.webpki = true → b.cnsa2 = false ∧ b.kexPq = false := by
      intro webpki
      have trust : b.trust = .webpki := by simpa [Build.webpki] using webpki
      constructor
      · exact Bool.eq_false_iff.mpr fun cnsa2 => (b.cnsa2Rules cnsa2).2.1 trust
      · exact Bool.eq_false_iff.mpr fun pq => b.pqWithoutWebpki pq trust
    have profile : b.cnsa2 = true → b.kexPq = false ∧ b.roleServer = false := by
      intro cnsa2
      obtain ⟨classic,_,one,_⟩ := b.cnsa2Rules cnsa2
      refine ⟨classic,?_⟩
      cases role : b.role with
      | client => simp [Build.roleServer,role]
      | server => exact absurd role client
      | both => exact absurd role one
    simp only [helloMax,helloServerNameMax,helloAlpnMax,helloTransportMax,helloCertPathMax,
      helloMoreGroupsMax,helloSecondShareMax,helloAesSuitesMax,helloSha384BinderMax,cookieMax,
      helloFirstShareMax,kexClientShare,mlkemEkLen,Build.twoGroups,Build.clientAesSuites,
      Build.txHello,Build.txAesSuites,hybridClientShare,ticketIdMax,alpnMax,alpnNameMax,hostnameMax,
      transportParamsMax,sha384Len,sha256Len]
    rcases b.webpki.eq_false_or_eq_true with webpki | webpki
    · obtain ⟨notCnsa2,classic⟩ := device webpki
      rcases b.quic.eq_false_or_eq_true with quic | quic <;>
        rcases b.aesGcm.eq_false_or_eq_true with gcm | gcm <;> simp [webpki,notCnsa2,quic,gcm]
    · rcases b.cnsa2.eq_false_or_eq_true with cnsa2 | cnsa2
      · obtain ⟨classic,single⟩ := profile cnsa2
        rcases b.quic.eq_false_or_eq_true with quic | quic <;> simp [webpki,cnsa2,single,quic]
      · rcases b.quic.eq_false_or_eq_true with quic | quic <;>
          rcases b.kexPq.eq_false_or_eq_true with pq | pq <;>
            rcases b.roleServer.eq_false_or_eq_true with server | server <;>
              simp [webpki,cnsa2,quic,pq,server]
  unfold Build.txStage
  split
  · exact hello
  · exact Nat.le_trans hello (Nat.le_max_left _ _)

end Sizes

/-! ### The message -/

def extFrame (type : Nat) (body : Frame) : Frame := .seq (.raw (be16 type)) (.vector 2 body)

def numbersFrame (numbers : List Nat) : Frame := .vector 2 (.raw (numbers.map be16).flatten)

def shareFrame (share : Item) : Frame := .seq (.raw (be16 share.1)) (.vector 2 (.raw share.2))

section Message

variable (b : Build) (cfg : Cfg)

/-- The groups of `supported_groups`. -/
def namedGroups : List Nat :=
  if b.twoGroups then
    if cfg.requirePq then [groupX25519Mlkem768]
    else [groupX25519Mlkem768,groupX25519,groupSecp256r1]
  else [kexGroup b]

/-- The entries of `key_share`; a retry's own point stands alone. -/
def keyShares (ek pub : Bytes) (p256Pub : Option Bytes) : List Item :=
  if b.twoGroups then
    match p256Pub with
    | some point => [(groupSecp256r1, fitTo p256PointLen point)]
    | none => (groupX25519Mlkem768, fitTo 1184 ek ++ fitTo 32 pub) ::
        if cfg.requirePq then [] else [(groupX25519, fitTo 32 pub)]
  else [(kexGroup b, oneShare b ek pub)]

def pskAge : Nat :=
  match cfg.ticket with
  | some ticket => ticketObfuscatedAge ticket cfg.ticketAgeMs
  | none => 0

def serverNameFrames : List Frame :=
  if b.webpki && cfg.hostname.length != 0 then
    [extFrame extServerName (.vector 2 (.seq (.raw [byte 0]) (.vector 2 (.raw cfg.hostname))))]
  else []

def alpnFrames : List Frame :=
  if (b.webpki || b.quic) && cfg.alpnProtocols != [] then
    [extFrame extAlpn (.vector 2 (.all (cfg.alpnProtocols.map fun name => .vector 1 (.raw name))))]
  else []

def groupFrames (ek pub : Bytes) (p256Pub : Option Bytes) : List Frame :=
  [extFrame extSupportedGroups (numbersFrame (namedGroups b cfg)),
    extFrame extKeyShare (.vector 2 (.all ((keyShares b cfg ek pub p256Pub).map shareFrame)))]

def transportFrames (recordSizeLimit : Nat) : List Frame :=
  if b.quic then [extFrame extQuicTransportParams (.raw cfg.transportParams)]
  else [extFrame extRecordSizeLimit (.raw (be16 recordSizeLimit))]

def cookieFrames (cookie : Option Bytes) : List Frame :=
  cookie.toList.map fun cookie => extFrame extCookie (.vector 2 (.raw cookie))

def pskFrame : Frame :=
  extFrame extPreSharedKey (.seq
    (.vector 2 (.seq (.vector 2 (.raw (cfg.pskId.getD [])))
      (.raw (be16 (pskAge cfg / 65536) ++ be16 (pskAge cfg)))))
    (.vector 2 (.vector 1 (.raw (zeros (hsPskHashLen b cfg))))))

def credentialFrames : List Frame :=
  if b.webpki then
    [extFrame extSignatureAlgorithms (numbersFrame [sigalgRsaPssRsaeSha256,sigalgEcdsaP256Sha256,
      sigalgEcdsaP384Sha384,sigalgRsaPkcs1Sha256,sigalgRsaPkcs1Sha384])] ++
    (if webpkiCertTypesOffered cfg = [] then []
      else [extFrame extServerCertificateType
        (.vector 1 (.raw ((webpkiCertTypesOffered cfg).map byte)))]) ++
    (if cfg.psk.isSome then [pskFrame b cfg] else [])
  else if cfg.psk.isNone then [extFrame extSignatureAlgorithms (numbersFrame [pinSigalg b])]
  else [pskFrame b cfg]

def clientHelloFrames (ek : Bytes) (p256Pub : Option Bytes) (pub : Bytes) (recordSizeLimit : Nat)
    (cookie : Option Bytes) : List Frame :=
  [serverNameFrames b cfg,alpnFrames b cfg,
    [extFrame extSupportedVersions (.vector 1 (.raw (be16 tls13)))],
    groupFrames b cfg ek pub p256Pub,[extFrame extPskModes (.vector 1 (.raw [byte 1]))],
    transportFrames b cfg recordSizeLimit,cookieFrames cookie,credentialFrames b cfg].flatten

def clientHelloFrame (ek : Bytes) (p256Pub : Option Bytes) (pub random : Bytes)
    (recordSizeLimit : Nat) (cookie : Option Bytes) : Frame :=
  .seq (.raw [byte hsClientHello]) (.vector 3 (.all [.raw (be16 0x0303),.raw (fitTo 32 random),
    .vector 1 (.raw []),numbersFrame (helloSuites b cfg),.vector 1 (.raw [byte 0]),
    .vector 2 (.all (clientHelloFrames b cfg ek p256Pub pub recordSizeLimit cookie))]))

end Message

/-! ### The builder writes the message -/

def Spells (frames : List Frame) (items : List Item) : Prop :=
  frames.map encode = items.map Item.encode

theorem Spells.append {frames more : List Frame} {items others : List Item}
    (first : Spells frames items) (rest : Spells more others) :
    Spells (frames ++ more) (items ++ others) := by
  unfold Spells at first rest ⊢
  rw [map_append,map_append,first,rest]

theorem spells_nil : Spells [] [] := rfl

theorem spells_ext {type : Nat} {body : Frame} {data : Bytes} (same : body.encode = data) :
    Spells [extFrame type body] [(type, data)] := by
  subst same
  simp only [Spells,extFrame,map_cons,map_nil,encode,beOf_two,Item.encode]

section Spelling

variable (b : Build) (cfg : Cfg)

theorem numbersFrame_encode (numbers : List Nat) :
    (numbersFrame numbers).encode = list16 numbers := by
  have width := list16_length numbers
  rw [list16,length_append,be16_length] at width
  have counted : ((numbers.map be16).flatten).length = 2 * numbers.length := by omega
  rw [numbersFrame,encode,encode,beOf_two,list16,counted]

theorem serverNameFrames_spell : Spells (serverNameFrames b cfg) (serverNameItems b cfg) := by
  unfold serverNameFrames serverNameItems
  split
  · apply spells_ext
    simp only [encode,beOf_two,length_append,length_cons,length_nil,be16_length]
    congr 2
    omega
  · exact spells_nil

theorem alpnFrames_spell : Spells (alpnFrames b cfg) (alpnItems b cfg) := by
  unfold alpnFrames alpnItems
  split
  · apply spells_ext
    have names : (Frame.all (cfg.alpnProtocols.map fun name => .vector 1 (.raw name))).encode =
        (cfg.alpnProtocols.map fun name => byte name.length :: name).flatten := by
      rw [encode_all,map_map]
      congr 2
      funext name
      simp only [Function.comp,encode,beOf_one,cons_append,nil_append]
    rw [encode,names,beOf_two]
  · exact spells_nil

theorem shareFrame_encode {group length : Nat} {share : Bytes} (counted : share.length = length) :
    (shareFrame (group, share)).encode = shareBytes group length share := by
  simp only [shareFrame,encode,beOf_two,shareBytes,counted]

theorem groupFrames_spell (ek pub : Bytes) (p256Pub : Option Bytes) :
    Spells (groupFrames b cfg ek pub p256Pub) (groupItems b cfg ek p256Pub pub) := by
  have both : ∀ {groups : List Nat} {shares : List Item} {bytes : Bytes},
      (Frame.all (shares.map shareFrame)).encode = bytes →
      Spells [extFrame extSupportedGroups (numbersFrame groups),
          extFrame extKeyShare (.vector 2 (.all (shares.map shareFrame)))]
        [(extSupportedGroups, list16 groups),(extKeyShare, be16 bytes.length ++ bytes)] := by
    intro groups shares bytes spelled
    refine (spells_ext (numbersFrame_encode groups)).append (spells_ext ?_)
    rw [encode,spelled,beOf_two]
  unfold groupFrames groupItems namedGroups keyShares
  by_cases two : b.twoGroups = true
  · rw [if_pos two,if_pos two,if_pos two]
    unfold twoGroupItems
    apply both
    cases p256Pub with
    | some point =>
      simp [encode,shareFrame_encode (fitTo_length p256PointLen point)]
    | none =>
      have hybrid : (fitTo 1184 ek ++ fitTo 32 pub).length = hybridClientShare := by
        rw [length_append,fitTo_length,fitTo_length]
        rfl
      cases cfg.requirePq <;>
        simp [encode,shareFrame_encode hybrid,shareFrame_encode (fitTo_length 32 pub)]
  · rw [if_neg two,if_neg two,if_neg two]
    have length := oneShare_length b ek pub (Bool.eq_false_iff.mpr two)
    have spelled : (Frame.all ([(kexGroup b, oneShare b ek pub)].map shareFrame)).encode =
        shareBytes (kexGroup b) (kexClientShare b) (oneShare b ek pub) := by
      simp [encode,shareFrame_encode length]
    have counted : (shareBytes (kexGroup b) (kexClientShare b) (oneShare b ek pub)).length =
        2 + 2 + kexClientShare b := by
      simp only [shareBytes,length_append,be16_length,length]
      omega
    have one := @both [kexGroup b] _ _ spelled
    rw [counted] at one
    exact one

theorem transportFrames_spell (recordSizeLimit : Nat) :
    Spells (transportFrames b cfg recordSizeLimit) (transportItems b cfg recordSizeLimit) := by
  unfold transportFrames transportItems
  split <;> exact spells_ext rfl

theorem cookieFrames_spell (cookie : Option Bytes) :
    Spells (cookieFrames cookie) (cookieItems cookie) := by
  cases cookie with
  | none => exact spells_nil
  | some cookie => exact spells_ext (by rw [encode,beOf_two,encode])

theorem pskFrame_spells : Spells [pskFrame b cfg] [preSharedKeyItem b cfg] := by
  apply spells_ext
  simp only [encode,beOf_two,beOf_one,zeros,length_append,length_replicate,length_cons,
    length_nil,be16_length,append_assoc]
  rfl

theorem credentialFrames_spell : Spells (credentialFrames b cfg) (credentialItems b cfg) := by
  unfold credentialFrames credentialItems
  split
  · refine Spells.append (Spells.append (spells_ext (numbersFrame_encode _)) ?_) ?_
    · split
      · exact spells_nil
      · apply spells_ext
        rw [encode,encode,beOf_one,length_map]
        rfl
    · split
      · exact pskFrame_spells b cfg
      · exact spells_nil
  split
  · exact spells_ext (numbersFrame_encode _)
  · exact pskFrame_spells b cfg

variable (ek : Bytes) (p256Pub : Option Bytes) (pub random : Bytes) (recordSizeLimit : Nat)
  (cookie : Option Bytes)

theorem clientHelloFrames_spell :
    Spells (clientHelloFrames b cfg ek p256Pub pub recordSizeLimit cookie)
      (clientHelloExts b cfg ek p256Pub pub recordSizeLimit cookie) := by
  unfold clientHelloFrames clientHelloExts
  simp only [flatten_cons,flatten_nil]
  refine (serverNameFrames_spell b cfg).append ((alpnFrames_spell b cfg).append ?_)
  refine Spells.append (spells_ext ?_) ((groupFrames_spell b cfg ek pub p256Pub).append ?_)
  · rw [encode,beOf_one]
    rfl
  refine Spells.append (spells_ext ?_) ((transportFrames_spell b cfg recordSizeLimit).append ?_)
  · rw [encode,beOf_one]
    rfl
  exact (cookieFrames_spell cookie).append ((credentialFrames_spell b cfg).append spells_nil)

theorem clientHelloFrame_encode :
    (clientHelloFrame b cfg ek p256Pub pub random recordSizeLimit cookie).encode =
      handshakeMessage hsClientHello (clientHelloBody b cfg random
        (clientHelloExts b cfg ek p256Pub pub recordSizeLimit cookie)) := by
  have exts : (Frame.all (clientHelloFrames b cfg ek p256Pub pub recordSizeLimit cookie)).encode =
      Item.encodeAll (clientHelloExts b cfg ek p256Pub pub recordSizeLimit cookie) := by
    rw [encode_all,clientHelloFrames_spell b cfg ek p256Pub pub recordSizeLimit cookie]
    rfl
  have body : (Frame.all [.raw (be16 0x0303),.raw (fitTo 32 random),.vector 1 (.raw []),
      numbersFrame (helloSuites b cfg),.vector 1 (.raw [byte 0]),
      .vector 2 (.all (clientHelloFrames b cfg ek p256Pub pub recordSizeLimit cookie))]).encode =
      clientHelloBody b cfg random
        (clientHelloExts b cfg ek p256Pub pub recordSizeLimit cookie) := by
    simp [encode,numbersFrame_encode,exts,beOf_one,beOf_two,clientHelloBody,clientHelloHead]
  rw [clientHelloFrame,encode,encode,encode,body,beOf_three]
  rfl

end Spelling

/-! ### What an admitted configuration holds -/

section Admitted

def ClientAdmits (e : Env) (cfg : Cfg) : Prop :=
  if e.build.quic then ∃ given t, quicConfigOk e given = (.ok (), t) ∧ t.cfg = cfg
  else tlsiConfigOk e cfg = true

structure HelloBounds (b : Build) (cfg : Cfg) : Prop where
  hostname : b.webpki = true → cfg.hostname.length ≤ hostnameMax
  protocols : (b.webpki || b.quic) = true → cfg.alpnProtocols.length ≤ alpnMax ∧
    ∀ name ∈ cfg.alpnProtocols, name.length ≤ alpnNameMax
  params : b.quic = true → cfg.transportParams.length ≤ transportParamsMax
  identity : cfg.psk.isSome = true → (cfg.pskId.getD []).length ≤ ticketIdMax
  suites : (helloSuites b cfg).length ≤ if b.clientAesSuites then 3 else 1

variable {e : Env} {cfg : Cfg}

theorem alpnNamesOk_bounds {names : List Bytes} (ok : alpnNamesOk names = true) :
    names.length ≤ alpnMax ∧ ∀ name ∈ names, name.length ≤ alpnNameMax := by
  simp only [alpnNamesOk,Bool.and_eq_true,decide_eq_true_eq,all_eq_true] at ok
  exact ⟨ok.1.1,fun name among => (ok.1.2 name among).2⟩

theorem webpkiTrustOk_hostname (ok : webpkiTrustOk cfg = true) :
    cfg.hostname.length ≤ hostnameMax := by
  have named : webpkiHostnameOk cfg.hostname = true → cfg.hostname.length ≤ hostnameMax := by
    intro ok
    simp only [webpkiHostnameOk,Bool.and_eq_true,decide_eq_true_eq] at ok
    omega
  unfold webpkiTrustOk at ok
  split at ok
  · rcases Bool.or_eq_true_iff.mp ok with absent | host
    · rw [beq_iff_eq.mp absent]
      exact Nat.zero_le _
    · exact named host
  · exact named (Bool.and_eq_true_iff.mp ok).2

theorem webpkiResumptionOk_identity (ok : webpkiResumptionOk e cfg = true) :
    (cfg.pskId.getD []).length ≤ ticketIdMax := by
  unfold webpkiResumptionOk at ok
  split at ok
  · rename_i _ absent _
    rw [absent]
    exact Nat.zero_le _
  · rename_i psk pskId ticket _ given _
    simp only [Bool.and_eq_true,decide_eq_true_eq] at ok
    rw [given]
    exact ok.1.2
  · cases ok

theorem pinTrustOk_identity (ok : pinTrustOk e cfg = true) (psk : cfg.psk.isSome = true) :
    (cfg.pskId.getD []).length ≤ ticketIdMax := by
  have pinned : pinConfigured e cfg = false := by
    obtain ⟨key,given⟩ := Option.isSome_iff_exists.mp psk
    simp [pinConfigured,given]
  simp only [pinTrustOk,pinned,Bool.or_false,Bool.and_eq_true] at ok
  have configured := ok.1.1.1.1
  simp only [pskConfigured,Bool.and_eq_true] at configured
  cases given : cfg.pskId with
  | none => exact Nat.zero_le _
  | some id =>
    have bounded := configured.1.2
    rw [given] at bounded
    simp only [Option.any_some,Bool.and_eq_true,decide_eq_true_eq] at bounded
    exact bounded.2

theorem suiteSessionDefault_length (b : Build) (cfg : Cfg) :
    (suiteSessionDefault b cfg).length ≤ 3 := by
  unfold suiteSessionDefault suiteDefaultOrder
  split
  · exact Nat.le_of_ble_eq_true rfl
  split
  · exact Nat.le_of_ble_eq_true rfl
  split
  · exact Nat.le_refl 3
  split
  · exact Nat.le_refl 3
  · exact Nat.le_of_ble_eq_true rfl

theorem helloSuites_length (listed : e.build.clientAesSuites = true → clientSuitesOk e cfg = true) :
    (helloSuites e.build cfg).length ≤ if e.build.clientAesSuites then 3 else 1 := by
  unfold helloSuites
  by_cases choice : e.build.clientAesSuites = true
  · rw [if_pos choice,if_pos choice]
    unfold hsOfferedSuites
    split
    · have ok := listed choice
      simp only [clientSuitesOk,Bool.and_eq_true,decide_eq_true_eq] at ok
      exact ok.1.1.1
    · exact suiteSessionDefault_length e.build cfg
  · rw [if_neg choice,if_neg choice]
    split <;> exact Nat.le_refl 1

theorem helloBounds_of_trust (trusted : trustConfigOk e cfg = true)
    (quic : e.build.quic = true → alpnNamesOk cfg.alpnProtocols = true ∧
      cfg.transportParams.length ≤ transportParamsMax) : HelloBounds e.build cfg := by
  unfold trustConfigOk at trusted
  by_cases webpki : e.build.webpki = true
  · rw [if_pos webpki] at trusted
    simp only [webpkiCfgOk,Bool.and_eq_true] at trusted
    obtain ⟨⟨⟨⟨⟨⟨suites,_⟩,trust⟩,resumed⟩,_⟩,_⟩,names⟩ := trusted
    refine ⟨fun _ => webpkiTrustOk_hostname trust,fun _ => alpnNamesOk_bounds names,
      fun onQuic => (quic onQuic).2,fun _ => webpkiResumptionOk_identity resumed,
      helloSuites_length fun choice => ?_⟩
    simpa [choice] using suites
  · rw [if_neg webpki] at trusted
    refine ⟨fun yes => absurd yes webpki,fun either => ?_,fun onQuic => (quic onQuic).2,
      pinTrustOk_identity trusted,helloSuites_length fun choice => ?_⟩
    · rcases Bool.or_eq_true_iff.mp either with yes | onQuic
      · exact absurd yes webpki
      · exact alpnNamesOk_bounds (quic onQuic).1
    · exact absurd (Bool.and_eq_true_iff.mp choice).2 webpki

theorem quicConfigOk_admits {given : Cfg} {t : Tls} (ok : quicConfigOk e given = (.ok (), t)) :
    trustConfigOk e t.cfg = true ∧ alpnNamesOk t.cfg.alpnProtocols = true ∧
      transportConfigOk quicVersionDerived t.cfg = true := by
  unfold quicConfigOk at ok
  split at ok
  · cases ok
  rename_i presented _
  dsimp only at ok
  split at ok
  · cases ok
  rename_i passed
  split at ok
  · cases ok
  have kept := tlsiEpochInit_beforeSetup e presented (takeClock e presented (Tls.fresh presented))
  rw [ok] at kept
  have same : t.cfg = presented := by
    have fields : t.beforeSetup.cfg = (takeClock e presented
      (Tls.fresh presented)).beforeSetup.cfg :=
      congrArg Tls.cfg kept
    have clock : (takeClock e presented (Tls.fresh presented)).cfg = presented := by
      unfold takeClock
      split <;> rfl
    exact fields.trans clock
  simp only [Bool.or_eq_true,not_or,Bool.not_eq_true',Bool.not_eq_false] at passed
  rw [same]
  exact ⟨passed.1.1.1.1.1.1.1.2,passed.1.1.1.1.2,passed.1.1.1.1.1.1.2⟩

theorem ClientAdmits.bounds (admitted : ClientAdmits e cfg) : HelloBounds e.build cfg := by
  unfold ClientAdmits at admitted
  by_cases quic : e.build.quic = true
  · rw [if_pos quic] at admitted
    obtain ⟨given,t,ok,rfl⟩ := admitted
    obtain ⟨trusted,names,transport⟩ := quicConfigOk_admits ok
    simp only [transportConfigOk,Bool.and_eq_true,decide_eq_true_eq] at transport
    exact helloBounds_of_trust trusted fun _ => ⟨names,transport.1.1.2⟩
  · rw [if_neg quic] at admitted
    simp only [tlsiConfigOk,Bool.and_eq_true] at admitted
    exact helloBounds_of_trust admitted.1.1.1.1 fun onQuic => absurd onQuic quic

end Admitted

/-! ### How long the parts are -/

section Lengths

variable {b : Build} {cfg : Cfg} (bounds : HelloBounds b cfg)

@[simp] theorem extFrame_size (type : Nat) (body : Frame) :
    (extFrame type body).size = 4 + body.size := by
  simp only [extFrame,size,be16_length]
  omega

@[simp] theorem numbersFrame_size (numbers : List Nat) :
    (numbersFrame numbers).size = 2 + 2 * numbers.length := by
  rw [← encode_length,numbersFrame_encode,list16_length]

include bounds

theorem serverNameFrames_size :
    (Frame.all (serverNameFrames b cfg)).size ≤ helloServerNameMax b := by
  unfold serverNameFrames helloServerNameMax
  split
  · rename_i named
    have webpki := (Bool.and_eq_true_iff.mp named).1
    have short := bounds.hostname webpki
    simp only [webpki,if_true,Frame.all_cons,Frame.all_nil,size,extFrame_size,length_cons,
      length_nil]
    omega
  · exact Nat.zero_le _

theorem alpnFrames_size : (Frame.all (alpnFrames b cfg)).size ≤ helloAlpnMax b := by
  have names (protocols : List Bytes)
      (short : ∀ name ∈ protocols, name.length ≤ alpnNameMax) :
      (Frame.all (protocols.map fun name => .vector 1 (.raw name))).size ≤
        protocols.length * (1 + alpnNameMax) := by
    induction protocols with
    | nil => exact Nat.zero_le _
    | cons name rest ih =>
      have first := short name mem_cons_self
      have later := ih (forall_mem_cons.mp short).2
      simp only [map_cons,Frame.all_cons,size,length_cons,Nat.succ_mul]
      omega
  unfold alpnFrames helloAlpnMax
  split
  · rename_i offered
    have declared := (Bool.and_eq_true_iff.mp offered).1
    obtain ⟨few,short⟩ := bounds.protocols declared
    have listed := names cfg.alpnProtocols short
    have most := Nat.mul_le_mul_right (1 + alpnNameMax) few
    rw [if_pos declared]
    simp only [Frame.all_cons,Frame.all_nil,size,extFrame_size,length_nil]
    omega
  · exact Nat.zero_le _

theorem transportFrames_size (recordSizeLimit : Nat) :
    (Frame.all (transportFrames b cfg recordSizeLimit)).size ≤ 6 + helloTransportMax b := by
  unfold transportFrames helloTransportMax
  split
  · rename_i quic
    have short := bounds.params quic
    simp only [Frame.all_cons,Frame.all_nil,size,extFrame_size,length_nil]
    unfold transportParamsMax at *
    omega
  · simp only [Frame.all_cons,Frame.all_nil,size,extFrame_size,length_nil,be16_length]
    omega

omit bounds in
theorem groupFrames_size (ek pub : Bytes) (p256Pub : Option Bytes) :
    (Frame.all (groupFrames b cfg ek pub p256Pub)).size ≤
      18 + helloMoreGroupsMax b + helloSecondShareMax b + helloFirstShareMax b := by
  unfold groupFrames namedGroups keyShares helloMoreGroupsMax helloSecondShareMax
    helloFirstShareMax
  by_cases two : b.twoGroups = true
  · simp only [two,if_true]
    cases p256Pub with
    | some point =>
      cases cfg.requirePq <;>
        simp [size,shareFrame,p256PointLen,hybridClientShare]
    | none =>
      cases cfg.requirePq <;>
        simp [size,shareFrame,hybridClientShare]
  · have length := oneShare_length b ek pub (Bool.eq_false_iff.mpr two)
    simp only [two,if_false,Frame.all_cons,Frame.all_nil,size,extFrame_size,
      numbersFrame_size,shareFrame,map_cons,map_nil,length_cons,length_nil,be16_length,length,
      Bool.false_eq_true]
    omega

theorem pskFrame_size (psk : cfg.psk.isSome = true) :
    (pskFrame b cfg).size ≤ 15 + sha256Len + helloSha384BinderMax b + ticketIdMax := by
  have identity := bounds.identity psk
  have hash : hsPskHashLen b cfg ≤ sha256Len + helloSha384BinderMax b := by
    unfold hsPskHashLen helloSha384BinderMax sha384Len sha256Len
    by_cases cnsa2 : b.cnsa2 = true
    · simp only [cnsa2,if_true]
      split <;> omega
    · by_cases choice : b.clientAesSuites = true
      · rw [if_neg cnsa2,if_pos choice]
        split <;> omega
      · simp [cnsa2,choice]
  simp only [pskFrame,extFrame_size,size,length_append,be16_length,zeros_length]
  omega

theorem credentialFrames_size :
    (Frame.all (credentialFrames b cfg)).size ≤
      15 + sha256Len + helloSha384BinderMax b + ticketIdMax + helloCertPathMax b := by
  unfold credentialFrames helloCertPathMax
  by_cases webpki : b.webpki = true
  · have types : (Frame.all (if webpkiCertTypesOffered cfg = [] then []
        else [extFrame extServerCertificateType
          (.vector 1 (.raw ((webpkiCertTypesOffered cfg).map byte)))])).size ≤ 7 := by
      unfold webpkiCertTypesOffered
      cases cfg.spkiPins <;> simp [size]
    have proof : (Frame.all (if cfg.psk.isSome then [pskFrame b cfg] else [])).size ≤
        15 + sha256Len + helloSha384BinderMax b + ticketIdMax := by
      split
      · rename_i psk
        have short := pskFrame_size bounds psk
        simpa [size] using short
      · exact Nat.zero_le _
    rw [if_pos webpki,if_pos webpki,size_all_append,size_all_append]
    simp only [Frame.all_cons,Frame.all_nil,size,extFrame_size,numbersFrame_size,
      length_cons,length_nil]
    omega
  · rw [if_neg webpki,if_neg webpki]
    split
    · simp only [Frame.all_cons,Frame.all_nil,size,extFrame_size,numbersFrame_size,
        length_cons,length_nil]
      omega
    · rename_i psk
      have short := pskFrame_size bounds (by simpa [Option.isSome_iff_ne_none] using psk)
      simpa [size] using short

/-- No configuration makes a longer ClientHello than the bound. -/
theorem clientHelloFrame_size (ek : Bytes) (p256Pub : Option Bytes) (pub random : Bytes)
    (recordSizeLimit : Nat) (cookie : Option Bytes)
    (echoed : ∀ bytes, cookie = some bytes → bytes.length ≤ cookieMax b) :
    (clientHelloFrame b cfg ek p256Pub pub random recordSizeLimit cookie).size ≤ helloMax b := by
  have suites : 2 * (helloSuites b cfg).length ≤ 2 + helloAesSuitesMax b := by
    have few := bounds.suites
    unfold helloAesSuitesMax
    by_cases choice : b.clientAesSuites = true
    · rw [if_pos choice] at few ⊢
      omega
    · rw [if_neg choice] at few ⊢
      omega
  have retried : (Frame.all (cookieFrames cookie)).size ≤ 6 + cookieMax b := by
    cases cookie with
    | none => exact Nat.zero_le _
    | some bytes =>
      have short := echoed bytes rfl
      simp only [cookieFrames,Option.toList_some,map_cons,map_nil,Frame.all_cons,Frame.all_nil,
        size,extFrame_size,length_nil]
      omega
  have name := serverNameFrames_size bounds
  have protocols := alpnFrames_size bounds
  have groups := @groupFrames_size b cfg ek pub p256Pub
  have transport := transportFrames_size bounds recordSizeLimit
  have credentials := credentialFrames_size bounds
  simp only [clientHelloFrame,clientHelloFrames,flatten_cons,flatten_nil,append_nil,
    size_all_append,Frame.all_cons,Frame.all_nil,size,extFrame_size,
    numbersFrame_size,length_cons,length_nil,be16_length,fitTo_length]
  unfold helloMax
  unfold sha256Len at credentials
  linarith

omit bounds in
theorem narrowFit_numbers (numbers : List Nat) : (numbersFrame numbers).NarrowFit :=
  ⟨.inl (Nat.le_refl 2),trivial⟩

omit bounds in
theorem narrowFit_ext {type : Nat} {body : Frame} (fits : body.NarrowFit) :
    (extFrame type body).NarrowFit := ⟨trivial,.inl (Nat.le_refl 2),fits⟩

/-- The three kinds of one-byte length the message has: protocol names, short
lists and the binder. -/
theorem clientHelloFrame_narrowFit (ek : Bytes) (p256Pub : Option Bytes) (pub random : Bytes)
    (recordSizeLimit : Nat) (cookie : Option Bytes) :
    (clientHelloFrame b cfg ek p256Pub pub random recordSizeLimit cookie).NarrowFit := by
  have wide : ∀ {body : Frame}, body.NarrowFit → (vector 2 body).NarrowFit := fun fits =>
    ⟨.inl (Nat.le_refl 2),fits⟩
  have narrow : ∀ {bytes : Bytes}, bytes.length < 256 → (vector 1 (.raw bytes)).NarrowFit :=
    fun short => ⟨.inr short,trivial⟩
  have proof : (pskFrame b cfg).NarrowFit := by
    have hash : (zeros (hsPskHashLen b cfg)).length < 256 := by
      rw [zeros_length]
      unfold hsPskHashLen sha384Len sha256Len
      split
      · decide
      split <;> decide
    exact narrowFit_ext ⟨wide ⟨wide trivial,trivial⟩,wide (narrow hash)⟩
  have credentials_narrow : ∀ frame ∈ credentialFrames b cfg, frame.NarrowFit := by
    intro frame among
    unfold credentialFrames at among
    split at among
    · simp only [mem_append,mem_singleton] at among
      rcases among with (rfl | types) | offered
      · exact narrowFit_ext (narrowFit_numbers _)
      · split at types
        · cases types
        · rw [mem_singleton.mp types]
          refine narrowFit_ext (narrow ?_)
          unfold webpkiCertTypesOffered
          split <;> decide
      · split at offered
        · rw [mem_singleton.mp offered]
          exact proof
        · cases offered
    split at among
    · rw [mem_singleton.mp among]
      exact narrowFit_ext (narrowFit_numbers _)
    · rw [mem_singleton.mp among]
      exact proof
  have exts : ∀ frame ∈ clientHelloFrames b cfg ek p256Pub pub recordSizeLimit cookie,
      frame.NarrowFit := by
    intro frame among
    simp only [clientHelloFrames,flatten_cons,flatten_nil,append_nil,mem_append,mem_cons,
      not_mem_nil,or_false] at among
    rcases among with name | protocols | rfl | groups | rfl | transport | echoed | credentials
    · unfold serverNameFrames at name
      split at name
      · rw [mem_singleton.mp name]
        exact narrowFit_ext (wide ⟨trivial,wide trivial⟩)
      · cases name
    · unfold alpnFrames at protocols
      split at protocols
      · rename_i offered
        rw [mem_singleton.mp protocols]
        refine narrowFit_ext (wide (narrowFit_all fun each listed => ?_))
        obtain ⟨name,known,rfl⟩ := mem_map.mp listed
        have short := (bounds.protocols (Bool.and_eq_true_iff.mp offered).1).2 name known
        unfold alpnNameMax at short
        exact narrow (by omega)
      · cases protocols
    · exact narrowFit_ext (narrow (by decide))
    · unfold groupFrames at groups
      simp only [mem_cons,not_mem_nil,or_false] at groups
      rcases groups with rfl | rfl
      · exact narrowFit_ext (narrowFit_numbers _)
      · refine narrowFit_ext (wide (narrowFit_all fun each listed => ?_))
        obtain ⟨share,_,rfl⟩ := mem_map.mp listed
        exact ⟨trivial,wide trivial⟩
    · exact narrowFit_ext (narrow (by decide))
    · unfold transportFrames at transport
      split at transport <;>
        · rw [mem_singleton.mp transport]
          exact narrowFit_ext trivial
    · obtain ⟨bytes,_,rfl⟩ := mem_map.mp echoed
      exact narrowFit_ext (wide trivial)
    · exact credentials_narrow frame credentials
  exact ⟨trivial,.inl (by decide),trivial,trivial,narrow (by decide),narrowFit_numbers _,
    narrow (by decide),wide (narrowFit_all exts),trivial⟩

end Lengths

/-- The builder writes every admitted configuration's hello whole, within
`CH_HELLO_MAX`, and each of its length fields is exact. -/
theorem hsBuildClientHello_whole {e : Env} {cfg : Cfg} (client : e.build.role ≠ .server)
    (admitted : ClientAdmits e cfg) (ek : Bytes) (p256Pub : Option Bytes) (pub random : Bytes)
    (recordSizeLimit : Nat) (cookie : Option Bytes)
    (echoed : ∀ bytes, cookie = some bytes → bytes.length ≤ cookieMax e.build) :
    ∃ hello, hsBuildClientHello e.build e.build.txStage cfg ek p256Pub pub random recordSizeLimit
        cookie = some hello ∧ hello.length ≤ helloMax e.build ∧
      hello = (clientHelloFrame e.build cfg ek p256Pub pub random recordSizeLimit cookie).encode ∧
      (clientHelloFrame e.build cfg ek p256Pub pub random recordSizeLimit cookie).Exact := by
  have bounds := admitted.bounds
  have short := clientHelloFrame_size bounds ek p256Pub pub random recordSizeLimit cookie echoed
  have staged := helloMax_le_txStage e.build client
  have whole := clientHelloFrame_encode e.build cfg ek p256Pub pub random recordSizeLimit cookie
  refine ⟨_,?_,?_,rfl,?_⟩
  · rw [hsBuildClientHello_eq,← whole]
    dsimp only
    rw [if_pos]
    rw [encode_length]
    exact Nat.le_trans short staged
  · rw [encode_length]
    exact short
  · refine exact_of_narrowFit ?_
      (clientHelloFrame_narrowFit bounds ek p256Pub pub random recordSizeLimit cookie)
    exact Nat.lt_of_le_of_lt (Nat.le_trans short staged) (txStage_lt e.build)

def longestHelloCfg : Cfg :=
  { Cfg.unset with
    psk := some (zeros 16)
    pskId := some (zeros 320)
    bufLen := 512 }

theorem hsBuildClientHello_whole_longest : ∃ hello,
    hsBuildClientHello (.plain .tcpBlocking .client) (Build.plain .tcpBlocking .client).txStage
        longestHelloCfg [] none [] [] 1003 (some (zeros 128)) = some hello ∧
      hello.length ≤ helloMax (.plain .tcpBlocking .client) ∧
      (clientHelloFrame (.plain .tcpBlocking .client) longestHelloCfg [] none [] [] 1003
        (some (zeros 128))).Exact := by
  have admitted : ClientAdmits (.sample (.plain .tcpBlocking .client)) longestHelloCfg := by
    rw [ClientAdmits,if_neg (by decide)]
    decide +kernel
  obtain ⟨hello,built,short,_,fields⟩ := hsBuildClientHello_whole
    (by decide) admitted [] none [] [] 1003 (some (zeros 128)) (by
      intro bytes given
      rw [← Option.some.inj given,zeros_length]
      decide)
  exact ⟨hello,built,short,fields⟩

end Chapulin
