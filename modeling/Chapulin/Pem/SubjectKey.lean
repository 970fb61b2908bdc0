/-
A certificate as far as its subject and its key (`x509_pem.c`,
`x509_pem_read_subject_key`).

The reader reads outer fields alone and judges nothing.  What it hands out are
ranges of the certificate, and `CertificateOuter` says which octets stand there:
the fields of a certificate in order, each under its tag, the optional ones
absent or whole.
-/

import Chapulin.Cert.Webpki
import Chapulin.Pem.Text

namespace Chapulin

open Lib Lib.Der List

/-! ### The reader -/

/-- Whether the next octet is `tag`; the reader does not move. -/
def tagFollows (tag : UInt8) (r : Rbuf) : Bool :=
  match rbU8 r with
  | (got, next) => !next.err && got == tag.toNat

def readTlv (tag : UInt8) : DerReader Bytes := do
  let element ← readSliced (x509Skip tag)
  pure element.2

/-- A field that may be absent: when the next octet is `tag`, one element of it. -/
def skipOptional (tag : UInt8) : DerReader Unit := fun r =>
  if tagFollows tag r then x509Skip tag r else some ((), r)

structure SubjectKey where
  name : DerRange
  spki : DerRange
  deriving DecidableEq, Repr

/-- The fields of a `TBSCertificate` in front of its subject: version, serialNumber, signature,
issuer and validity. -/
def skipToSubject : DerReader Unit := do
  skipOptional 0xa0
  x509Skip 0x02
  x509Skip 0x30
  x509Skip 0x30
  x509Skip 0x30

/-- `read_tbs`; the ranges are of the octets it reads. -/
def pemReadTbs : DerReader SubjectKey := do
  let before ← readSliced skipToSubject
  let name ← readTlv 0x30
  let spki ← readTlv 0x30
  skipOptional 0x81
  skipOptional 0x82
  skipOptional 0xa3
  pure
    { name := ⟨before.2.length,name.length⟩
      spki := ⟨before.2.length + name.length,spki.length⟩ }

def DerRange.shift (start : Nat) (range : DerRange) : DerRange :=
  { range with off := start + range.off }

def SubjectKey.shift (start : Nat) (key : SubjectKey) : SubjectKey :=
  { name := key.name.shift start, spki := key.spki.shift start }

/-- The `TBSCertificate`'s content, and the algorithm and signature behind it. -/
def readSignedPart (tbsLen : Nat) : DerReader Bytes := do
  let tbs ← rbTake tbsLen
  x509Skip 0x30
  x509Skip 0x03
  pure tbs

def x509PemReadSubjectKey (cert : Bytes) : Option SubjectKey :=
  match readFilling 0x30 (rbInit cert) with
  | none => none
  | some (_, r) =>
    match x509ReadHeader 0x30 r with
    | none => none
    | some (tbsLen, r) =>
      -- where the TBSCertificate's content stands in the certificate
      let tbsAt := cert.length - rbLeft r
      match readWhole (readSignedPart tbsLen) r.rest with
      | none => none
      | some tbs => (readWhole pemReadTbs tbs).map (SubjectKey.shift tbsAt)

/-! ### Optional fields and whole strings -/

section Whole

variable {α β : Type}

def optionalTlv (tag : UInt8) : Option Bytes → Bytes
  | none => []
  | some content => tlv tag content

/-- What stands in the field is short enough for the length octets the readers take. -/
def FieldFits (field : Option Bytes) : Prop := ∀ content ∈ field, content.length < 65536

theorem fieldFits_none : FieldFits none := by
  intro content impossible
  cases impossible

theorem fieldFits_some {content : Bytes} : FieldFits (some content) ↔ content.length < 65536 := by
  simp [FieldFits]

theorem tagFollows_iff {tag : UInt8} {bytes : Bytes} :
    tagFollows tag ⟨bytes,false⟩ = true ↔ bytes.head? = some tag := by
  cases bytes with
  | nil => simp [tagFollows,rbU8]
  | cons octet rest => simp [tagFollows,← UInt8.toNat_inj]

theorem readsWhole_choice (tag : UInt8) {present absent : DerReader α}
    {grammar other : α → Bytes → Prop} (readsPresent : ReadsWhole present grammar)
    (readsAbsent : ReadsWhole absent other)
    (headed : ∀ value bytes, grammar value bytes → bytes.head? = some tag)
    (unheaded : ∀ value bytes, other value bytes → bytes.head? ≠ some tag) :
    ReadsWhole (fun r => if tagFollows tag r then present r else absent r)
      (fun value bytes => grammar value bytes ∨ other value bytes) := by
  intro bytes value
  cases follows : tagFollows tag (rbInit bytes) with
  | true =>
    have same : readWhole (fun r => if tagFollows tag r then present r else absent r) bytes =
        readWhole present bytes := by
      simp only [readWhole,follows,if_true]
    rw [same,readsPresent bytes value]
    constructor
    · exact .inl
    · rintro (inside | outside)
      · exact inside
      · exact absurd (tagFollows_iff.mp follows) (unheaded value bytes outside)
  | false =>
    have same : readWhole (fun r => if tagFollows tag r then present r else absent r) bytes =
        readWhole absent bytes := by
      simp only [readWhole,follows,Bool.false_eq_true,if_false]
    rw [same,readsAbsent bytes value]
    constructor
    · exact .inr
    · rintro (inside | outside)
      · have follows := follows.symm.trans (tagFollows_iff.mpr (headed value bytes inside))
        exact absurd follows Bool.false_ne_true
      · exact outside

theorem readsWhole_optional {tag : UInt8} {rest : DerReader β} {grammar : β → Bytes → Prop}
    (reads : ReadsWhole rest grammar)
    (other : ∀ value bytes, grammar value bytes → bytes.head? ≠ some tag) :
    ReadsWhole (skipOptional tag >>= fun _ => rest) (fun result bytes => ∃ field right,
      FieldFits field ∧ grammar result right ∧ bytes = optionalTlv tag field ++ right) := by
  have same : (skipOptional tag >>= fun _ => rest) = fun r =>
      if tagFollows tag r then (x509Skip tag >>= fun _ => rest) r else rest r := by
    funext r
    change (skipOptional tag r).bind _ = _
    rw [skipOptional]
    split
    · rfl
    · rfl
  rw [same]
  refine (readsWhole_choice tag (ReadsWhole.bind (reads_skip tag) fun _ => reads) reads ?_
    other).congr fun result bytes => ?_
  · rintro _ _ ⟨_,_,_,⟨content,_,rfl⟩,_,rfl⟩
    rfl
  constructor
  · rintro (⟨_,_,right,⟨content,small,rfl⟩,inRest,rfl⟩ | inRest)
    · exact ⟨some content,right,fieldFits_some.mpr small,inRest,rfl⟩
    · exact ⟨none,bytes,fieldFits_none,inRest,rfl⟩
  · rintro ⟨field,right,small,inRest,rfl⟩
    cases field with
    | none => exact .inr inRest
    | some content =>
      exact .inl ⟨(),_,right,⟨content,fieldFits_some.mp small,rfl⟩,inRest,rfl⟩

/-- An optional field is present exactly when its tag is there. -/
theorem reads_optional {tag : UInt8} {rest : DerReader β} {grammar : β → Bytes → Prop}
    (reads : Reads rest grammar)
    (other : ∀ value front, grammar value front → ∃ octet tail, front = octet :: tail ∧
      octet ≠ tag) :
    Reads (skipOptional tag >>= fun _ => rest) (fun result front => ∃ field right,
      FieldFits field ∧ grammar result right ∧
        front = optionalTlv tag field ++ right) := by
  intro bytes result next
  have present := ((reads_skip tag).bind fun _ => reads) bytes result next
  cases follows : tagFollows tag ⟨bytes,false⟩ with
  | true =>
    have same : (skipOptional tag >>= fun _ => rest) ⟨bytes,false⟩ =
        (x509Skip tag >>= fun _ => rest) ⟨bytes,false⟩ := by
      change (skipOptional tag ⟨bytes,false⟩).bind _ = (x509Skip tag ⟨bytes,false⟩).bind _
      rw [skipOptional,if_pos follows]
    rw [same,present]
    constructor
    · rintro ⟨live,_,⟨_,_,right,⟨content,small,rfl⟩,inRest,rfl⟩,split⟩
      exact ⟨live,_,⟨some content,right,fieldFits_some.mpr small,inRest,rfl⟩,split⟩
    · rintro ⟨live,_,⟨field,right,small,inRest,rfl⟩,rfl⟩
      cases field with
      | none =>
        obtain ⟨octet,tail,rfl,differs⟩ := other result right inRest
        exact absurd (Option.some.inj (tagFollows_iff.mp follows)) differs
      | some content =>
        exact ⟨live,_,⟨(),_,right,⟨content,fieldFits_some.mp small,rfl⟩,inRest,rfl⟩,rfl⟩
  | false =>
    have same : (skipOptional tag >>= fun _ => rest) ⟨bytes,false⟩ = rest ⟨bytes,false⟩ := by
      change (skipOptional tag ⟨bytes,false⟩).bind _ = _
      rw [skipOptional,follows]
      rfl
    rw [same,reads bytes result next]
    constructor
    · rintro ⟨live,front,inRest,split⟩
      exact ⟨live,front,⟨none,front,fieldFits_none,inRest,rfl⟩,split⟩
    · rintro ⟨live,_,⟨field,right,-,inRest,rfl⟩,rfl⟩
      cases field with
      | none => exact ⟨live,right,inRest,rfl⟩
      | some content =>
        rw [tagFollows_iff.mpr rfl] at follows
        cases follows

end Whole

/-! ### The fields of a certificate -/

structure TbsOuter where
  version : Option Bytes
  serialNumber : Bytes
  signature : Bytes
  issuer : Bytes
  validity : Bytes
  subject : Bytes
  subjectPublicKeyInfo : Bytes
  issuerUniqueId : Option Bytes
  subjectUniqueId : Option Bytes
  extensions : Option Bytes

namespace TbsOuter

variable (f : TbsOuter)

def leading : Bytes :=
  optionalTlv 0xa0 f.version ++ (tlv 0x02 f.serialNumber ++ (tlv 0x30 f.signature ++
    (tlv 0x30 f.issuer ++ tlv 0x30 f.validity)))

def name : Bytes := tlv 0x30 f.subject

def spki : Bytes := tlv 0x30 f.subjectPublicKeyInfo

def trailing : Bytes :=
  optionalTlv 0x81 f.issuerUniqueId ++ (optionalTlv 0x82 f.subjectUniqueId ++
    optionalTlv 0xa3 f.extensions)

def encode : Bytes := f.leading ++ (f.name ++ (f.spki ++ f.trailing))

def ranges : SubjectKey :=
  { name := ⟨f.leading.length,f.name.length⟩
    spki := ⟨f.leading.length + f.name.length,f.spki.length⟩ }

structure Fits : Prop where
  version : FieldFits f.version
  serialNumber : f.serialNumber.length < 65536
  signature : f.signature.length < 65536
  issuer : f.issuer.length < 65536
  validity : f.validity.length < 65536
  subject : f.subject.length < 65536
  subjectPublicKeyInfo : f.subjectPublicKeyInfo.length < 65536
  issuerUniqueId : FieldFits f.issuerUniqueId
  subjectUniqueId : FieldFits f.subjectUniqueId
  extensions : FieldFits f.extensions

end TbsOuter

theorem reads_tlv (tag : UInt8) :
    Reads (readTlv tag)
      (fun bytes front => ∃ content, content.length < 65536 ∧ front = tlv tag content ∧
        bytes = front) :=
  reads_element_slice tag

theorem reads_toSubject :
    Reads skipToSubject (fun _ front => ∃ version serialNumber signature issuer validity,
      FieldFits version ∧ serialNumber.length < 65536 ∧ signature.length < 65536 ∧
        issuer.length < 65536 ∧ validity.length < 65536 ∧
        front = optionalTlv 0xa0 version ++ (tlv 0x02 serialNumber ++ (tlv 0x30 signature ++
          (tlv 0x30 issuer ++ tlv 0x30 validity)))) := by
  have behind := (reads_skip 0x02).bind fun _ => (reads_skip 0x30).bind fun _ =>
    (reads_skip 0x30).bind fun _ => reads_skip 0x30
  refine (reads_optional behind ?_).congr fun value front => ?_
  · rintro _ _ ⟨_,_,_,⟨content,_,rfl⟩,_,rfl⟩
    exact ⟨0x02,_,rfl,by decide⟩
  · constructor
    · rintro ⟨version,_,versionFits,⟨_,_,_,⟨serialNumber,serialFits,rfl⟩,
        ⟨_,_,_,⟨signature,signatureFits,rfl⟩,⟨_,_,_,⟨issuer,issuerFits,rfl⟩,
        ⟨validity,validityFits,rfl⟩,rfl⟩,rfl⟩,rfl⟩,rfl⟩
      exact ⟨version,serialNumber,signature,issuer,validity,versionFits,serialFits,signatureFits,
        issuerFits,validityFits,rfl⟩
    · rintro ⟨version,serialNumber,signature,issuer,validity,versionFits,serialFits,signatureFits,
        issuerFits,validityFits,rfl⟩
      exact ⟨version,_,versionFits,⟨(),_,_,⟨serialNumber,serialFits,rfl⟩,
        ⟨(),_,_,⟨signature,signatureFits,rfl⟩,⟨(),_,_,⟨issuer,issuerFits,rfl⟩,
        ⟨validity,validityFits,rfl⟩,rfl⟩,rfl⟩,rfl⟩,rfl⟩

theorem optionalTlv_head {tag other : UInt8} {field : Option Bytes} {rest : Bytes}
    (differ : tag ≠ other) (restHead : rest.head? ≠ some other) :
    (optionalTlv tag field ++ rest).head? ≠ some other := by
  cases field with
  | none => exact restHead
  | some content => exact fun same => differ (Option.some.inj same)

theorem readsWhole_trailing {α : Type} (value : α) :
    ReadsWhole (skipOptional 0x81 >>= fun _ => skipOptional 0x82 >>= fun _ =>
      skipOptional 0xa3 >>= fun _ => pure value) (fun result bytes =>
        ∃ issuerId subjectId extensions, result = value ∧ FieldFits issuerId ∧
          FieldFits subjectId ∧ FieldFits extensions ∧
          bytes = optionalTlv 0x81 issuerId ++ (optionalTlv 0x82 subjectId ++
            (optionalTlv 0xa3 extensions ++ []))) := by
  have third := @readsWhole_optional α 0xa3 _ _ (reads_pure value).whole (by
    rintro _ _ ⟨-,rfl⟩
    simp)
  have second := @readsWhole_optional α 0x82 _ _ third (by
    rintro _ _ ⟨_,_,_,⟨-,rfl⟩,rfl⟩
    exact optionalTlv_head (by decide) (by simp))
  have first := @readsWhole_optional α 0x81 _ _ second (by
    rintro _ _ ⟨_,_,_,⟨_,_,_,⟨-,rfl⟩,rfl⟩,rfl⟩
    exact optionalTlv_head (by decide) (optionalTlv_head (by decide) (by simp)))
  refine first.congr fun result bytes => ?_
  constructor
  · rintro ⟨issuerId,_,issuerFits,⟨subjectId,_,subjectFits,⟨extensions,_,extensionsFit,⟨rfl,rfl⟩,
      rfl⟩,rfl⟩,rfl⟩
    exact ⟨issuerId,subjectId,extensions,rfl,issuerFits,subjectFits,extensionsFit,rfl⟩
  · rintro ⟨issuerId,subjectId,extensions,rfl,issuerFits,subjectFits,extensionsFit,rfl⟩
    exact ⟨issuerId,_,issuerFits,⟨subjectId,_,subjectFits,⟨extensions,_,extensionsFit,⟨rfl,rfl⟩,
      rfl⟩,rfl⟩,rfl⟩

theorem readsWhole_tbs :
    ReadsWhole pemReadTbs (fun key bytes => ∃ f : TbsOuter, f.Fits ∧ bytes = f.encode ∧
      key = f.ranges) := by
  have reads : ReadsWhole pemReadTbs _ :=
    ReadsWhole.bind (reads_sliced reads_toSubject) fun before =>
      ReadsWhole.bind (reads_tlv 0x30) fun name => ReadsWhole.bind (reads_tlv 0x30) fun spki =>
        readsWhole_trailing
          { name := ⟨before.2.length,name.length⟩
            spki := ⟨before.2.length + name.length,spki.length⟩ : SubjectKey }
  refine reads.congr fun key bytes => ?_
  constructor
  · rintro ⟨⟨_,before⟩,_,_,⟨⟨version,serialNumber,signature,issuer,validity,versionFits,serialFits,
      signatureFits,issuerFits,validityFits,rfl⟩,rfl⟩,
      ⟨_,_,_,⟨subject,subjectFits,rfl,rfl⟩,⟨_,_,_,⟨info,infoFits,rfl,rfl⟩,
      ⟨issuerId,subjectId,extensions,rfl,issuerIdFits,subjectIdFits,extensionsFit,rfl⟩,rfl⟩,rfl⟩,
      rfl⟩
    refine ⟨⟨version,serialNumber,signature,issuer,validity,subject,info,issuerId,subjectId,
      extensions⟩,⟨versionFits,serialFits,signatureFits,issuerFits,validityFits,subjectFits,
      infoFits,issuerIdFits,subjectIdFits,extensionsFit⟩,?_,rfl⟩
    rw [append_nil]
    rfl
  · rintro ⟨f,fits,rfl,rfl⟩
    refine ⟨((), f.leading),f.leading,_,⟨⟨f.version,f.serialNumber,f.signature,f.issuer,f.validity,
      fits.version,fits.serialNumber,fits.signature,fits.issuer,fits.validity,rfl⟩,rfl⟩,⟨f.name,
      f.name,_,⟨f.subject,fits.subject,rfl,rfl⟩,⟨f.spki,f.spki,_,
      ⟨f.subjectPublicKeyInfo,fits.subjectPublicKeyInfo,rfl,rfl⟩,⟨f.issuerUniqueId,
      f.subjectUniqueId,f.extensions,rfl,fits.issuerUniqueId,fits.subjectUniqueId,fits.extensions,
      rfl⟩,rfl⟩,rfl⟩,?_⟩
    rw [append_nil]
    rfl

/-! ### The certificate -/

/-- A certificate's outer fields: the `TBSCertificate`, the algorithm and the signature. -/
structure CertificateOuter where
  tbs : TbsOuter
  signatureAlgorithm : Bytes
  signatureValue : Bytes

namespace CertificateOuter

variable (f : CertificateOuter)

/-- What follows the `TBSCertificate`. -/
def signed : Bytes := tlv 0x30 f.signatureAlgorithm ++ tlv 0x03 f.signatureValue

def body : Bytes := tlv 0x30 f.tbs.encode ++ f.signed

def encode : Bytes := tlv 0x30 f.body

/-- The octets in front of the `TBSCertificate`'s content. -/
def tbsHead : Bytes :=
  0x30 :: lengthOctets f.body.length ++ (0x30 :: lengthOctets f.tbs.encode.length)

def subjectKey : SubjectKey := f.tbs.ranges.shift f.tbsHead.length

structure Fits : Prop where
  tbs : f.tbs.Fits
  content : f.tbs.encode.length < 65536
  signatureAlgorithm : f.signatureAlgorithm.length < 65536
  signatureValue : f.signatureValue.length < 65536
  body : f.body.length < 65536

theorem body_eq : f.body =
    0x30 :: (lengthOctets f.tbs.encode.length ++ (f.tbs.encode ++ f.signed)) := by
  simp [body,tlv]

theorem encode_eq : f.encode = f.tbsHead ++ (f.tbs.encode ++ f.signed) := by
  simp [encode,tbsHead,tlv,body]

end CertificateOuter

theorem readsWhole_signedPart (tbsLen : Nat) :
    ReadsWhole (readSignedPart tbsLen) (fun tbs bytes => ∃ algorithm signature,
      tbs.length = tbsLen ∧ algorithm.length < 65536 ∧ signature.length < 65536 ∧
        bytes = tbs ++ (tlv 0x30 algorithm ++ tlv 0x03 signature)) := by
  have reads : Reads (readSignedPart tbsLen) _ := (reads_take tbsLen).bind fun tbs =>
    (reads_skip 0x30).bind fun _ => (reads_skip 0x03).map fun _ => tbs
  refine reads.whole.congr fun tbs bytes => ?_
  constructor
  · rintro ⟨taken,_,_,⟨rfl,length⟩,⟨_,_,_,⟨algorithm,algorithmFits,rfl⟩,
      ⟨_,⟨signature,signatureFits,rfl⟩,rfl⟩,rfl⟩,rfl⟩
    exact ⟨algorithm,signature,length,algorithmFits,signatureFits,rfl⟩
  · rintro ⟨algorithm,signature,length,algorithmFits,signatureFits,rfl⟩
    exact ⟨tbs,tbs,_,⟨rfl,length⟩,⟨(),_,_,⟨algorithm,algorithmFits,rfl⟩,
      ⟨(),⟨signature,signatureFits,rfl⟩,rfl⟩,rfl⟩,rfl⟩

theorem x509PemReadSubjectKey_encode {f : CertificateOuter} (fits : f.Fits) :
    x509PemReadSubjectKey f.encode = some f.subjectKey := by
  have filled : readFilling 0x30 (rbInit f.encode) = some ((), ⟨f.body,false⟩) :=
    readFilling_eq_some.mpr ⟨rfl,fits.body,rfl⟩
  have header : x509ReadHeader 0x30 ⟨f.body,false⟩ =
      some (f.tbs.encode.length, ⟨f.tbs.encode ++ f.signed,false⟩) := by
    refine x509ReadHeader_eq_some.mpr ⟨rfl,?_,fits.content,f.body_eq⟩
    simp
  have read := (readsWhole_signedPart f.tbs.encode.length (f.tbs.encode ++ f.signed)
    f.tbs.encode).mpr ⟨f.signatureAlgorithm,f.signatureValue,rfl,fits.signatureAlgorithm,
      fits.signatureValue,rfl⟩
  have ranges := (readsWhole_tbs f.tbs.encode f.tbs.ranges).mpr ⟨f.tbs,fits.tbs,rfl,rfl⟩
  have start : f.encode.length - (f.tbs.encode ++ f.signed).length = f.tbsHead.length := by
    rw [f.encode_eq,length_append]
    omega
  rw [x509PemReadSubjectKey,filled]
  dsimp only
  rw [header]
  dsimp only
  rw [read,rbLeft_live,start]
  dsimp only
  rw [ranges]
  rfl

theorem exists_fields {cert : Bytes} {key : SubjectKey}
    (returned : x509PemReadSubjectKey cert = some key) :
    ∃ f : CertificateOuter, f.Fits ∧ cert = f.encode := by
  unfold x509PemReadSubjectKey at returned
  rcases filled : readFilling 0x30 (rbInit cert) with _ | ⟨_,⟨content,err⟩⟩
  · rw [filled] at returned
    cases returned
  obtain ⟨live,small,rfl⟩ := readFilling_eq_some.mp filled
  cases live
  rw [filled] at returned
  dsimp only at returned small
  rcases header : x509ReadHeader 0x30 ⟨content,false⟩ with _ | ⟨tbsLen,⟨rest,err⟩⟩
  · rw [header] at returned
    cases returned
  obtain ⟨live,inside,short,rfl⟩ := x509ReadHeader_eq_some.mp header
  cases live
  rw [header] at returned
  dsimp only at returned inside
  rcases read : readWhole (readSignedPart tbsLen) rest with _ | tbs
  · rw [read] at returned
    cases returned
  obtain ⟨algorithm,signature,rfl,algorithmFits,signatureFits,rfl⟩ :=
    (readsWhole_signedPart _ _ _).mp read
  rw [read] at returned
  obtain ⟨ranges,readRanges,-⟩ := Option.map_eq_some_iff.mp returned
  obtain ⟨f,fits,rfl,-⟩ := (readsWhole_tbs _ _).mp readRanges
  have body := CertificateOuter.body_eq ⟨f,algorithm,signature⟩
  refine ⟨⟨f,algorithm,signature⟩,⟨fits,short,algorithmFits,signatureFits,?_⟩,?_⟩
  · rw [body]
    exact small
  · rw [CertificateOuter.encode,body]
    rfl

/-- A certificate reads exactly when its outer fields are these, and the ranges handed out are
those of its subject and its key. -/
theorem x509PemReadSubjectKey_eq_some {cert : Bytes} {key : SubjectKey} :
    x509PemReadSubjectKey cert = some key ↔
      ∃ f : CertificateOuter, f.Fits ∧ cert = f.encode ∧ key = f.subjectKey := by
  constructor
  · intro returned
    obtain ⟨f,fits,rfl⟩ := exists_fields returned
    rw [x509PemReadSubjectKey_encode fits] at returned
    exact ⟨f,fits,rfl,(Option.some.inj returned).symm⟩
  · rintro ⟨f,fits,rfl,rfl⟩
    exact x509PemReadSubjectKey_encode fits

theorem CertificateOuter.encode_split (f : CertificateOuter) :
    f.encode = (f.tbsHead ++ f.tbs.leading) ++
      (f.tbs.name ++ (f.tbs.spki ++ (f.tbs.trailing ++ f.signed))) := by
  simp [f.encode_eq,TbsOuter.encode]

theorem subjectKey_read (f : CertificateOuter) (front rest : Bytes) :
    (f.subjectKey.shift front.length).name.read (front ++ (f.encode ++ rest)) = f.tbs.name ∧
      (f.subjectKey.shift front.length).spki.read (front ++ (f.encode ++ rest)) = f.tbs.spki := by
  have nameAt := DerRange.read_piece (front ++ (f.tbsHead ++ f.tbs.leading)) f.tbs.name
    (f.tbs.spki ++ (f.tbs.trailing ++ f.signed) ++ rest)
  have spkiAt := DerRange.read_piece (front ++ (f.tbsHead ++ f.tbs.leading ++ f.tbs.name))
    f.tbs.spki (f.tbs.trailing ++ f.signed ++ rest)
  rw [f.encode_split]
  simp only [append_assoc,length_append] at nameAt spkiAt ⊢
  exact ⟨nameAt,spkiAt⟩

end Chapulin
