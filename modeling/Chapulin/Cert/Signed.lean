/-
The bytes a certificate's signature is checked over.

Neither reader keeps the header of the TBSCertificate: the walkers of `x509.c` and
`webpki_cert.c` keep its content, and the check writes a header in front of it
again.  The readers accept the shortest length octets only and those are the ones
the check writes, so the bytes are the transmitted ones.
-/

import Chapulin.Cert.Profile
import Chapulin.Cert.WebpkiPath

namespace Chapulin

open Lib Lib.Der List

variable {isCa : Bool} {cert tbs : Bytes} {alert : Nat} {next : Rbuf}

/-- The transmitted TBSCertificate: the first element inside the one that is the
certificate, whatever definite lengths the two are written with. -/
def TransmittedTbs (cert encoding : Bytes) : Prop :=
  ∃ content body rest, Element 0x30 body cert ∧ body = encoding ++ rest ∧
    Element 0x30 content encoding

/-- A certificate carries one TBSCertificate. -/
theorem TransmittedTbs.unique {cert encoding other : Bytes}
    (transmitted : TransmittedTbs cert encoding)
    (transmittedToo : TransmittedTbs cert other) : encoding = other := by
  obtain ⟨content,body,rest,whole,rfl,inner⟩ := transmitted
  obtain ⟨otherContent,_,otherRest,otherWhole,rfl,otherInner⟩ := transmittedToo
  obtain ⟨-,same,-⟩ := @Element.unique _ _ _ _ _ _ [] [] whole otherWhole rfl
  exact (inner.unique otherInner same).2.2.1

theorem transmittedTbs_tlv {rest : Bytes} (small : (tlv 0x30 tbs ++ rest).length < 65536) :
    TransmittedTbs (tlv 0x30 (tlv 0x30 tbs ++ rest)) (tlv 0x30 tbs) := by
  have inner := tlv_length_lt 0x30 tbs
  rw [length_append] at small
  refine ⟨tbs,_,rest,element_tlv 0x30 ?_,rfl,element_tlv 0x30 (by omega)⟩
  rw [length_append]
  exact small

/-! ### Headers -/

theorem x509ReadHeader_emitted {tag : UInt8} {len : Nat} {rest : Bytes} (small : len < 65536)
    (fits : len ≤ rest.length) (other : UInt8) (n : Nat) (next : Rbuf) :
    x509ReadHeader other ⟨x509EmitHeader tag len ++ rest,false⟩ = some (n, next) ↔
      other = tag ∧ n = len ∧ next = ⟨rest,false⟩ := by
  rw [x509EmitHeader_eq]
  constructor
  · intro read
    obtain ⟨live,-,otherSmall,same⟩ := x509ReadHeader_eq_some.mp read
    obtain ⟨rfl,behind⟩ := cons_eq_cons.mp same
    obtain ⟨rfl,-,rfl⟩ := (length_lengthOctets small).unique (length_lengthOctets otherSmall) behind
    rcases next with ⟨rest,err⟩
    cases live
    exact ⟨rfl,rfl,rfl⟩
  · rintro ⟨rfl,rfl,rfl⟩
    exact x509ReadHeader_eq_some.mpr ⟨rfl,fits,small,rfl⟩

theorem x509ReadHeader_canonical {tag : UInt8} {bytes : Bytes} {len : Nat}
    (read : x509ReadHeader tag ⟨bytes,false⟩ = some (len, next)) :
    len < 65536 ∧ bytes = x509EmitHeader tag len ++ next.rest := by
  obtain ⟨-,-,small,rfl⟩ := x509ReadHeader_eq_some.mp read
  rw [x509EmitHeader_eq]
  exact ⟨small,rfl⟩

/-! ### The web PKI reader -/

theorem readCertificateHead_eq_some {certMax : Nat} :
    readCertificateHead certMax ⟨cert,false⟩ = some (tbs, next) ↔
      cert.length ≤ certMax ∧ next.err = false ∧ (tlv 0x30 tbs ++ next.rest).length < 65536 ∧
        cert = tlv 0x30 (tlv 0x30 tbs ++ next.rest) := by
  unfold readCertificateHead
  by_cases long : rbLeft ⟨cert,false⟩ > certMax
  · rw [if_pos long]
    constructor
    · intro refused
      cases refused
    · rintro ⟨short,-⟩
      exact absurd short (Nat.not_le.mpr long)
  · rw [if_neg long,bind_eq_some]
    constructor
    · rintro ⟨_,⟨middle,err⟩,filled,taken⟩
      obtain ⟨live,small,rfl⟩ := readFilling_eq_some.mp filled
      cases live
      obtain ⟨nextLive,_,⟨-,rfl⟩,rfl⟩ := (reads_element 0x30 _ _ _).mp taken
      exact ⟨Nat.le_of_not_lt long,nextLive,small,rfl⟩
    · rintro ⟨-,live,small,rfl⟩
      have inner := tlv_length_lt 0x30 tbs
      rw [length_append] at small
      refine ⟨(),⟨tlv 0x30 tbs ++ next.rest,false⟩,?_,?_⟩
      · refine readFilling_eq_some.mpr ⟨rfl,?_,rfl⟩
        rw [length_append]
        exact small
      · exact (reads_element 0x30 _ _ _).mpr ⟨live,_,⟨by omega,rfl⟩,rfl⟩

theorem readTbsKey_tbs {r : Rbuf} {keyed : WebpkiKeyed × Bytes}
    (read : (readTbsKey tbs r alert).1 = .ok (keyed, next)) : keyed.1.tbs = tbs := by
  unfold readTbsKey at read
  obtain ⟨_,_,-,read⟩ := fst_readerBind_eq_ok.mp read
  obtain ⟨_,_,-,read⟩ := fst_readerBind_eq_ok.mp read
  obtain ⟨_,_,-,read⟩ := fst_readerBind_eq_ok.mp read
  obtain ⟨_,_,-,read⟩ := fst_readerBind_eq_ok.mp read
  obtain ⟨_,_,-,read⟩ := fst_readerBind_eq_ok.mp read
  obtain ⟨_,_,-,read⟩ := fst_readerBind_eq_ok.mp read
  obtain ⟨_,_,-,read⟩ := fst_readerBind_eq_ok.mp read
  cases read
  rfl

theorem judgeWhole_value {α : Type} {read : CertReader α} {bytes : Bytes} {value : α}
    (judged : (judgeWhole read bytes alert).1 = .ok value) :
    ∃ next, (read (rbInit bytes) alert).1 = .ok (value, next) := by
  obtain ⟨⟨found,next⟩,returned,ended⟩ := fst_bind_eq_ok.mp judged
  dsimp only at ended
  split at ended
  · cases ended
  · cases ended
    exact ⟨next,returned⟩

theorem webpkiReadTbs_tbs {found : (WebpkiKeyed × Bytes) × WebpkiExtensions}
    (read : (webpkiReadTbs isCa tbs alert).1 = .ok found) : found.1.1.tbs = tbs := by
  obtain ⟨_,read⟩ := judgeWhole_value read
  obtain ⟨keyed,_,keyedRead,read⟩ := fst_readerBind_eq_ok.mp read
  obtain ⟨_,_,-,read⟩ := fst_readerBind_eq_ok.mp read
  obtain ⟨_,_,-,read⟩ := fst_readerBind_eq_ok.mp read
  cases read
  exact readTbsKey_tbs keyedRead

/-- A certificate the web PKI reader accepts is the canonical element around that of
the TBSCertificate. -/
theorem webpkiParseCertificate_shape {parsed : WebpkiCert}
    (accepted : (webpkiParseCertificate isCa cert alert).1 = .ok parsed) :
    cert.length ≤ webpkiCertMax ∧ ∃ rest, (tlv 0x30 parsed.tbs ++ rest).length < 65536 ∧
      cert = tlv 0x30 (tlv 0x30 parsed.tbs ++ rest) := by
  obtain ⟨_,read⟩ := judgeWhole_value accepted
  obtain ⟨tbs,middle,headRead,read⟩ := fst_readerBind_eq_ok.mp read
  obtain ⟨short,-,small,spelled⟩ :=
    readCertificateHead_eq_some.mp (fst_quietly_eq_ok.mp headRead)
  obtain ⟨found,_,tbsRead,read⟩ := fst_readerBind_eq_ok.mp read
  obtain ⟨_,_,-,read⟩ := fst_readerBind_eq_ok.mp read
  obtain ⟨sig,_,-,read⟩ := fst_readerBind_eq_ok.mp read
  obtain ⟨lifted,judged,same⟩ := fst_bind_eq_ok.mp tbsRead
  cases same
  have content := webpkiReadTbs_tbs judged
  split at read
  · cases read
  · cases read
    rw [← content] at small spelled
    exact ⟨short,middle.rest,small,spelled⟩

/-- The check of a web PKI signature, as a function of the message that was signed. -/
def webpkiChecks (c : CertCrypto) (sigalg : WebpkiSigalg) (message sig : Bytes)
    (signer : WebpkiSpki) : Bool :=
  sigalg.signerMatches signer &&
    match signer.alg with
    | .rsa => c.rsaPkcs1Verify signer.key (c.hash sigalg.digestLen message) sig
    | .p256 => c.p256EcdsaVerify signer.key ((c.hash sigalg.digestLen message).take 32) sig
    | .p384 =>
      c.p384EcdsaVerify signer.key
        (replicate (48 - sigalg.digestLen) 0 ++ c.hash sigalg.digestLen message) sig

theorem webpkiVerify_eq {c : CertCrypto} {cert : WebpkiCert}
    (short : cert.tbs.length ≤ webpkiCertMax) (signer : WebpkiSpki) :
    webpkiVerify c cert signer =
      webpkiChecks c cert.sigalg (tlv 0x30 cert.tbs) cert.sig signer := by
  have within : decide (cert.tbs.length > webpkiCertMax) = false := by
    rw [decide_eq_false_iff_not]
    exact Nat.not_lt.mpr short
  rw [webpkiVerify,webpkiChecks,x509EmitHeader_append,within,Bool.or_false]
  cases cert.sigalg.signerMatches signer with
  | false => rfl
  | true => rfl

/-! ### Both readers -/

inductive ReaderAccepts (cert : Bytes) : Prop where
  | pinned {b : X509Build} {c : CertCrypto} {isCa leaf : Bool} {alert : Nat}
      {parsed : ParsedCertificate}
        (accepted : (parseCertificate b c isCa leaf cert alert).1 = .ok parsed)
  | webpki {isCa : Bool} {alert : Nat} {parsed : WebpkiCert}
      (accepted : (webpkiParseCertificate isCa cert alert).1 = .ok parsed)

theorem pinned_transmitted {b : X509Build} {c : CertCrypto} {leaf : Bool}
    {parsed : ParsedCertificate}
    (accepted : (parseCertificate b c isCa leaf cert alert).1 = .ok parsed) :
    ∃ tbs, TransmittedTbs cert (tlv 0x30 tbs) ∧ tbs.length < 65536 ∧
      parsed.signedPart = signedPart b c (tlv 0x30 tbs) := by
  obtain ⟨f,-,small,rfl,rfl⟩ := parseCertificate_eq_ok.mp accepted
  have inner := tlv_length_lt 0x30 (f.tbs b.pin)
  have transmitted := transmittedTbs_tlv small
  rw [CertFields.body,length_append] at small
  exact ⟨f.tbs b.pin,transmitted,by omega,rfl⟩

theorem webpki_transmitted {parsed : WebpkiCert}
    (accepted : (webpkiParseCertificate isCa cert alert).1 = .ok parsed) :
    TransmittedTbs cert (tlv 0x30 parsed.tbs) ∧ parsed.tbs.length ≤ webpkiCertMax := by
  obtain ⟨short,rest,small,rfl⟩ := webpkiParseCertificate_shape accepted
  have inner := tlv_length_lt 0x30 parsed.tbs
  have outer := tlv_length_lt 0x30 (tlv 0x30 parsed.tbs ++ rest)
  rw [length_append] at outer
  exact ⟨transmittedTbs_tlv small,by omega⟩

/-- The transmitted TBSCertificate of an accepted certificate is canonical: its content
has no other encoding that a reader accepts. -/
theorem ReaderAccepts.canonical {encoding content : Bytes} (accepts : ReaderAccepts cert)
    (transmitted : TransmittedTbs cert encoding) (element : Element 0x30 content encoding) :
    encoding = tlv 0x30 content := by
  have tlvOf {tbs : Bytes} (sent : TransmittedTbs cert (tlv 0x30 tbs))
      (small : tbs.length < 65536) :
      encoding = tlv 0x30 content := by
    cases transmitted.unique sent
    obtain ⟨-,rfl,-⟩ := @Element.unique _ _ _ _ _ _ [] [] element (element_tlv 0x30 small) rfl
    rfl
  cases accepts with
  | pinned accepted =>
    obtain ⟨tbs,sent,small,-⟩ := pinned_transmitted accepted
    exact tlvOf sent small
  | webpki accepted =>
    obtain ⟨sent,short⟩ := webpki_transmitted accepted
    exact tlvOf sent (Nat.lt_of_le_of_lt short (by decide))

/-- The signature of an accepted certificate is checked over the transmitted
TBSCertificate, header included; its content has no second encoding that is accepted;
and the headers that are read are the headers that are written. -/
theorem signed_bytes_transmitted :
    (∀ (b : X509Build) (c : CertCrypto) (isCa leaf : Bool) (cert : Bytes) (alert : Nat)
        (parsed : ParsedCertificate), (parseCertificate b c isCa leaf cert alert).1 = .ok parsed →
      ∃ encoding, TransmittedTbs cert encoding ∧ parsed.signedPart = signedPart b c encoding) ∧
    (∀ (c : CertCrypto) (isCa : Bool) (cert : Bytes) (alert : Nat) (parsed : WebpkiCert),
        (webpkiParseCertificate isCa cert alert).1 = .ok parsed →
      ∃ encoding, TransmittedTbs cert encoding ∧ ∀ signer,
        webpkiVerify c parsed signer = webpkiChecks c parsed.sigalg encoding parsed.sig signer) ∧
    (∀ cert other encoding otherEncoding content, ReaderAccepts cert → ReaderAccepts other →
      TransmittedTbs cert encoding → TransmittedTbs other otherEncoding →
      Element 0x30 content encoding → Element 0x30 content otherEncoding →
      encoding = otherEncoding) ∧
    (∀ (tag : UInt8) (len : Nat) (rest : Bytes), len < 65536 → len ≤ rest.length →
      ∀ other n next, x509ReadHeader other ⟨x509EmitHeader tag len ++ rest,false⟩ = some (n, next) ↔
        other = tag ∧ n = len ∧ next = ⟨rest,false⟩) ∧
    (∀ (tag : UInt8) (bytes : Bytes) (len : Nat) (next : Rbuf),
      x509ReadHeader tag ⟨bytes,false⟩ = some (len, next) →
      len < 65536 ∧ bytes = x509EmitHeader tag len ++ next.rest) := by
  refine ⟨?_,?_,?_,?_,?_⟩
  · intro b c isCa leaf cert alert parsed accepted
    obtain ⟨tbs,transmitted,-,signed⟩ := pinned_transmitted accepted
    exact ⟨_,transmitted,signed⟩
  · intro c isCa cert alert parsed accepted
    obtain ⟨transmitted,short⟩ := webpki_transmitted accepted
    exact ⟨_,transmitted,webpkiVerify_eq short⟩
  · intro cert other encoding otherEncoding content accepts otherAccepts sent otherSent element
      otherElement
    rw [accepts.canonical sent element,otherAccepts.canonical otherSent otherElement]
  · intro tag len rest small fits
    exact x509ReadHeader_emitted small fits
  · intro tag bytes len next read
    exact x509ReadHeader_canonical read

def samplePinnedLeaf : Bytes :=
  tlv 0x30 (tlv 0x30 (versionV3 ++ tlv 0x02 [1] ++ sampleSigalg ++ tlv 0x30 [] ++
      tlv 0x30 (sampleTime 0x35 ++ sampleTime 0x39) ++ tlv 0x30 [] ++ sampleSpki ++
      tlv 0xa3 (tlv 0x30 (sampleCertExtension oidKeyUsage (tlv 0x03 [7,0x80]) ++
        sampleCertExtension oidExtKeyUsage ekuServerAuth))) ++
    sampleSigalg ++ tlv 0x03 [0,1])

def samplePinnedBuild : X509Build := ⟨.ecdsa,512,by decide⟩

theorem exists_ok {ε α : Type} {result : Except ε α} (returned : result.toOption.isSome = true) :
    ∃ value, result = .ok value := by
  cases result with
  | error code => cases returned
  | ok value => exact ⟨value,rfl⟩

theorem samplePinnedLeaf_accepted :
    ∃ parsed, (parseCertificate samplePinnedBuild sampleVerifiers false true samplePinnedLeaf 0).1 =
      .ok parsed :=
  exists_ok (by decide +kernel)

theorem sampleLeaf_parsed : ∃ parsed, (webpkiParseCertificate false sampleLeaf 0).1 = .ok parsed :=
  exists_ok (by decide +kernel)

theorem signed_bytes_transmitted_sample :
    (∃ encoding, TransmittedTbs samplePinnedLeaf encoding) ∧
    (∃ encoding, TransmittedTbs sampleLeaf encoding) ∧
    x509ReadHeader 0x30 ⟨x509EmitHeader 0x30 1 ++ [7],false⟩ = some (1, ⟨[7],false⟩) := by
  obtain ⟨pinned,webpki,-,written,-⟩ := signed_bytes_transmitted
  refine ⟨?_,?_,?_⟩
  · obtain ⟨parsed,accepted⟩ := samplePinnedLeaf_accepted
    obtain ⟨encoding,transmitted,-⟩ := pinned _ _ _ _ _ _ _ accepted
    exact ⟨encoding,transmitted⟩
  · obtain ⟨parsed,accepted⟩ := sampleLeaf_parsed
    obtain ⟨encoding,transmitted,-⟩ := webpki sampleVerifiers _ _ _ _ accepted
    exact ⟨encoding,transmitted⟩
  · exact (written 0x30 1 [7] (by decide) (by decide) 0x30 1 _).mpr ⟨rfl,rfl,rfl⟩

end Chapulin
