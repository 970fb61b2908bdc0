/-
The web PKI trust mode: extensions (`webpki_ext.c`), one certificate
(`webpki_cert.c`), the walk from a leaf to a trust anchor (`webpki.c`) and the pins
on public keys (`webpki_pin.c`).
-/

import Chapulin.Cert.WebpkiFields
import Chapulin.Cert.X509

namespace Chapulin

open Lib Alert

def webpkiCertMax : Nat := 3072

def webpkiChainMax : Nat := 3

def webpkiFlightEntries : Nat := 4

def webpkiExtCountMax : Nat := 16

def webpkiExtTlvMax : Nat := 1024

/-! ### Extensions -/

inductive WebpkiExt where
  | keyUsage | extKeyUsage | basicConstraints | san
  deriving DecidableEq, Repr

def oidSubjectAltName : Bytes := [0x55,0x1d,0x11]

def oidServerAuth : Bytes := [0x2b,0x06,0x01,0x05,0x05,0x07,0x03,0x01]

def extensionBit (oid : Bytes) : Option WebpkiExt :=
  if oid = oidKeyUsage then some .keyUsage
  else if oid = oidExtKeyUsage then some .extKeyUsage
  else if oid = oidBasicConstraints then some .basicConstraints
  else if oid = oidSubjectAltName then some .san
  else none

/-- What the walk over the extensions records: the ones seen, the constraints of an
authority and the names of a host. -/
structure WebpkiExtensions where
  seen : List WebpkiExt
  isCa : Bool
  /-- None for the -1 of an absent constraint. -/
  pathLen : Option Nat
  san : Bytes
  deriving DecidableEq, Repr

/-- `read_purpose`: whether the purpose is to authenticate a server. -/
def readPurpose : DerReader Bool := do
  let oidLen ← x509ReadHeader 0x06
  if oidLen = 0 then failure
  else
    let oid ← rbTake oidLen
    pure (oid == oidServerAuth)

def readExtKeyUsage (value : Bytes) : Option Bool :=
  let purposes := readWhole (do
    readExtensionsHead
    readMany readPurpose) value
  purposes.map (·.any id)

def readPathLen : DerReader Nat := do
  let len ← x509ReadHeader 0x02
  if len = 0 ∨ len > 2 then failure
  else
    let c ← rbTake len
    let first := (c.getD 0 0).toNat
    let second := (c.getD 1 0).toNat
    if first ≥ 0x80 then failure
    else if len = 1 then pure first
    else if first = 0 ∧ second < 0x80 then failure
    else pure (first * 256 + second)

/-- The optional `cA`, which only its tag announces. -/
def readCa : DerReader Bool := fun v =>
  if decide (rbLeft v > 0) && (rbU8 v).1 == 0x01 then
    match x509ReadExact [0x01,0x01,0xff] v with
    | none => none
    | some (_, v) => some (true, v)
  else some (false, v)

/-- The optional `pathLenConstraint`, which stands where anything is left. -/
def readPathLenConstraint : DerReader (Option Nat) := fun v =>
  if rbLeft v > 0 then
    match readPathLen v with
    | none => none
    | some (pathLen, v) => some (some pathLen, v)
  else some (none, v)

def readBasicConstraints (value : Bytes) : Option (Bool × Option Nat) :=
  readWhole (do
    readFilling 0x30
    let ca ← readCa
    let pathLen ← readPathLenConstraint
    pure (ca, pathLen)) value

def judgeBasicConstraints (ext : X509Extension) (isCa : Bool) (out : WebpkiExtensions) :
    Judge WebpkiExtensions :=
  match readBasicConstraints ext.value with
  | none => Proc.stop .eproto
  | some (ca, pathLen) =>
    if ca != isCa || (isCa && !ext.critical) || (!ca && pathLen.isSome) then offProfile
    else pure { out with isCa := ca, pathLen := pathLen }

def judgeExtension (ext : X509Extension) (known : WebpkiExt) (isCa : Bool)
    (out : WebpkiExtensions) : Judge WebpkiExtensions :=
  match known with
  | .keyUsage =>
    if x509ReadKeyusage ext.value (if isCa then 0x04 else 0x80) then pure out else offProfile
  | .extKeyUsage =>
    if isCa then pure out
    else
      match readExtKeyUsage ext.value with
      | none => Proc.stop .eproto
      | some serverAuth => if serverAuth then pure out else offProfile
  | .basicConstraints => judgeBasicConstraints ext isCa out
  | .san => pure { out with san := ext.value }

def readOneExtension (isCa : Bool) (out : WebpkiExtensions) : CertReader WebpkiExtensions := do
  let ext ← quietly (x509ReadExtension webpkiExtTlvMax)
  match extensionBit ext.oid with
  | none => if ext.critical then fun _ => offProfile else pure out
  | some known =>
    if known ∈ out.seen then fun _ => offProfile
    else judgeExtension ext known isCa { out with seen := known :: out.seen }

/-- The loop of `webpki_read_extensions`; `room` is what the count cap still admits. -/
def readExtensionList (isCa : Bool) (room : Nat) (out : WebpkiExtensions) :
    CertReader WebpkiExtensions := fun list =>
  if rbLeft list = 0 then Proc.ret (out, list)
  else
    match room with
    | 0 => Proc.stop .eproto
    | room + 1 => do
        let (out, list) ← readOneExtension isCa out list
        readExtensionList isCa room out list

/-- `LEAF_REQUIRED` and `ISSUER_REQUIRED`. -/
def extensionsRequired (isCa : Bool) : List WebpkiExt :=
  if isCa then [.keyUsage,.basicConstraints] else [.keyUsage,.extKeyUsage,.san]

/-- `webpki_read_extensions` on what the wrapper holds. -/
def judgeExtensions (isCa : Bool) (wrap : Bytes) : Judge WebpkiExtensions := do
  let (_, list) ← quietly readExtensionsHead (rbInit wrap)
  let (out, _) ← readExtensionList isCa webpkiExtCountMax
    { seen := [], isCa := false, pathLen := none, san := [] } list
  if (extensionsRequired isCa).all (· ∈ out.seen) then pure out else offProfile

def webpkiReadExtensions (isCa : Bool) : CertReader WebpkiExtensions := do
  let wrap ← quietly (readElement 0xa3)
  judgeExtensions isCa wrap

/-! ### One certificate -/

structure WebpkiKeyed where
  /-- The content of the TBSCertificate. -/
  tbs : Bytes
  /-- Whole names, header included. -/
  issuer : Bytes
  subject : Bytes
  notBefore : Nat
  notAfter : Nat
  spki : WebpkiSpki
  /-- The whole SubjectPublicKeyInfo, which a pin hashes. -/
  spkiTlv : Bytes
  sigalg : WebpkiSigalg
  deriving DecidableEq, Repr

structure WebpkiCert extends WebpkiKeyed, WebpkiExtensions where
  sig : Bytes
  deriving DecidableEq, Repr

def readSliced {α : Type} (read : DerReader α) : DerReader (α × Bytes) := fun start =>
  match read start with
  | none => none
  | some (value, r) =>
    match rbTake (rbLeft start - rbLeft r) start with
    | none => none
    | some (slice, _) => some ((value, slice), r)

/-- A sliced reader also returns the bytes it read. -/
theorem reads_sliced {α : Type} {read : DerReader α} {grammar : α → Bytes → Prop}
    (reads : Reads read grammar) :
    Reads (readSliced read) (fun sliced front => grammar sliced.1 front ∧ sliced.2 = front) := by
  -- the slice is what stands between the copy of the buffer and the buffer read on
  have slice : ∀ front rest : Bytes,
      rbTake (rbLeft ⟨front ++ rest,false⟩ - rbLeft ⟨rest,false⟩) ⟨front ++ rest,false⟩ =
        some (front, ⟨rest,false⟩) := by
    intro front rest
    rw [rbLeft_live,rbLeft_live,List.length_append,Nat.add_sub_cancel]
    exact (reads_take front.length (front ++ rest) front ⟨rest,false⟩).mpr
      ⟨rfl,front,⟨rfl,rfl⟩,rfl⟩
  intro bytes sliced next
  unfold readSliced
  constructor
  · intro returned
    rcases took : read ⟨bytes,false⟩ with _ | ⟨value,⟨rest,err⟩⟩
    · rw [took] at returned
      cases returned
    obtain ⟨live,front,inGrammar,rfl⟩ := (reads _ _ _).mp took
    cases live
    simp only [took,slice] at returned
    cases returned
    exact ⟨rfl,front,⟨inGrammar,rfl⟩,rfl⟩
  · rcases sliced with ⟨value,part⟩
    rcases next with ⟨rest,err⟩
    rintro ⟨live,front,⟨inGrammar,same⟩,rfl⟩
    cases live
    dsimp only at inGrammar same ⊢
    subst same
    have took := (reads (part ++ rest) value ⟨rest,false⟩).mpr ⟨rfl,part,inGrammar,rfl⟩
    simp only [took,slice]

def readName : DerReader Bytes := do
  let name ← readSliced (x509Skip 0x30)
  pure name.2

theorem reads_element_slice (tag : UInt8) :
    Reads (readSliced (x509Skip tag) >>= fun element => pure element.2) (fun bytes front =>
      ∃ content : Bytes, content.length < 65536 ∧ front = Der.tlv tag content ∧ bytes = front) := by
  refine ((reads_sliced (reads_skip tag)).map Prod.snd).congr fun bytes front => ?_
  constructor
  · rintro ⟨⟨_,slice⟩,⟨⟨content,small,rfl⟩,same⟩,rfl⟩
    exact ⟨content,small,rfl,same⟩
  · rintro ⟨content,small,rfl,rfl⟩
    exact ⟨((), Der.tlv tag content),⟨⟨content,small,rfl⟩,rfl⟩,rfl⟩

/-- `read_validity` of `webpki_cert.c`. -/
def readDates : DerReader (Nat × Nat) := do
  let validity ← readElement 0x30
  let dates ← readWhole (do
    let notBefore ← webpkiReadTime
    let notAfter ← webpkiReadTime
    pure (notBefore, notAfter)) validity
  if dates.1 ≤ dates.2 then pure dates else failure

/-- `read_tbs_key`: the fields through the key, and the bytes of the signature
AlgorithmIdentifier. -/
def readTbsKey (tbs : Bytes) : CertReader (WebpkiKeyed × Bytes) := do
  quietly (x509ReadExact versionV3)
  quietly x509ReadSerial
  let (sigalg, sigalgTlv) ← orOffProfile (readSliced webpkiReadSigalg)
  let issuer ← quietly readName
  let (notBefore, notAfter) ← quietly readDates
  let subject ← quietly readName
  let (spki, spkiTlv) ← orOffProfile (readSliced webpkiReadSpki)
  let keyed : WebpkiKeyed :=
    ⟨tbs,issuer,subject,notBefore,notAfter,spki,spkiTlv,sigalg⟩
  pure (keyed, sigalgTlv)

def uniqueIdFollows (t : Rbuf) : Bool :=
  let (tag, next) := rbU8 t
  !next.err && (tag == 0x81 || tag == 0x82)

def refuseUniqueId : CertReader Unit := fun t =>
  if uniqueIdFollows t then offProfile else Proc.ret ((), t)

def webpkiReadTbs (isCa : Bool) (tbs : Bytes) : Judge ((WebpkiKeyed × Bytes) × WebpkiExtensions) :=
  judgeWhole (do
    let keyed ← readTbsKey tbs
    refuseUniqueId
    let extensions ← webpkiReadExtensions isCa
    pure (keyed, extensions)) tbs

/-- `read_certificate_head`: the content of the TBSCertificate. -/
def readCertificateHead (certMax : Nat) : DerReader Bytes := fun r =>
  if rbLeft r > certMax then none
  else
    (do
      readFilling 0x30
      readElement 0x30 : DerReader Bytes) r

def webpkiParseCertificate (isCa : Bool) (cert : Bytes) : Judge WebpkiCert :=
  judgeWhole (do
    let tbs ← quietly (readCertificateHead webpkiCertMax)
    let ((keyed, sigalgTlv), extensions) ← (webpkiReadTbs isCa tbs : Judge _)
    orOffProfile (x509ReadExact sigalgTlv)
    let sig ← quietly x509ReadBitstring
    if sig.length = 0 then fun _ => Proc.stop .eproto
    else pure { toWebpkiKeyed := keyed, toWebpkiExtensions := extensions, sig := sig }) cert

section Walk

variable (c : CertCrypto)

/-- `webpki_verify`: the digest of the header written anew and the content, cut to the
curve's length or padded to it. -/
def webpkiVerify (cert : WebpkiCert) (signer : WebpkiSpki) : Bool :=
  if !cert.sigalg.signerMatches signer || decide (cert.tbs.length > webpkiCertMax) then false
  else
    let digest := c.hash cert.sigalg.digestLen (x509EmitHeader 0x30 cert.tbs.length ++ cert.tbs)
    match signer.alg with
    | .rsa => c.rsaPkcs1Verify signer.key digest cert.sig
    | .p256 => c.p256EcdsaVerify signer.key (digest.take 32) cert.sig
    | .p384 =>
      c.p384EcdsaVerify signer.key
        (List.replicate (48 - cert.sigalg.digestLen) 0 ++ digest) cert.sig

/-! ### The walk -/

def webpkiReadEntry (certMax : Nat) : CertReader Bytes := fun r =>
  let (len, r) := rbU24 r
  if r.err || decide (len = 0) || decide (len > certMax) then
    refuseWith .eproto badCertificate
  else
    let (bytes, r) := rbBytes len r
    let (extensionsLen, r) := rbU16 r
    match bytes with
    | none => refuseWith .eproto badCertificate
    | some bytes =>
      if r.err then refuseWith .eproto badCertificate
      else if extensionsLen ≠ 0 then refuseWith .eproto unsupportedExtension
      else fun _ => (.ok (bytes, r), badCertificate)

/-- The loop of `read_entries`; `room` is the number of entries still admitted. -/
def readEntryList (room : Nat) (r : Rbuf) : Judge (List Bytes) :=
  if rbLeft r = 0 then pure []
  else
    match room with
    | 0 => Proc.stop .eproto
    | room + 1 => do
        let (cert, r) ← webpkiReadEntry webpkiCertMax r
        let entries ← readEntryList room r
        pure (cert :: entries)

def readEntries (list : Bytes) : Judge (List Bytes) := do
  fun _ => (.ok (), badCertificate)
  let entries ← readEntryList webpkiFlightEntries (rbInit list)
  if entries.length > 0 then pure entries else Proc.stop .eproto

def validityCovers (cert : WebpkiCert) (now : Nat) : Bool :=
  decide (cert.notBefore ≤ now) && decide (now ≤ cert.notAfter)

/-- `read_anchor_key` and `read_whole_spki`: a key that fills its string. -/
def readWholeSpki (spki : Bytes) : Option WebpkiSpki := readWhole webpkiReadSpki spki

def anchorAccepts (cert : WebpkiCert) (anchor : Bytes × Bytes) : Bool :=
  anchor.1 == cert.issuer && (readWholeSpki anchor.2).any (webpkiVerify c cert)

/-- `anchor_verifies`: the index of the first such anchor. -/
def anchorVerifies (cfg : Cfg) (cert : WebpkiCert) : Option Nat :=
  cfg.anchors.findIdx? (anchorAccepts c cert)

def selfIssued (cert : WebpkiCert) : Bool := cert.subject == cert.issuer

def pathLenAdmits (issuer : WebpkiCert) (below : Nat) : Bool :=
  issuer.pathLen.all fun pathLen => decide (below ≤ pathLen)

def readIssuer (entry : Bytes) (below now : Nat) (cert : WebpkiCert) : Judge WebpkiCert := do
  let issuer ← webpkiParseCertificate true entry
  if !validityCovers issuer now then refuseWith .eauth certificateExpired
  else if issuer.subject ≠ cert.issuer then refuseWith .eproto unsupportedCertificate
  else if !pathLenAdmits issuer below then refuseWith .eproto unsupportedCertificate
  else if !webpkiVerify c cert issuer.spki then refuseWith .eauth badCertificate
  else pure issuer

def readLeaf (entry : Bytes) (cfg : Cfg) (now : Nat) : Judge WebpkiCert := do
  let leaf ← webpkiParseCertificate false entry
  if !validityCovers leaf now then refuseWith .eauth certificateExpired
  else if !webpkiMatchSan leaf.san cfg.hostname then refuseWith .eauth badCertificate
  else pure leaf

structure WebpkiLeafInfo where
  spki : WebpkiSpki
  pathEntries : Nat
  anchorIndex : Nat
  deriving DecidableEq, Repr

/-- The loop of `webpki_verify_chain` from the certificate in hand: `read` certificates
are read, `below` of them are issuers that are not self-issued, and `entries` are the
ones behind. -/
def walkIssuers (cfg : Cfg) (now : Nat) (leafKey : WebpkiSpki) :
    (entries : List Bytes) → (read below : Nat) → WebpkiCert → Judge WebpkiLeafInfo
  | entries, read, below, cert =>
    match anchorVerifies c cfg cert with
    | some anchor => pure { spki := leafKey, pathEntries := read, anchorIndex := anchor }
    | none =>
      if read = webpkiChainMax then refuseWith .eauth unknownCa
      else
        match entries with
        | [] => refuseWith .eauth unknownCa
        | entry :: entries => do
            let issuer ← readIssuer c entry below now cert
            walkIssuers cfg now leafKey entries (read + 1)
              (below + if selfIssued issuer then 0 else 1) issuer

def webpkiVerifyChain (list : Bytes) (cfg : Cfg) (nowSeconds : Nat) : Judge WebpkiLeafInfo := do
  let entries ← readEntries list
  let now := webpkiPackSeconds nowSeconds
  let leaf ← readLeaf (entries.headD []) cfg now
  walkIssuers c cfg now leaf.spki entries.tail 1 0 leaf

/-! ### Pins -/

def webpkiSpkiPinned (cfg : Cfg) (spki : Bytes) : Bool :=
  cfg.spkiPins.any (· == c.hash sha256Len spki)

def certificatePinned (cfg : Cfg) (index : Nat) (cert : Bytes) : Bool :=
  match (webpkiParseCertificate (decide (index ≠ 0)) cert badCertificate).1 with
  | .error _ => false
  | .ok parsed => webpkiSpkiPinned c cfg parsed.spkiTlv

/-- The loop of `webpki_path_pinned` from entry `index`: whether a pin names one of the
next `count` keys, none where an entry is not framed. -/
def entriesPinned (cfg : Cfg) (index : Nat) : (count : Nat) → Rbuf → Option Bool
  | 0, _ => some false
  | count + 1, r =>
    match (webpkiReadEntry webpkiCertMax r badCertificate).1 with
    | .error _ => none
    | .ok (cert, r) =>
      (entriesPinned cfg (index + 1) count r).map (certificatePinned c cfg index cert || ·)

def webpkiPathPinned (list : Bytes) (cfg : Cfg) (leaf : WebpkiLeafInfo) : Bool :=
  if leaf.pathEntries > webpkiChainMax then false
  else
    match cfg.anchors[leaf.anchorIndex]? with
    | none => false
    | some anchor =>
      match entriesPinned c cfg 0 leaf.pathEntries (rbInit list) with
      | none => false
      | some pinned => pinned || webpkiSpkiPinned c cfg anchor.2

end Walk

end Chapulin
