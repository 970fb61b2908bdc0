/-
Paths from a leaf to a trust anchor.

`webpki_verify_chain` walks the entries once, keeps a running count of the
authorities below and refuses at the first entry that does not fit.  It accepts
exactly the lists whose first entries form a valid path to an anchor, and reports
the shortest such path; `webpki_path_pinned` reads the same entries a second time.
-/

import Chapulin.Cert.Webpki

namespace Chapulin

open Lib Lib.Der List

variable {entry list : Bytes} {entries others : List Bytes} {issuers : List WebpkiCert}
    {alert below index read : Nat} {cert leaf : WebpkiCert} {info : WebpkiLeafInfo}
    {leafKey : WebpkiSpki}

/-! ### The verdict on a certificate -/

theorem blind_judgeBasicConstraints (ext : X509Extension) (isCa : Bool) (out : WebpkiExtensions) :
    Blind (judgeBasicConstraints ext isCa out) := by
  unfold judgeBasicConstraints
  split
  · exact blind_stop _
  · exact Blind.ite (blind_refuseWith _ _) (blind_pure _)

theorem blind_judgeExtension (ext : X509Extension) (known : WebpkiExt) (isCa : Bool)
    (out : WebpkiExtensions) : Blind (judgeExtension ext known isCa out) := by
  cases known with
  | keyUsage => exact Blind.ite (blind_pure _) (blind_refuseWith _ _)
  | extKeyUsage =>
    refine Blind.ite (blind_pure _) ?_
    split
    · exact blind_stop _
    · exact Blind.ite (blind_pure _) (blind_refuseWith _ _)
  | basicConstraints => exact blind_judgeBasicConstraints ext isCa out
  | san => exact blind_pure _

theorem blind_readOneExtension (isCa : Bool) (out : WebpkiExtensions) :
    BlindReader (readOneExtension isCa out) := by
  refine (blindReader_quietly _).bind fun ext => ?_
  split
  · exact BlindReader.ite (fun _ => blind_refuseWith _ _) (blindReader_pure _)
  · exact BlindReader.ite (fun _ => blind_refuseWith _ _)
      (blindReader_lift (blind_judgeExtension _ _ _ _))

theorem blind_readExtensionList (isCa : Bool) (room : Nat) (out : WebpkiExtensions) :
    BlindReader (readExtensionList isCa room out) := by
  induction room generalizing out with
  | zero =>
    intro list
    rw [readExtensionList]
    exact Blind.ite (fun _ _ => rfl) (blind_stop _)
  | succ room hypothesis =>
    intro list
    rw [readExtensionList]
    refine Blind.ite (fun _ _ => rfl) ?_
    exact Blind.bind (blind_readOneExtension isCa out list) fun pair => hypothesis pair.1 pair.2

theorem blind_judgeExtensions (isCa : Bool) (wrap : Bytes) : Blind (judgeExtensions isCa wrap) := by
  refine Blind.bind (blindReader_quietly _ _) fun pair => ?_
  refine Blind.bind (blind_readExtensionList _ _ _ _) fun out => ?_
  exact Blind.ite (blind_pure _) (blind_refuseWith _ _)

theorem blind_readTbsKey (tbs : Bytes) : BlindReader (readTbsKey tbs) := by
  refine (blindReader_quietly _).bind fun _ => (blindReader_quietly _).bind fun _ => ?_
  refine (blindReader_orOffProfile _).bind fun _ => (blindReader_quietly _).bind fun _ => ?_
  refine (blindReader_quietly _).bind fun _ => (blindReader_quietly _).bind fun _ => ?_
  exact (blindReader_orOffProfile _).bind fun _ => blindReader_pure _

theorem blind_webpkiReadTbs (isCa : Bool) (tbs : Bytes) : Blind (webpkiReadTbs isCa tbs) := by
  refine blind_judgeWhole ((blind_readTbsKey tbs).bind fun _ => ?_) tbs
  refine BlindReader.bind (fun t => Blind.ite (blind_refuseWith _ _) fun _ _ => rfl) fun _ => ?_
  refine BlindReader.bind ((blindReader_quietly _).bind fun wrap => ?_) fun _ => blindReader_pure _
  exact blindReader_lift (blind_judgeExtensions isCa wrap)

/-- Whether a certificate is accepted, and what is read of it, does not depend on the
alert. -/
theorem blind_webpkiParseCertificate (isCa : Bool) (cert : Bytes) :
    Blind (webpkiParseCertificate isCa cert) := by
  refine blind_judgeWhole ((blindReader_quietly _).bind fun tbs => ?_) cert
  refine (blindReader_lift (blind_webpkiReadTbs isCa tbs)).bind fun _ => ?_
  refine (blindReader_orOffProfile _).bind fun _ => (blindReader_quietly _).bind fun _ => ?_
  exact BlindReader.ite (fun _ => blind_stop _) (blindReader_pure _)

/-! ### Entries -/

theorem webpkiReadEntry_eq_ok {certMax : Nat} {r next : Rbuf} {cert : Bytes} :
    (webpkiReadEntry certMax r alert).1 = .ok (cert, next) ↔
      readEntryUpTo certMax r = some (cert, next) := by
  unfold webpkiReadEntry readEntryUpTo rbTake
  rcases rbU24 r with ⟨len,r⟩
  dsimp only
  split
  · simp [refuseWith]
  rcases rbBytes len r with ⟨_ | bytes,r⟩
  · simp [refuseWith]
  dsimp only
  rcases rbU16 r with ⟨extensionsLen,⟨rest,err⟩⟩
  cases err with
  | true => simp [refuseWith]
  | false =>
    by_cases none : extensionsLen = 0
    · simp [none]
    · simp [none,refuseWith]

structure EntriesFramed (list : Bytes) (entries : List Bytes) : Prop where
  spelled : list = entries.flatMap entryOf
  count : 1 ≤ entries.length ∧ entries.length ≤ webpkiFlightEntries
  sized : ∀ entry ∈ entries, 1 ≤ entry.length ∧ entry.length ≤ webpkiCertMax

theorem webpkiEntry_read (bytes : Bytes) (alert : Nat) (cert : Bytes) (next : Rbuf) :
    (webpkiReadEntry webpkiCertMax ⟨bytes,false⟩ alert).1 = .ok (cert, next) ↔
      next.err = false ∧ (1 ≤ cert.length ∧ cert.length ≤ webpkiCertMax) ∧
        bytes = entryOf cert ++ next.rest := by
  rw [webpkiReadEntry_eq_ok,reads_entryUpTo (by decide) bytes cert next]
  constructor
  · rintro ⟨live,_,⟨filled,capped,rfl⟩,rfl⟩
    exact ⟨live,⟨filled,capped⟩,rfl⟩
  · rintro ⟨live,⟨filled,capped⟩,rfl⟩
    exact ⟨live,_,⟨filled,capped,rfl⟩,rfl⟩

theorem entryOf_ne_nil (cert : Bytes) : entryOf cert ≠ [] := by
  simp [entryOf]

theorem readEntryList_nil (room alert : Nat) (entries : List Bytes) :
    (readEntryList room ⟨[],false⟩ alert).1 = .ok entries ↔
      [] = entries.flatMap entryOf ∧ entries.length ≤ room ∧
        ∀ entry ∈ entries, 1 ≤ entry.length ∧ entry.length ≤ webpkiCertMax := by
  have empty : readEntryList room ⟨[],false⟩ = pure [] := by cases room <;> rfl
  rw [empty]
  constructor
  · intro returned
    cases returned
    simp
  · rintro ⟨nothing,-⟩
    cases entries with
    | nil => rfl
    | cons entry rest =>
      exact absurd (append_eq_nil_iff.mp nothing.symm).1 (entryOf_ne_nil entry)

theorem readEntryList_succ {room : Nat} {bytes : Bytes} (more : bytes ≠ []) :
    (readEntryList (room + 1) ⟨bytes,false⟩ alert).1 = .ok entries ↔
      ∃ cert next later, (webpkiReadEntry webpkiCertMax ⟨bytes,false⟩ alert).1 = .ok (cert, next) ∧
        (readEntryList room next (webpkiReadEntry webpkiCertMax ⟨bytes,false⟩ alert).2).1 =
          .ok later ∧
        entries = cert :: later := by
  have left : ¬ rbLeft ⟨bytes,false⟩ = 0 := mt length_eq_zero_iff.mp more
  rw [readEntryList,if_neg left,fst_bind_eq_ok,Prod.exists]
  simp only [fst_bind_eq_ok,Proc.pure_apply,Except.ok.injEq]
  constructor
  · rintro ⟨cert,next,entry,later,rest,rfl⟩
    exact ⟨cert,next,later,entry,rest,rfl⟩
  · rintro ⟨cert,next,later,entry,rest,rfl⟩
    exact ⟨cert,next,entry,later,rest,rfl⟩

/-- A list is read whole, within its room and the size of an entry. -/
theorem readEntryList_eq_ok {room : Nat} {bytes : Bytes} :
    (readEntryList room ⟨bytes,false⟩ alert).1 = .ok entries ↔
      bytes = entries.flatMap entryOf ∧ entries.length ≤ room ∧
        ∀ entry ∈ entries, 1 ≤ entry.length ∧ entry.length ≤ webpkiCertMax := by
  induction room generalizing bytes alert entries with
  | zero =>
    by_cases nothing : bytes = []
    · rw [nothing,readEntryList_nil]
    have left : ¬ rbLeft ⟨bytes,false⟩ = 0 := mt length_eq_zero_iff.mp nothing
    rw [readEntryList,if_neg left]
    constructor
    · intro refused
      cases refused
    · rintro ⟨rfl,absent,-⟩
      rw [length_eq_zero_iff.mp (Nat.le_zero.mp absent)] at nothing
      exact absurd rfl nothing
  | succ room hypothesis =>
    by_cases nothing : bytes = []
    · rw [nothing,readEntryList_nil]
    rw [readEntryList_succ nothing]
    constructor
    · rintro ⟨cert,⟨rest,err⟩,later,entry,behind,rfl⟩
      obtain ⟨live,sized,rfl⟩ := (webpkiEntry_read ..).mp entry
      cases live
      obtain ⟨rfl,count,sizes⟩ := hypothesis.mp behind
      exact ⟨rfl,Nat.succ_le_succ count,forall_mem_cons.mpr ⟨sized,sizes⟩⟩
    · rintro ⟨rfl,count,sizes⟩
      cases entries with
      | nil => exact absurd rfl nothing
      | cons cert later =>
        obtain ⟨sized,sizesLater⟩ := forall_mem_cons.mp sizes
        exact ⟨cert,⟨later.flatMap entryOf,false⟩,later,(webpkiEntry_read ..).mpr ⟨rfl,sized,rfl⟩,
          hypothesis.mpr ⟨rfl,Nat.le_of_succ_le_succ count,sizesLater⟩,rfl⟩

theorem readEntries_eq_ok {list : Bytes} {alert : Nat} {entries : List Bytes} :
    (readEntries list alert).1 = .ok entries ↔ EntriesFramed list entries := by
  rw [readEntries]
  constructor
  · intro returned
    obtain ⟨_,-,returned⟩ := fst_bind_eq_ok.mp returned
    obtain ⟨found,framed,returned⟩ := fst_bind_eq_ok.mp returned
    obtain ⟨spelled,count,sized⟩ := readEntryList_eq_ok.mp framed
    split at returned
    · rename_i filled
      cases returned
      exact ⟨spelled,⟨filled,count⟩,sized⟩
    · cases returned
  · rintro ⟨spelled,⟨filled,count⟩,sized⟩
    refine fst_bind_eq_ok.mpr ⟨(),rfl,fst_bind_eq_ok.mpr ⟨entries,?_,?_⟩⟩
    · exact readEntryList_eq_ok.mpr ⟨spelled,count,sized⟩
    · rw [if_pos (show entries.length > 0 from filled)]
      rfl

/-! ### Paths -/

def Parses (isCa : Bool) (entry : Bytes) (cert : WebpkiCert) : Prop :=
  ∃ alert, (webpkiParseCertificate isCa entry alert).1 = .ok cert

theorem parses_iff {isCa : Bool} (alert : Nat) :
    (webpkiParseCertificate isCa entry alert).1 = .ok cert ↔ Parses isCa entry cert := by
  constructor
  · exact fun parsed => ⟨alert,parsed⟩
  · rintro ⟨other,parsed⟩
    rw [blind_webpkiParseCertificate isCa entry alert other]
    exact parsed

theorem Parses.unique {isCa : Bool} {entry : Bytes} {first second : WebpkiCert}
    (parses : Parses isCa entry first) (parsesToo : Parses isCa entry second) : first = second := by
  have same := ((parses_iff 0).mpr parses).symm.trans ((parses_iff 0).mpr parsesToo)
  cases same
  rfl

def WebpkiCert.ValidAt (cert : WebpkiCert) (now : Nat) : Prop :=
  cert.notBefore ≤ now ∧ now ≤ cert.notAfter

section Paths

variable (c : CertCrypto) (cfg : Cfg) (now : Nat)

/-- An authority stands above a certificate, with `below` authorities under it that are
not self-issued. -/
structure Issued (below : Nat) (cert issuer : WebpkiCert) : Prop where
  named : issuer.subject = cert.issuer
  depth : ∀ limit, issuer.pathLen = some limit → below ≤ limit
  signed : webpkiVerify c cert issuer.spki = true

structure ValidPath (entries : List Bytes) (leaf : WebpkiCert) (issuers : List WebpkiCert) :
    Prop where
  leafParses : ∃ entry, entries[0]? = some entry ∧ Parses false entry leaf
  leafValid : leaf.ValidAt now
  leafHost : SanNames leaf.san cfg.hostname
  short : issuers.length + 1 ≤ webpkiChainMax
  parses : ∀ (i : Nat) issuer, issuers[i]? = some issuer →
    ∃ entry, entries[i + 1]? = some entry ∧ Parses true entry issuer
  valid : ∀ issuer ∈ issuers, issuer.ValidAt now
  issued : ∀ (i : Nat) cert issuer, (leaf :: issuers)[i]? = some cert → issuers[i]? = some issuer →
    Issued c ((issuers.take i).countP fun ca => !selfIssued ca) cert issuer

/-- The anchor of an index names the issuer of a certificate and verifies it. -/
def AnchoredAt (cert : WebpkiCert) (index : Nat) : Prop :=
  ∃ anchor, cfg.anchors[index]? = some anchor ∧ anchor.1 = cert.issuer ∧
    ∃ key, readWholeSpki anchor.2 = some key ∧ webpkiVerify c cert key = true

structure Reported (entries : List Bytes) (leaf : WebpkiCert) (issuers : List WebpkiCert)
    (info : WebpkiLeafInfo) : Prop where
  path : ValidPath c cfg now entries leaf issuers
  anchored : AnchoredAt c cfg (issuers.getLastD leaf) info.anchorIndex
  key : info.spki = leaf.spki
  length : info.pathEntries = issuers.length + 1
  shortest : ∀ other others index, ValidPath c cfg now entries other others →
    AnchoredAt c cfg (others.getLastD other) index → issuers.length ≤ others.length
  first : ∀ index, AnchoredAt c cfg (issuers.getLastD leaf) index → info.anchorIndex ≤ index

inductive Climb : List Bytes → Nat → WebpkiCert → List WebpkiCert → Prop where
  | stop {entries : List Bytes} {below : Nat} {cert : WebpkiCert} : Climb entries below cert []
  | step {entry : Bytes} {entries : List Bytes} {below : Nat} {cert issuer : WebpkiCert}
      {issuers : List WebpkiCert} : Parses true entry issuer → issuer.ValidAt now →
      Issued c below cert issuer →
      Climb entries (below + if selfIssued issuer then 0 else 1) issuer issuers →
      Climb (entry :: entries) below cert (issuer :: issuers)

variable {c cfg now}

/-- A climb, read off issuer by issuer. -/
theorem climb_iff :
    Climb c now entries below cert issuers ↔
      (∀ (i : Nat) issuer, issuers[i]? = some issuer →
        ∃ entry, entries[i]? = some entry ∧ Parses true entry issuer) ∧
      (∀ issuer ∈ issuers, issuer.ValidAt now) ∧
      ∀ (i : Nat) above issuer, (cert :: issuers)[i]? = some above → issuers[i]? = some issuer →
        Issued c (below + (issuers.take i).countP fun ca => !selfIssued ca) above issuer := by
  induction issuers generalizing entries below cert with
  | nil =>
    constructor
    · intro
      simp
    · intro
      exact .stop
  | cons issuer issuers hypothesis =>
    -- One more authority stands below the later ones unless this one is self-issued.
    have counted (i : Nat) :
        below + ((issuer :: issuers).take (i + 1)).countP (fun ca => !selfIssued ca) =
        below + (if selfIssued issuer then 0 else 1) +
          (issuers.take i).countP fun ca => !selfIssued ca := by
      rw [take_succ_cons,countP_cons]
      cases selfIssued issuer with
      | false =>
        simp
        omega
      | true => simp
    constructor
    · intro climb
      cases climb with
      | step parses valid issued climb =>
        obtain ⟨parsesLater,validLater,issuedLater⟩ := hypothesis.mp climb
        refine ⟨?_,forall_mem_cons.mpr ⟨valid,validLater⟩,?_⟩
        · intro i ca found
          cases i with
          | zero =>
            cases found
            exact ⟨_,rfl,parses⟩
          | succ i => exact parsesLater i ca found
        · intro i above ca here found
          cases i with
          | zero =>
            cases here
            cases found
            exact issued
          | succ i =>
            rw [counted]
            exact issuedLater i above ca here found
    · rintro ⟨parses,valid,issued⟩
      obtain ⟨entry,here,parsed⟩ := parses 0 issuer rfl
      obtain ⟨validHere,validLater⟩ := forall_mem_cons.mp valid
      cases entries with
      | nil => cases here
      | cons first entries =>
        cases here
        refine .step parsed validHere (issued 0 cert issuer rfl rfl)
          (hypothesis.mpr ⟨?_,validLater,?_⟩)
        · exact fun i ca found => parses (i + 1) ca found
        · intro i above ca here found
          rw [← counted]
          exact issued (i + 1) above ca here found

/-- A valid path is a valid leaf and a climb from it. -/
theorem validPath_iff :
    ValidPath c cfg now entries leaf issuers ↔
      ∃ entry later, entries = entry :: later ∧ Parses false entry leaf ∧ leaf.ValidAt now ∧
        SanNames leaf.san cfg.hostname ∧ issuers.length + 1 ≤ webpkiChainMax ∧
        Climb c now later 0 leaf issuers := by
  constructor
  · rintro ⟨⟨entry,here,parsed⟩,leafValid,leafHost,short,parses,valid,issued⟩
    cases entries with
    | nil => cases here
    | cons first later =>
      cases here
      refine ⟨_,later,rfl,parsed,leafValid,leafHost,short,climb_iff.mpr ⟨?_,valid,?_⟩⟩
      · exact fun i ca found => parses i ca found
      · intro i above ca here found
        rw [Nat.zero_add]
        exact issued i above ca here found
  · rintro ⟨entry,later,rfl,parsed,leafValid,leafHost,short,climb⟩
    obtain ⟨parses,valid,issued⟩ := climb_iff.mp climb
    refine ⟨⟨entry,rfl,parsed⟩,leafValid,leafHost,short,?_,valid,?_⟩
    · exact fun i ca found => parses i ca found
    · intro i above ca here found
      rw [← Nat.zero_add (countP _ _)]
      exact issued i above ca here found

theorem Climb.take (climb : Climb c now entries below cert issuers) (n : Nat) :
    Climb c now entries below cert (issuers.take n) := by
  induction climb generalizing n with
  | stop =>
    rw [take_nil]
    exact .stop
  | step parses valid issued _ hypothesis =>
    cases n with
    | zero => exact .stop
    | succ n => exact .step parses valid issued (hypothesis n)

theorem Climb.eq_take {others : List WebpkiCert} (climb : Climb c now entries below cert issuers)
    (climbToo : Climb c now entries below cert others) (fewer : others.length ≤ issuers.length) :
    others = issuers.take others.length := by
  induction climb generalizing others with
  | stop =>
    rw [length_eq_zero_iff.mp (Nat.le_zero.mp fewer)]
    rfl
  | step parses _ _ _ hypothesis =>
    cases climbToo with
    | stop => rfl
    | step parsesToo _ _ later =>
      cases parses.unique parsesToo
      rw [length_cons,take_succ_cons]
      exact congrArg _ (hypothesis later (Nat.le_of_succ_le_succ fewer))

/-! ### Anchors -/

theorem anchorAccepts_iff {anchor : Bytes × Bytes} :
    anchorAccepts c cert anchor = true ↔ anchor.1 = cert.issuer ∧
      ∃ key, readWholeSpki anchor.2 = some key ∧ webpkiVerify c cert key = true := by
  rw [anchorAccepts,Bool.and_eq_true,beq_iff_eq,Option.any_eq_true]

theorem anchorVerifies_eq_none :
    anchorVerifies c cfg cert = none ↔ ∀ index, ¬ AnchoredAt c cfg cert index := by
  rw [anchorVerifies,findIdx?_eq_none_iff]
  constructor
  · rintro absent index ⟨anchor,found,accepts⟩
    have refused := absent anchor (mem_of_getElem? found)
    rw [anchorAccepts_iff.mpr accepts] at refused
    cases refused
  · intro absent anchor inside
    obtain ⟨index,found⟩ := getElem?_of_mem inside
    rw [← Bool.not_eq_true]
    exact fun accepts => absent index ⟨anchor,found,anchorAccepts_iff.mp accepts⟩

/-- The first anchor that verifies is found. -/
theorem anchorVerifies_eq_some :
    anchorVerifies c cfg cert = some index ↔ AnchoredAt c cfg cert index ∧
      ∀ other, AnchoredAt c cfg cert other → index ≤ other := by
  rw [anchorVerifies,findIdx?_eq_some_iff_getElem]
  constructor
  · rintro ⟨inside,accepts,refused⟩
    refine ⟨⟨_,getElem?_eq_getElem inside,anchorAccepts_iff.mp accepts⟩,?_⟩
    rintro other ⟨anchor,found,acceptsToo⟩
    by_contra earlier
    obtain ⟨otherInside,rfl⟩ := List.getElem?_eq_some_iff.mp found
    exact refused other (Nat.lt_of_not_le earlier) (anchorAccepts_iff.mpr acceptsToo)
  · rintro ⟨⟨anchor,found,accepts⟩,first⟩
    obtain ⟨inside,rfl⟩ := List.getElem?_eq_some_iff.mp found
    refine ⟨inside,anchorAccepts_iff.mpr accepts,?_⟩
    intro other earlier acceptsToo
    have anchored : AnchoredAt c cfg cert other :=
      ⟨_,getElem?_eq_getElem (Nat.lt_trans earlier inside),anchorAccepts_iff.mp acceptsToo⟩
    exact absurd (first other anchored) (Nat.not_le.mpr earlier)

/-! ### The walk -/

theorem validityCovers_iff : validityCovers cert now = true ↔ cert.ValidAt now := by
  rw [validityCovers,Bool.and_eq_true,decide_eq_true_eq,decide_eq_true_eq]
  rfl

theorem pathLenAdmits_iff {issuer : WebpkiCert} :
    pathLenAdmits issuer below = true ↔ ∀ limit, issuer.pathLen = some limit → below ≤ limit := by
  rw [pathLenAdmits,Option.all_eq_true]
  simp only [decide_eq_true_eq]

theorem readIssuer_eq_ok {issuer : WebpkiCert} :
    (readIssuer c entry below now cert alert).1 = .ok issuer ↔
      Parses true entry issuer ∧ issuer.ValidAt now ∧ Issued c below cert issuer := by
  rw [readIssuer,fst_bind_eq_ok]
  simp only [fst_refused_or,fst_pure_eq_ok,parses_iff,Bool.not_eq_true',Bool.not_eq_false,
    validityCovers_iff,pathLenAdmits_iff,not_not]
  constructor
  · rintro ⟨_,parses,valid,named,depth,signed,rfl⟩
    exact ⟨parses,valid,named,depth,signed⟩
  · rintro ⟨parses,valid,named,depth,signed⟩
    exact ⟨issuer,parses,valid,named,depth,signed,rfl⟩

theorem readLeaf_eq_ok :
    (readLeaf entry cfg now alert).1 = .ok leaf ↔
      Parses false entry leaf ∧ leaf.ValidAt now ∧ SanNames leaf.san cfg.hostname := by
  rw [readLeaf,fst_bind_eq_ok]
  simp only [fst_refused_or,fst_pure_eq_ok,parses_iff,Bool.not_eq_true',Bool.not_eq_false,
    validityCovers_iff,webpkiMatchSan_iff]
  constructor
  · rintro ⟨_,parses,valid,host,rfl⟩
    exact ⟨parses,valid,host⟩
  · rintro ⟨parses,valid,host⟩
    exact ⟨leaf,parses,valid,host,rfl⟩

/-- The way the walk takes: it ends at the first certificate that an anchor verifies. -/
structure WalkEnds (c : CertCrypto) (cfg : Cfg) (now : Nat) (entries : List Bytes)
    (read below : Nat) (cert : WebpkiCert) (issuers : List WebpkiCert) (info : WebpkiLeafInfo) :
    Prop where
  climb : Climb c now entries below cert issuers
  short : read + issuers.length ≤ webpkiChainMax
  anchored : anchorVerifies c cfg (issuers.getLastD cert) = some info.anchorIndex
  unanchored : ∀ n < issuers.length, anchorVerifies c cfg ((issuers.take n).getLastD cert) = none
  length : info.pathEntries = read + issuers.length

theorem walkIssuers_anchored (found : anchorVerifies c cfg cert = some index) :
    walkIssuers c cfg now leafKey entries read below cert =
      pure { spki := leafKey, pathEntries := read, anchorIndex := index } := by
  cases entries <;> rw [walkIssuers,found]

theorem walkIssuers_full (missing : anchorVerifies c cfg cert = none) :
    walkIssuers c cfg now leafKey entries webpkiChainMax below cert =
      refuseWith .eauth Alert.unknownCa := by
  cases entries <;> rw [walkIssuers,missing] <;> exact if_pos rfl

theorem walkIssuers_nil (missing : anchorVerifies c cfg cert = none) :
    walkIssuers c cfg now leafKey [] read below cert = refuseWith .eauth Alert.unknownCa := by
  rw [walkIssuers,missing]
  exact ite_self _

theorem walkIssuers_cons (missing : anchorVerifies c cfg cert = none)
    (room : read ≠ webpkiChainMax) :
    walkIssuers c cfg now leafKey (entry :: entries) read below cert =
      readIssuer c entry below now cert >>= fun issuer =>
        walkIssuers c cfg now leafKey entries (read + 1)
          (below + if selfIssued issuer then 0 else 1) issuer := by
  rw [walkIssuers,missing]
  exact if_neg room

theorem WalkEnds.at_anchor (found : anchorVerifies c cfg cert = some index)
    (ends : WalkEnds c cfg now entries read below cert issuers info) : issuers = [] := by
  cases issuers with
  | nil => rfl
  | cons issuer later =>
    have missing := ends.unanchored 0 (Nat.succ_pos _)
    rw [take_zero,getLastD_nil,found] at missing
    cases missing

theorem walkEnds_cons (missing : anchorVerifies c cfg cert = none) :
    WalkEnds c cfg now (entry :: entries) read below cert issuers info ↔
      ∃ issuer later, issuers = issuer :: later ∧
        (Parses true entry issuer ∧ issuer.ValidAt now ∧ Issued c below cert issuer) ∧
        WalkEnds c cfg now entries (read + 1) (below + if selfIssued issuer then 0 else 1) issuer
          later info := by
  constructor
  · rintro ⟨climb,short,anchored,unanchored,length⟩
    cases climb with
    | stop =>
      rw [getLastD_nil,missing] at anchored
      cases anchored
    | @step _ _ _ _ issuer later parses valid issued climb =>
      rw [getLastD_cons] at anchored
      refine ⟨issuer,later,rfl,⟨parses,valid,issued⟩,climb,?_,anchored,?_,?_⟩
      · rw [length_cons] at short
        omega
      · intro n fewer
        have higher := unanchored (n + 1) (Nat.succ_lt_succ fewer)
        rw [take_succ_cons,getLastD_cons] at higher
        exact higher
      · rw [length,length_cons]
        omega
  · rintro ⟨issuer,later,rfl,⟨parses,valid,issued⟩,climb,short,anchored,unanchored,length⟩
    refine ⟨.step parses valid issued climb,?_,?_,?_,?_⟩
    · rw [length_cons]
      omega
    · rw [getLastD_cons]
      exact anchored
    · intro n fewer
      cases n with
      | zero => exact missing
      | succ n =>
        rw [take_succ_cons,getLastD_cons]
        exact unanchored n (Nat.lt_of_succ_lt_succ fewer)
    · rw [length,length_cons]
      omega

theorem walkEnds_here (within : read ≤ webpkiChainMax)
    (found : anchorVerifies c cfg cert = some index) :
    (walkIssuers c cfg now leafKey entries read below cert alert).1 = .ok info ↔
      info.spki = leafKey ∧ ∃ issuers, WalkEnds c cfg now entries read below cert issuers info := by
  rw [walkIssuers_anchored found,fst_pure_eq_ok]
  constructor
  · rintro rfl
    refine ⟨rfl,[],.stop,within,found,?_,rfl⟩
    intro n fewer
    cases fewer
  · rintro ⟨same,issuers,ends⟩
    cases ends.at_anchor found
    have index := found.symm.trans ends.anchored
    have length := ends.length
    rcases info with ⟨_,_,_⟩
    cases same
    cases index
    cases length
    rfl

theorem walkEnds_missing (missing : anchorVerifies c cfg cert = none)
    (ends : WalkEnds c cfg now entries read below cert issuers info) :
    entries ≠ [] ∧ read < webpkiChainMax := by
  obtain ⟨climb,short,anchored,-,-⟩ := ends
  cases climb with
  | stop =>
    rw [getLastD_nil,missing] at anchored
    cases anchored
  | step _ _ _ _ =>
    rw [length_cons] at short
    exact ⟨cons_ne_nil _ _,by omega⟩

/-- The walk over the issuers succeeds exactly when it ends at an anchor. -/
theorem walkIssuers_eq_ok (within : read ≤ webpkiChainMax) :
    (walkIssuers c cfg now leafKey entries read below cert alert).1 = .ok info ↔
      info.spki = leafKey ∧ ∃ issuers, WalkEnds c cfg now entries read below cert issuers info := by
  induction entries generalizing read below cert alert with
  | nil =>
    rcases found : anchorVerifies c cfg cert with _ | index
    · rw [walkIssuers_nil found]
      constructor
      · intro refused
        cases refused
      · rintro ⟨-,issuers,ends⟩
        exact absurd rfl (walkEnds_missing found ends).1
    · exact walkEnds_here within found
  | cons entry entries hypothesis =>
    rcases found : anchorVerifies c cfg cert with _ | index
    · by_cases full : read = webpkiChainMax
      · rw [full,walkIssuers_full found]
        constructor
        · intro refused
          cases refused
        · rintro ⟨-,issuers,ends⟩
          exact absurd (walkEnds_missing found ends).2 (Nat.lt_irrefl _)
      · have room : read + 1 ≤ webpkiChainMax := Nat.lt_of_le_of_ne within full
        rw [walkIssuers_cons found full,fst_bind_eq_ok]
        simp only [readIssuer_eq_ok,hypothesis room,walkEnds_cons found]
        constructor
        · rintro ⟨issuer,reads,same,later,ends⟩
          exact ⟨same,issuer :: later,issuer,later,rfl,reads,ends⟩
        · rintro ⟨same,_,issuer,later,-,reads,ends⟩
          exact ⟨issuer,reads,same,later,ends⟩
    · exact walkEnds_here within found

/-- The walk from a valid leaf ends exactly at a reported path. -/
theorem walkEnds_iff_reported {later : List Bytes} (parses : Parses false entry leaf)
    (valid : leaf.ValidAt now) (host : SanNames leaf.san cfg.hostname) :
    info.spki = leaf.spki ∧ WalkEnds c cfg now later 1 0 leaf issuers info ↔
      Reported c cfg now (entry :: later) leaf issuers info := by
  constructor
  · rintro ⟨key,climb,short,anchored,unanchored,length⟩
    obtain ⟨anchoredAt,first⟩ := anchorVerifies_eq_some.mp anchored
    have path : ValidPath c cfg now (entry :: later) leaf issuers :=
      validPath_iff.mpr ⟨entry,later,rfl,parses,valid,host,by omega,climb⟩
    refine ⟨path,anchoredAt,key,by omega,?_,first⟩
    intro other others index otherPath otherAnchored
    by_contra shorter
    obtain ⟨_,_,same,otherParses,-,-,-,otherClimb⟩ := validPath_iff.mp otherPath
    cases same
    cases parses.unique otherParses
    have fewer : others.length < issuers.length := Nat.lt_of_not_le shorter
    rw [climb.eq_take otherClimb (Nat.le_of_lt fewer)] at otherAnchored
    exact anchorVerifies_eq_none.mp (unanchored others.length fewer) index otherAnchored
  · rintro ⟨path,anchored,key,length,shortest,first⟩
    obtain ⟨_,_,same,-,-,-,short,climb⟩ := validPath_iff.mp path
    cases same
    refine ⟨key,climb,by omega,anchorVerifies_eq_some.mpr ⟨anchored,first⟩,?_,by omega⟩
    intro n fewer
    refine anchorVerifies_eq_none.mpr fun index anchoredHere => ?_
    have taken : (issuers.take n).length = n := length_take_of_le (Nat.le_of_lt fewer)
    have shorterPath : ValidPath c cfg now (entry :: later) leaf (issuers.take n) :=
      validPath_iff.mpr ⟨entry,later,rfl,parses,valid,host,by omega,climb.take n⟩
    have bound := shortest leaf (issuers.take n) index shorterPath anchoredHere
    omega

/-- A chain is accepted exactly when its entries begin with a reported path. -/
theorem webpkiVerifyChain_eq_ok {nowSeconds : Nat} :
    (webpkiVerifyChain c list cfg nowSeconds alert).1 = .ok info ↔
      ∃ entries leaf issuers, EntriesFramed list entries ∧
        Reported c cfg (webpkiPackSeconds nowSeconds) entries leaf issuers info := by
  rw [webpkiVerifyChain,fst_bind_eq_ok]
  constructor
  · rintro ⟨entries,framed,returned⟩
    have framed := readEntries_eq_ok.mp framed
    cases entries with
    | nil => exact absurd framed.count.1 (by simp)
    | cons entry later =>
      obtain ⟨leaf,read,walked⟩ := fst_bind_eq_ok.mp returned
      obtain ⟨parses,valid,host⟩ := readLeaf_eq_ok.mp read
      obtain ⟨key,issuers,ends⟩ := (walkIssuers_eq_ok (by decide)).mp walked
      exact ⟨entry :: later,leaf,issuers,framed,
        (walkEnds_iff_reported parses valid host).mp ⟨key,ends⟩⟩
  · rintro ⟨entries,leaf,issuers,framed,reported⟩
    obtain ⟨entry,later,rfl,parses,valid,host,-⟩ := validPath_iff.mp reported.path
    obtain ⟨key,ends⟩ := (walkEnds_iff_reported parses valid host).mpr reported
    exact ⟨_,readEntries_eq_ok.mpr framed,fst_bind_eq_ok.mpr
      ⟨leaf,readLeaf_eq_ok.mpr ⟨parses,valid,host⟩,
        (walkIssuers_eq_ok (by decide)).mpr ⟨key,issuers,ends⟩⟩⟩

theorem exists_reported (path : ValidPath c cfg now entries leaf issuers)
    (anchored : AnchoredAt c cfg (issuers.getLastD leaf) index) :
    ∃ found above info, Reported c cfg now entries found above info := by
  classical
  have filled : ∃ n found above index, ValidPath c cfg now entries found above ∧
      AnchoredAt c cfg (above.getLastD found) index ∧ above.length = n :=
    ⟨_,leaf,issuers,index,path,anchored,rfl⟩
  obtain ⟨found,above,reached,foundPath,foundAnchored,length⟩ := Nat.find_spec filled
  rcases first : anchorVerifies c cfg (above.getLastD found) with _ | least
  · exact absurd foundAnchored (anchorVerifies_eq_none.mp first reached)
  · obtain ⟨leastAnchored,before⟩ := anchorVerifies_eq_some.mp first
    refine ⟨found,above,⟨found.spki,above.length + 1,least⟩,foundPath,leastAnchored,rfl,rfl,?_,
      before⟩
    intro other others otherIndex otherPath otherAnchored
    rw [length]
    exact Nat.find_le ⟨other,others,otherIndex,otherPath,otherAnchored,rfl⟩

/-! ### Later entries -/

theorem ValidPath.congr (agree : ∀ i < issuers.length + 1, entries[i]? = others[i]?)
    (path : ValidPath c cfg now entries leaf issuers) :
    ValidPath c cfg now others leaf issuers where
  leafParses := by
    rw [← agree 0 (Nat.succ_pos _)]
    exact path.leafParses
  leafValid := path.leafValid
  leafHost := path.leafHost
  short := path.short
  parses := by
    intro i issuer found
    obtain ⟨inside,-⟩ := List.getElem?_eq_some_iff.mp found
    rw [← agree (i + 1) (Nat.succ_lt_succ inside)]
    exact path.parses i issuer found
  valid := path.valid
  issued := path.issued

theorem Reported.congr (agree : ∀ i < issuers.length + 1, entries[i]? = others[i]?)
    (reported : Reported c cfg now entries leaf issuers info) :
    Reported c cfg now others leaf issuers info where
  path := reported.path.congr agree
  anchored := reported.anchored
  key := reported.key
  length := reported.length
  shortest := by
    intro other above index otherPath otherAnchored
    by_contra shorter
    have earlier : ∀ i < above.length + 1, others[i]? = entries[i]? :=
      fun i inside => (agree i (by omega)).symm
    exact shorter (reported.shortest other above index (otherPath.congr earlier) otherAnchored)
  first := reported.first

/-! ### Pins -/

theorem certificatePinned_eq {index : Nat} {entry : Bytes} {cert : WebpkiCert}
    (parses : Parses (decide (index ≠ 0)) entry cert) :
    certificatePinned c cfg index entry = webpkiSpkiPinned c cfg cert.spkiTlv := by
  rw [certificatePinned,(parses_iff _).mpr parses]

theorem entriesPinned_succ {count : Nat} {later : List Bytes}
    (sized : 1 ≤ entry.length ∧ entry.length ≤ webpkiCertMax) :
    entriesPinned c cfg index (count + 1) ⟨(entry :: later).flatMap entryOf,false⟩ =
      (entriesPinned c cfg (index + 1) count ⟨later.flatMap entryOf,false⟩).map
        (certificatePinned c cfg index entry || ·) := by
  have read := (webpkiEntry_read ((entry :: later).flatMap entryOf) Alert.badCertificate entry
    ⟨later.flatMap entryOf,false⟩).mpr ⟨rfl,sized,rfl⟩
  rw [entriesPinned,read]

theorem entriesPinned_climb (climb : Climb c now entries below cert issuers) (index : Nat)
    (sized : ∀ entry ∈ entries, 1 ≤ entry.length ∧ entry.length ≤ webpkiCertMax) :
    entriesPinned c cfg (index + 1) issuers.length ⟨entries.flatMap entryOf,false⟩ =
      some (issuers.any fun ca => webpkiSpkiPinned c cfg ca.spkiTlv) := by
  induction climb generalizing index with
  | stop => rfl
  | step parses _ _ _ hypothesis =>
    obtain ⟨sizedHere,sizedLater⟩ := forall_mem_cons.mp sized
    rw [length_cons,entriesPinned_succ sizedHere,hypothesis (index + 1) sizedLater,
      @certificatePinned_eq c cfg (index + 1) _ _ parses]
    rfl

theorem webpkiSpkiPinned_iff {spki : Bytes} :
    webpkiSpkiPinned c cfg spki = true ↔ c.hash sha256Len spki ∈ cfg.spkiPins := by
  rw [webpkiSpkiPinned,any_beq',contains_iff_mem]

/-- The second pass over the entries accepts exactly when a pin is the digest of a key
of the path or of its anchor. -/
theorem webpkiPathPinned_iff (framed : EntriesFramed list entries)
    (reported : Reported c cfg now entries leaf issuers info) :
    webpkiPathPinned c list cfg info = true ↔
      (∃ cert ∈ leaf :: issuers, c.hash sha256Len cert.spkiTlv ∈ cfg.spkiPins) ∨
        ∃ anchor, cfg.anchors[info.anchorIndex]? = some anchor ∧
          c.hash sha256Len anchor.2 ∈ cfg.spkiPins := by
  obtain ⟨anchor,found,-⟩ := reported.anchored
  obtain ⟨entry,later,rfl,parses,-,-,short,climb⟩ := validPath_iff.mp reported.path
  obtain ⟨sizedHere,sizedLater⟩ := forall_mem_cons.mp framed.sized
  have within : ¬ info.pathEntries > webpkiChainMax := by
    rw [reported.length]
    omega
  have pinned : entriesPinned c cfg 0 info.pathEntries (rbInit list) =
      some ((leaf :: issuers).any fun cert => webpkiSpkiPinned c cfg cert.spkiTlv) := by
    rw [reported.length,framed.spelled]
    change entriesPinned c cfg 0 (issuers.length + 1) ⟨(entry :: later).flatMap entryOf,false⟩ = _
    rw [entriesPinned_succ sizedHere,entriesPinned_climb climb 0 sizedLater,
      @certificatePinned_eq c cfg 0 _ _ parses]
    rfl
  rw [webpkiPathPinned,if_neg within,found,pinned]
  simp only [Bool.or_eq_true,any_eq_true,webpkiSpkiPinned_iff,Option.some.injEq,exists_eq_left']

theorem getElem?_agree {n : Nat}
    (agree : others.take n = entries.take n) : ∀ i < n, entries[i]? = others[i]? := by
  intro i inside
  rw [← getElem?_take_of_lt inside,← agree,getElem?_take_of_lt inside]

theorem EntriesFramed.unique {list : Bytes} {entries others : List Bytes}
    (framed : EntriesFramed list entries)
    (framedToo : EntriesFramed list others) : entries = others := by
  have same := (@readEntries_eq_ok list 0 entries).mpr framed
  rw [readEntries_eq_ok.mpr framedToo] at same
  cases same
  rfl

theorem accepted_of_agree {other : Bytes} {nowSeconds : Nat}
    {otherAlert : Nat} (framed : EntriesFramed list entries)
    (otherFramed : EntriesFramed other others)
    (agree : entries.take webpkiChainMax = others.take webpkiChainMax)
    (accepted : (webpkiVerifyChain c list cfg nowSeconds alert).1 = .ok info) :
    (webpkiVerifyChain c other cfg nowSeconds otherAlert).1 = .ok info := by
  obtain ⟨found,leaf,issuers,foundFramed,reported⟩ := webpkiVerifyChain_eq_ok.mp accepted
  rw [foundFramed.unique framed] at reported
  have short := reported.path.short
  have alike : ∀ i < issuers.length + 1, entries[i]? = others[i]? :=
    fun i inside => getElem?_agree agree.symm i (Nat.lt_of_lt_of_le inside short)
  exact webpkiVerifyChain_eq_ok.mpr ⟨others,leaf,issuers,otherFramed,reported.congr alike⟩

end Paths

/-- The walk accepts exactly the framed lists with a valid path to an anchor, and
reports the shortest path and its first anchor.  Entries behind the path do not
matter, nor does any behind the longest path the walk reads.  The pins then name a
key of the path or its anchor's. -/
theorem webpkiVerifyChain_spec (c : CertCrypto) (cfg : Cfg) (list : Bytes)
    (nowSeconds alert : Nat) :
    ((∃ info, (webpkiVerifyChain c list cfg nowSeconds alert).1 = .ok info) ↔
      ∃ entries leaf issuers index, EntriesFramed list entries ∧
        ValidPath c cfg (webpkiPackSeconds nowSeconds) entries leaf issuers ∧
        AnchoredAt c cfg (issuers.getLastD leaf) index) ∧
    (∀ info, (webpkiVerifyChain c list cfg nowSeconds alert).1 = .ok info →
      ∃ entries leaf issuers, EntriesFramed list entries ∧
        Reported c cfg (webpkiPackSeconds nowSeconds) entries leaf issuers info ∧
        (∀ other others otherAlert, EntriesFramed other others →
          others.take info.pathEntries = entries.take info.pathEntries →
          (webpkiVerifyChain c other cfg nowSeconds otherAlert).1 = .ok info) ∧
        (webpkiPathPinned c list cfg info = true ↔
          (∃ cert ∈ leaf :: issuers, c.hash sha256Len cert.spkiTlv ∈ cfg.spkiPins) ∨
            ∃ anchor, cfg.anchors[info.anchorIndex]? = some anchor ∧
              c.hash sha256Len anchor.2 ∈ cfg.spkiPins)) ∧
    (∀ entries other others otherAlert info, EntriesFramed list entries →
      EntriesFramed other others →
      others.take webpkiChainMax = entries.take webpkiChainMax →
      ((webpkiVerifyChain c other cfg nowSeconds otherAlert).1 = .ok info ↔
        (webpkiVerifyChain c list cfg nowSeconds alert).1 = .ok info)) := by
  refine ⟨?_,?_,?_⟩
  · constructor
    · rintro ⟨info,accepted⟩
      obtain ⟨entries,leaf,issuers,framed,reported⟩ := webpkiVerifyChain_eq_ok.mp accepted
      exact ⟨entries,leaf,issuers,info.anchorIndex,framed,reported.path,reported.anchored⟩
    · rintro ⟨entries,leaf,issuers,index,framed,path,anchored⟩
      obtain ⟨found,above,info,reported⟩ := exists_reported path anchored
      exact ⟨info,webpkiVerifyChain_eq_ok.mpr ⟨entries,found,above,framed,reported⟩⟩
  · intro info accepted
    obtain ⟨entries,leaf,issuers,framed,reported⟩ := webpkiVerifyChain_eq_ok.mp accepted
    refine ⟨entries,leaf,issuers,framed,reported,?_,webpkiPathPinned_iff framed reported⟩
    intro other others otherAlert otherFramed agree
    rw [reported.length] at agree
    exact webpkiVerifyChain_eq_ok.mpr
      ⟨others,leaf,issuers,otherFramed,reported.congr (getElem?_agree agree)⟩
  · intro entries other others otherAlert info framed otherFramed agree
    constructor
    · exact accepted_of_agree otherFramed framed agree
    · exact accepted_of_agree framed otherFramed agree.symm

/-! ### A sample -/

/-- Verifiers that accept everything, over a hash that keeps what it is given. -/
def sampleVerifiers : CertCrypto where
  hash _ bytes := bytes
  rsaPssVerify _ _ _ := true
  rsaPkcs1Verify _ _ _ := true
  p256EcdsaVerify _ _ _ := true
  p384EcdsaVerify _ _ _ := true
  mldsa87Verify _ _ _ := true

def sampleSpki : Bytes :=
  tlv 0x30 ([0x30,0x13,0x06,0x07,0x2a,0x86,0x48,0xce,0x3d,0x02,0x01,0x06,0x08,0x2a,0x86,0x48,0xce,
    0x3d,0x03,0x01,0x07] ++ tlv 0x03 (0 :: 4 :: replicate 64 1))

def sampleSigalg : Bytes := [0x30,0x0a,0x06,0x08,0x2a,0x86,0x48,0xce,0x3d,0x04,0x03,0x02]

def sampleTime (year : UInt8) : Bytes :=
  tlv 0x17 [0x32,year,0x30,0x31,0x30,0x31,0x30,0x30,0x30,0x30,0x30,0x30,0x5a]

def sampleCertExtension (oid value : Bytes) : Bytes := tlv 0x30 (tlv 0x06 oid ++ tlv 0x04 value)

def sampleHost : Bytes := [0x61,0x2e,0x62]

def sampleWebpkiCert (issuer subject extensions : Bytes) : Bytes :=
  tlv 0x30 (tlv 0x30 (versionV3 ++ tlv 0x02 [1] ++ sampleSigalg ++ tlv 0x30 issuer ++
      tlv 0x30 (sampleTime 0x35 ++ sampleTime 0x39) ++ tlv 0x30 subject ++ sampleSpki ++
      tlv 0xa3 (tlv 0x30 extensions)) ++
    sampleSigalg ++ tlv 0x03 [0,1])

/-- A leaf of `sampleHost`, whose issuer is `sampleIssuer`. -/
def sampleLeaf : Bytes :=
  sampleWebpkiCert [0] [] (sampleCertExtension oidKeyUsage (tlv 0x03 [7,0x80]) ++
    sampleCertExtension oidExtKeyUsage ekuServerAuth ++
    sampleCertExtension oidSubjectAltName (tlv 0x30 (tlv 0x82 sampleHost)))

/-- An authority that the anchor of `sampleAnchored` issued. -/
def sampleIssuer : Bytes :=
  sampleWebpkiCert [] [0] (sampleCertExtension oidKeyUsage (tlv 0x03 [2,0x04]) ++
    tlv 0x30 (tlv 0x06 oidBasicConstraints ++ [1,1,0xff] ++ tlv 0x04 (tlv 0x30 [1,1,0xff])))

def sampleWebpkiList : Bytes := entryOf sampleLeaf ++ entryOf sampleIssuer

def sampleAnchored : Cfg :=
  { Cfg.unset with
    anchors := [(tlv 0x30 [], sampleSpki)]
    hostname := sampleHost
    spkiPins := [sampleSpki] }

theorem sampleWebpkiList_accepted :
    (webpkiVerifyChain sampleVerifiers sampleWebpkiList sampleAnchored 1800000000 0).1 =
      .ok ⟨⟨.p256,replicate 64 1⟩,2,0⟩ := by
  decide +kernel

/-- A path of two entries. -/
theorem webpkiVerifyChain_spec_sample :
    ∃ entries leaf issuers, EntriesFramed sampleWebpkiList entries ∧ issuers.length = 1 ∧
      Reported sampleVerifiers sampleAnchored (webpkiPackSeconds 1800000000) entries leaf issuers
        ⟨⟨.p256,replicate 64 1⟩,2,0⟩ ∧
      (webpkiVerifyChain sampleVerifiers sampleWebpkiList sampleAnchored 1800000000 7).1 =
        .ok ⟨⟨.p256,replicate 64 1⟩,2,0⟩ := by
  have spec := webpkiVerifyChain_spec sampleVerifiers sampleAnchored sampleWebpkiList 1800000000 0
  obtain ⟨entries,leaf,issuers,framed,reported,later,-⟩ := spec.2.1 _ sampleWebpkiList_accepted
  have length : 2 = issuers.length + 1 := reported.length
  exact ⟨entries,leaf,issuers,framed,by omega,reported,later _ entries 7 framed rfl⟩

end Chapulin
