/-
Chains up to a pinned authority: `x509_verify_leaf` accepts exactly one leaf of the
profile, or a leaf and the intermediate that signed it, whose last certificate a
pin signed.
-/

import Chapulin.Cert.Profile

namespace Chapulin

open Lib Lib.Der List

/-! ### Entries -/

theorem reads_entry (b : X509Build) :
    Reads (readEntry b) (fun cert front => 1 ≤ cert.length ∧ cert.length ≤ b.x509Max ∧
      front = entryOf cert) := by
  have cap := b.bounds
  exact reads_entryUpTo (by omega)

/-! ### Epochs -/

def digits (n : Nat) : Bytes := [byte (48 + n / 10),byte (48 + n % 10)]

/-- A UTCTime at the start of one of the first 28 days of a month, in the years 2000
to 2049. -/
structure EpochDate (c : Bytes) (year month day : Nat) : Prop where
  spelled : c = digits year ++ (digits month ++ (digits day ++
    [0x30,0x30,0x30,0x30,0x30,0x30,0x5a]))
  year : year ≤ 49
  month : 1 ≤ month ∧ month ≤ 12
  day : 1 ≤ day ∧ day ≤ 28

theorem timeDigit_byte {digit : Nat} (small : digit ≤ 9) :
    timeDigit (byte (48 + digit)) = digit := by
  have inside : (48 + digit) % 256 = 48 + digit :=
    Nat.mod_eq_of_lt (Nat.lt_of_le_of_lt (Nat.add_le_add_left small 48) (by decide))
  rw [timeDigit,byte_toNat,inside]
  omega

theorem byte_timeDigit (octet : UInt8) : byte (48 + timeDigit octet) = octet := by
  rw [← byte_of_toNat octet]
  apply byte_congr
  simp only [timeDigit,byte_toNat]
  omega

theorem digits_spelled {high low : UInt8} (small : timeDigit low ≤ 9) :
    digits (timeDigit high * 10 + timeDigit low) = [high,low] := by
  have tens : (timeDigit high * 10 + timeDigit low) / 10 = timeDigit high := by omega
  have ones : (timeDigit high * 10 + timeDigit low) % 10 = timeDigit low := by omega
  rw [digits,tens,ones,byte_timeDigit,byte_timeDigit]

theorem exists_thirteen {c : Bytes} (length : c.length = 13) :
    ∃ c0 c1 c2 c3 c4 c5 c6 c7 c8 c9 c10 c11 c12,
      c = [c0,c1,c2,c3,c4,c5,c6,c7,c8,c9,c10,c11,c12] := by
  rcases c with _ | ⟨c0,_ | ⟨c1,_ | ⟨c2,_ | ⟨c3,_ | ⟨c4,_ | ⟨c5,_ | ⟨c6,_ | ⟨c7,_ | ⟨c8,
    _ | ⟨c9,_ | ⟨c10,_ | ⟨c11,_ | ⟨c12,_ | ⟨c13,rest⟩⟩⟩⟩⟩⟩⟩⟩⟩⟩⟩⟩⟩⟩
  all_goals simp at length
  exact ⟨c0,c1,c2,c3,c4,c5,c6,c7,c8,c9,c10,c11,c12,rfl⟩

theorem digitsIndex_eq_some (d0 d1 d2 d3 d4 d5 d6 d7 d8 d9 d10 d11 epoch : Nat) :
    digitsIndex [d0,d1,d2,d3,d4,d5,d6,d7,d8,d9,d10,d11] = some epoch ↔
      (∀ d ∈ [d0,d1,d2,d3,d4,d5], d ≤ 9) ∧ (∀ d ∈ [d6,d7,d8,d9,d10,d11], d = 0) ∧
      d0 * 10 + d1 ≤ 49 ∧ (1 ≤ d2 * 10 + d3 ∧ d2 * 10 + d3 ≤ 12) ∧
      (1 ≤ d4 * 10 + d5 ∧ d4 * 10 + d5 ≤ 28) ∧
      epoch = (d0 * 10 + d1) * 336 + (d2 * 10 + d3 - 1) * 28 + (d4 * 10 + d5 - 1) := by
  simp only [digitsIndex,getD_eq_getElem?_getD,getElem?_cons_succ,getElem?_cons_zero,
    Option.getD_some,forall_mem_cons,not_mem_nil,false_implies,implies_true,and_true]
  split
  · rename_i large
    simp only [any_cons,any_nil,Bool.or_false,Bool.or_eq_true,decide_eq_true_eq] at large
    constructor
    · intro found
      cases found
    · rintro ⟨small,zeros,_⟩
      omega
  · rename_i small
    simp only [any_cons,any_nil,Bool.or_false,Bool.or_eq_true,decide_eq_true_eq] at small
    split
    · constructor
      · intro found
        cases found
      · rintro ⟨_,zeros,year,month,day,_⟩
        omega
    · simp only [Option.some.injEq]
      constructor
      · intro found
        omega
      · rintro ⟨_,_,_,_,_,indexed⟩
        exact indexed.symm

theorem epochIndex_thirteen (c0 c1 c2 c3 c4 c5 c6 c7 c8 c9 c10 c11 c12 : UInt8) :
    epochIndex [c0,c1,c2,c3,c4,c5,c6,c7,c8,c9,c10,c11,c12] =
      digitsIndex [timeDigit c0,timeDigit c1,timeDigit c2,timeDigit c3,timeDigit c4,timeDigit c5,
        timeDigit c6,timeDigit c7,timeDigit c8,timeDigit c9,timeDigit c10,timeDigit c11] := by
  rw [epochIndex,if_neg (by simp)]
  rfl

/-- The epoch index counts days at midnight, in months of 28 days. -/
theorem epochIndex_eq_some {c : Bytes} (time : IsTime c) (epoch : Nat) :
    epochIndex c = some epoch ↔ ∃ year month day, EpochDate c year month day ∧
      epoch = year * 336 + (month - 1) * 28 + (day - 1) := by
  constructor
  · intro found
    have utc : c.length = 13 := by
      by_contra other
      rw [epochIndex,if_pos other] at found
      cases found
    obtain ⟨c0,c1,c2,c3,c4,c5,c6,c7,c8,c9,c10,c11,c12,rfl⟩ := exists_thirteen utc
    have zulu : c12 = 0x5a := by simpa using time.2
    rw [epochIndex_thirteen] at found
    obtain ⟨small,zeros,year,month,day,indexed⟩ := (digitsIndex_eq_some ..).mp found
    simp only [forall_mem_cons] at small zeros
    refine ⟨_,_,_,⟨?_,year,month,day⟩,indexed⟩
    rw [digits_spelled small.2.1,digits_spelled small.2.2.2.1,digits_spelled small.2.2.2.2.2.1,zulu]
    have zero {octet : UInt8} (absent : timeDigit octet = 0) : octet = 0x30 := by
      rw [← byte_timeDigit octet,absent]
      rfl
    rw [zero zeros.1,zero zeros.2.1,zero zeros.2.2.1,zero zeros.2.2.2.1,zero zeros.2.2.2.2.1,
      zero zeros.2.2.2.2.2.1]
    rfl
  · rintro ⟨year,month,day,⟨rfl,yearSmall,monthSmall,daySmall⟩,rfl⟩
    have spelled {n : Nat} (two : n ≤ 99) : timeDigit (byte (48 + n / 10)) = n / 10 ∧
        timeDigit (byte (48 + n % 10)) = n % 10 :=
      ⟨timeDigit_byte (by omega),timeDigit_byte (by omega)⟩
    have zero : timeDigit 0x30 = 0 := rfl
    have years := spelled (Nat.le_trans yearSmall (by decide))
    have months := spelled (Nat.le_trans monthSmall.2 (by decide))
    have days := spelled (Nat.le_trans daySmall.2 (by decide))
    refine (epochIndex_thirteen ..).trans ((digitsIndex_eq_some ..).mpr ?_)
    simp only [forall_mem_cons,not_mem_nil,false_implies,implies_true,and_true,true_and,years,
      months,days,zero]
    omega

/-! ### Chains -/

section Chains

variable (b : X509Build) (c : CertCrypto)

/-- A key vouches for a certificate: the signature over its transmitted
TBSCertificate passes under the key. -/
def CertFields.SignedBy (f : CertFields) (key : Bytes) : Prop :=
  verifyOne b c key (signedPart b c (tlv 0x30 (f.tbs b.pin))) f.sig = true

structure CertFields.Admitted (f : CertFields) (isCa : Bool) : Prop where
  profile : f.InProfile b.pin isCa
  short : (f.encode b.pin).length ≤ b.x509Max

inductive FirstPin (first : Bytes) (second : Option Bytes) (f : CertFields) : Nat → Prop where
  | first : f.SignedBy b c first → FirstPin first second f 1
  | second {key : Bytes} : ¬ f.SignedBy b c first → second = some key → f.SignedBy b c key →
      FirstPin first second f 2

inductive EpochOf (notBefore : Bytes) : Nat → Bool → Prop where
  | epoch {year month day : Nat} : EpochDate notBefore year month day →
      EpochOf notBefore (year * 336 + (month - 1) * 28 + (day - 1)) true
  | none : (∀ year month day, ¬ EpochDate notBefore year month day) → EpochOf notBefore 0 false

/-- A list that is a leaf, or a leaf and the intermediate that vouches for it, whose
last certificate a pin vouches for. -/
structure ChainAccepted (list first : Bytes) (second : Option Bytes) (leaf : CertFields)
    (issuer : Option CertFields) (info : X509LeafInfo) : Prop where
  framed : list = entryOf (leaf.encode b.pin) ++
    issuer.elim [] fun ca => entryOf (ca.encode b.pin)
  leafAdmitted : leaf.Admitted b false
  issuerAdmitted : ∀ ca, issuer = some ca → ca.Admitted b true ∧ leaf.SignedBy b c ca.key
  pin : FirstPin b c first second (issuer.getD leaf) info.caSlot
  key : info.key = leaf.key
  epoch : EpochOf leaf.notBefore info.epoch info.epochOk

theorem encode_length_pos (pin : PinAlg) (f : CertFields) : 1 ≤ (f.encode pin).length := by
  have longer := tlv_length_lt 0x30 (f.body pin)
  rw [CertFields.encode]
  omega

variable {b c}

/-- An entry of the list holds a certificate that the walker accepts exactly when it
holds an admitted one. -/
theorem entry_parsed {r next : Rbuf} {cert : Bytes} {isCa leaf : Bool} {parsed : ParsedCertificate}
    {alert : Nat} (live : r.err = false) :
    (readEntry b r = some (cert, next) ∧
      (parseCertificate b c isCa leaf cert alert).1 = .ok parsed) ↔
      next.err = false ∧ ∃ f : CertFields, f.Admitted b isCa ∧ cert = f.encode b.pin ∧
        r.rest = entryOf cert ++ next.rest ∧ parsed = f.parsed b c leaf := by
  rcases r with ⟨bytes,err⟩
  cases live
  rw [reads_entry b bytes cert next,parseCertificate_eq_ok]
  constructor
  · rintro ⟨⟨nextLive,_,⟨-,short,rfl⟩,framed⟩,f,profile,-,rfl,rfl⟩
    exact ⟨nextLive,f,⟨profile,short⟩,rfl,framed,rfl⟩
  · rintro ⟨nextLive,f,⟨profile,short⟩,rfl,framed,rfl⟩
    have cap := b.bounds
    have longer := tlv_length_lt 0x30 (f.body b.pin)
    have small : (f.body b.pin).length < 65536 := by
      rw [CertFields.encode] at short
      omega
    exact ⟨⟨nextLive,_,⟨encode_length_pos b.pin f,short,rfl⟩,framed⟩,f,profile,small,rfl,rfl⟩

def chainHead (b : X509Build) (c : CertCrypto) (leaf : CertFields) (issuer : Option CertFields) :
    ChainHead where
  signedPart := signedPart b c (tlv 0x30 ((issuer.getD leaf).tbs b.pin))
  sig := (issuer.getD leaf).sig
  intKey := issuer.map CertFields.key

theorem rbLeft_eq_zero {r : Rbuf} (live : r.err = false) : rbLeft r = 0 ↔ r.rest = [] := by
  rcases r with ⟨rest,err⟩
  cases live
  exact length_eq_zero_iff

/-- The second entry is an admitted CA and ends the list. -/
theorem readIntermediate_eq_ok {r : Rbuf} (live : r.err = false) (leaf : CertFields)
    (head : ChainHead) (alert : Nat) :
    (readIntermediate b c r alert).1 = .ok head ↔ ∃ ca : CertFields, ca.Admitted b true ∧
      r.rest = entryOf (ca.encode b.pin) ∧ head = chainHead b c leaf (some ca) := by
  rw [readIntermediate,fst_bind_eq_ok,Prod.exists]
  constructor
  · rintro ⟨cert,next,entry,judged⟩
    dsimp only at judged
    split at judged
    · cases judged
    rename_i whole
    obtain ⟨parsed,accepted,returned⟩ := fst_bind_eq_ok.mp judged
    cases returned
    obtain ⟨nextLive,ca,admitted,rfl,framed,rfl⟩ :=
      (entry_parsed live).mp ⟨fst_quietly_eq_ok.mp entry,accepted⟩
    have nothing : next.rest = [] := (rbLeft_eq_zero nextLive).mp (not_not.mp whole)
    rw [nothing,append_nil] at framed
    exact ⟨ca,admitted,framed,rfl⟩
  · rintro ⟨ca,admitted,framed,rfl⟩
    have parsed := fun later => (@entry_parsed b c r ⟨[],false⟩ (ca.encode b.pin) true false
      (ca.parsed b c false) later live).mpr ⟨rfl,ca,admitted,rfl,by rw [framed,append_nil],rfl⟩
    refine ⟨_,_,fst_quietly_eq_ok.mpr (parsed 0).1,?_⟩
    dsimp only
    rw [if_neg (by simp)]
    exact fst_bind_eq_ok.mpr ⟨_,(parsed _).2,rfl⟩

/-- The head of the chain is the leaf or one admitted CA. -/
theorem findHead_eq_ok {r : Rbuf} (live : r.err = false) (leaf : CertFields) (head : ChainHead)
    (alert : Nat) :
    (findHead b c (leaf.parsed b c true) r alert).1 = .ok head ↔
      ∃ issuer : Option CertFields, r.rest = issuer.elim [] (fun ca => entryOf (ca.encode b.pin)) ∧
        (∀ ca, issuer = some ca → ca.Admitted b true) ∧ head = chainHead b c leaf issuer := by
  rw [Option.exists,findHead]
  by_cases more : rbLeft r = 0
  · have nothing := (rbLeft_eq_zero live).mp more
    rw [if_neg (not_not.mpr more),nothing]
    constructor
    · intro returned
      cases returned
      refine .inl ⟨rfl,?_,rfl⟩
      intro ca same
      cases same
    · rintro (⟨-,-,rfl⟩ | ⟨ca,empty,-⟩)
      · rfl
      · cases empty
  · have rest := mt (rbLeft_eq_zero live).mpr more
    rw [if_pos more,readIntermediate_eq_ok live leaf]
    constructor
    · rintro ⟨ca,admitted,framed,rfl⟩
      refine .inr ⟨ca,framed,?_,rfl⟩
      intro other same
      cases same
      exact admitted
    · rintro (⟨empty,-⟩ | ⟨ca,framed,admitted,rfl⟩)
      · exact absurd empty rest
      · exact ⟨ca,admitted ca rfl,framed,rfl⟩

/-- The slot names the first pin whose key signed the last certificate. -/
theorem pinSlot_eq (first : Bytes) (second : Option Bytes) (leaf : CertFields)
    (issuer : Option CertFields) (slot : Nat) :
    (pinSlot b c (some first) second (chainHead b c leaf issuer) = slot ∧ slot ≠ 0) ↔
      FirstPin b c first second (issuer.getD leaf) slot := by
  by_cases vouched : (issuer.getD leaf).SignedBy b c first
  · have one : pinSlot b c (some first) second (chainHead b c leaf issuer) = 1 := if_pos vouched
    rw [one]
    constructor
    · rintro ⟨rfl,-⟩
      exact .first vouched
    · intro pin
      cases pin with
      | first _ => exact ⟨rfl,by decide⟩
      | second refused _ _ => exact absurd vouched refused
  · cases second with
    | none =>
      have zero : pinSlot b c (some first) none (chainHead b c leaf issuer) = 0 := if_neg vouched
      rw [zero]
      constructor
      · rintro ⟨rfl,found⟩
        exact absurd rfl found
      · intro pin
        cases pin with
        | first vouchedThen => exact absurd vouchedThen vouched
        | second _ same _ => cases same
    | some key =>
      have later : pinSlot b c (some first) (some key) (chainHead b c leaf issuer) =
          if verifyOne b c key (chainHead b c leaf issuer).signedPart
            (chainHead b c leaf issuer).sig then 2 else 0 := if_neg vouched
      rw [later]
      constructor
      · rintro ⟨rfl,found⟩
        split
        · rename_i vouchedToo
          exact .second vouched rfl vouchedToo
        · rename_i refused
          exact absurd (if_neg refused) found
      · intro pin
        cases pin with
        | first vouchedThen => exact absurd vouchedThen vouched
        | second _ same vouchedToo =>
          cases same
          exact ⟨if_pos vouchedToo,by decide⟩

theorem epochOf_iff {notBefore : Bytes} (time : IsTime notBefore) (epoch : Nat) (stands : Bool) :
    EpochOf notBefore epoch stands ↔
      epoch = (epochIndex notBefore).getD 0 ∧ stands = (epochIndex notBefore).isSome := by
  constructor
  · intro reported
    cases reported with
    | epoch date =>
      rw [(epochIndex_eq_some time _).mpr ⟨_,_,_,date,rfl⟩]
      exact ⟨rfl,rfl⟩
    | none never =>
      rcases found : epochIndex notBefore with _ | epoch
      · exact ⟨rfl,rfl⟩
      · obtain ⟨year,month,day,date,-⟩ := (epochIndex_eq_some time epoch).mp found
        exact absurd date (never year month day)
  · rintro ⟨rfl,rfl⟩
    rcases found : epochIndex notBefore with _ | epoch
    · refine .none fun year month day date => ?_
      have stands := (epochIndex_eq_some time _).mpr ⟨year,month,day,date,rfl⟩
      rw [found] at stands
      cases stands
    · obtain ⟨year,month,day,date,rfl⟩ := (epochIndex_eq_some time epoch).mp found
      exact .epoch date

/-- A chain is trusted by its first pin, and the leaf by its issuer. -/
theorem judgeSignatures_eq_ok (first : Bytes) (second : Option Bytes) (leaf : CertFields)
    (issuer : Option CertFields) (info : X509LeafInfo) (alert : Nat) :
    (judgeSignatures b c (some first) second (leaf.parsed b c true) (chainHead b c leaf issuer)
        alert).1 = .ok info ↔
      FirstPin b c first second (issuer.getD leaf) info.caSlot ∧
        (∀ ca, issuer = some ca → leaf.SignedBy b c ca.key) ∧ info.key = leaf.key ∧
        info.epoch = (epochIndex leaf.notBefore).getD 0 ∧
        info.epochOk = (epochIndex leaf.notBefore).isSome := by
  have signed : ((chainHead b c leaf issuer).intKey.any fun key => !verifyOne b c key
      (leaf.parsed b c true).signedPart (leaf.parsed b c true).sig) = true ↔
        ¬ ∀ ca, issuer = some ca → leaf.SignedBy b c ca.key := by
    cases issuer with
    | none => simp [chainHead]
    | some ca => simp [chainHead,CertFields.SignedBy,CertFields.parsed]
  rw [← pinSlot_eq]
  by_cases none : pinSlot b c (some first) second (chainHead b c leaf issuer) = 0
  · rw [judgeSignatures,if_pos none]
    constructor
    · intro returned
      cases returned
    · rintro ⟨⟨same,found⟩,-⟩
      exact absurd (same.symm.trans none) found
  rw [judgeSignatures,if_neg none]
  by_cases vouched : ∀ ca, issuer = some ca → leaf.SignedBy b c ca.key
  · rw [if_neg (mt signed.mp (not_not.mpr vouched))]
    constructor
    · intro returned
      cases returned
      exact ⟨⟨rfl,none⟩,vouched,rfl,rfl,rfl⟩
    · rintro ⟨⟨slot,-⟩,-,key,epoch,stands⟩
      rcases info with ⟨_,_,_,_⟩
      cases key
      cases epoch
      cases stands
      cases slot
      rfl
  · rw [if_pos (signed.mpr vouched)]
    constructor
    · intro returned
      cases returned
    · rintro ⟨-,vouchedThen,-⟩
      exact absurd vouchedThen vouched

/-- A list is accepted exactly when it is a chain of the profile up to a pin. -/
theorem x509VerifyLeaf_eq_ok (b : X509Build) (c : CertCrypto) (list first : Bytes)
    (second : Option Bytes) (info : X509LeafInfo) (alert : Nat) :
    (x509VerifyLeaf b c list (some first) second alert).1 = .ok info ↔
      ∃ leaf issuer, ChainAccepted b c list first second leaf issuer info := by
  rw [x509VerifyLeaf,fst_bind_eq_ok,Prod.exists]
  constructor
  · rintro ⟨cert,r,entry,judged⟩
    obtain ⟨parsed,accepted,judged⟩ := fst_bind_eq_ok.mp judged
    obtain ⟨live,leaf,leafAdmitted,rfl,framed,rfl⟩ :=
      (entry_parsed rfl).mp ⟨fst_quietly_eq_ok.mp entry,accepted⟩
    obtain ⟨head,found,judged⟩ := fst_bind_eq_ok.mp judged
    obtain ⟨issuer,rest,issuerAdmitted,rfl⟩ := (findHead_eq_ok live leaf head _).mp found
    obtain ⟨pin,signed,key,epoch⟩ :=
      (judgeSignatures_eq_ok first second leaf issuer info _).mp judged
    refine ⟨leaf,issuer,?_,leafAdmitted,?_,pin,key,?_⟩
    · rw [← rest]
      exact framed
    · exact fun ca same => ⟨issuerAdmitted ca same,signed ca same⟩
    · exact (epochOf_iff leafAdmitted.profile.notBefore _ _).mpr epoch
  · rintro ⟨leaf,issuer,framed,leafAdmitted,issuerAdmitted,pin,key,epoch⟩
    have entry := fun later => (@entry_parsed b c (rbInit list)
      ⟨issuer.elim [] fun ca => entryOf (ca.encode b.pin),false⟩ (leaf.encode b.pin) false true
      (leaf.parsed b c true) later rfl).mpr ⟨rfl,leaf,leafAdmitted,rfl,framed,rfl⟩
    refine ⟨_,_,fst_quietly_eq_ok.mpr (entry 0).1,?_⟩
    refine fst_bind_eq_ok.mpr ⟨_,(entry _).2,?_⟩
    refine fst_bind_eq_ok.mpr ⟨_,(findHead_eq_ok rfl leaf _ _).mpr
      ⟨issuer,rfl,fun ca same => (issuerAdmitted ca same).1,rfl⟩,?_⟩
    refine (judgeSignatures_eq_ok first second leaf issuer info _).mpr ⟨pin,?_,key,?_⟩
    · exact fun ca same => (issuerAdmitted ca same).2
    · exact (epochOf_iff leafAdmitted.profile.notBefore _ _).mp epoch

end Chains

end Chapulin
