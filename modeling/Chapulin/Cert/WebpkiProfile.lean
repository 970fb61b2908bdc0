/-
The certificates the web PKI mode accepts.

A certificate is given by its fields, each as the value its element encodes, and the
profile says which fields a leaf and an issuer may hold.  `webpki_parse_certificate`
is related to that profile in both directions, extension by extension.
-/

import Mathlib.Data.List.Nodup
import Chapulin.Cert.Profile
import Chapulin.Cert.Signed
import Chapulin.Cert.WebpkiTime

namespace Chapulin

open Lib Lib.Der List

variable {value : Bytes} {xs : List X509Extension} {alert seconds : Nat} {α β : Type}
    {known : WebpkiExt} {next out : WebpkiExtensions} {x : X509Extension}

/-! ### Slices and tables -/

theorem reads_name :
    Reads readName (fun name front => name = front ∧ ∃ content : Bytes, content.length < 65536 ∧
      front = tlv 0x30 content) := by
  refine (reads_element_slice 0x30).congr fun name front => ?_
  constructor
  · rintro ⟨content,small,whole,same⟩
    exact ⟨same,content,small,whole⟩
  · rintro ⟨same,content,small,whole⟩
    exact ⟨content,small,whole,same⟩

def Distinct {κ : Type} (table : List (κ × Bytes)) : Prop :=
  table.Pairwise fun row later => ¬ row.2 <+: later.2 ∧ ¬ later.2 <+: row.2

/-- With no entry a prefix of another, the one that matches is unique. -/
theorem reads_firstExact {κ : Type} {table : List (κ × Bytes)} (distinct : Distinct table) :
    Reads (readFirstExact table) (fun name front => (name, front) ∈ table) := by
  induction table with
  | nil =>
    intro bytes name next
    simp [readFirstExact]
  | cons row table ih =>
    rcases row with ⟨first,der⟩
    obtain ⟨apart,distinctRest⟩ := pairwise_cons.mp distinct
    intro bytes name next
    have later := ih distinctRest bytes name next
    rw [readFirstExact]
    rcases took : x509ReadExact der ⟨bytes,false⟩ with _ | ⟨_,r⟩
    · dsimp only
      rw [later]
      constructor
      · rintro ⟨live,front,among,same⟩
        exact ⟨live,front,mem_cons_of_mem _ among,same⟩
      · rintro ⟨live,front,among,same⟩
        refine ⟨live,front,?_,same⟩
        rcases mem_cons.mp among with here | among
        · cases here
          rw [(reads_exact der bytes () next).mpr ⟨live,der,rfl,same⟩] at took
          cases took
        · exact among
    · obtain ⟨live,_,rfl,begins⟩ := (reads_exact der bytes () r).mp took
      dsimp only
      constructor
      · intro same
        cases same
        exact ⟨live,_,mem_cons_self,begins⟩
      · rintro ⟨nextLive,front,among,same⟩
        rcases mem_cons.mp among with here | among
        · cases here
          rcases r with ⟨rest,err⟩
          rcases next with ⟨after,nextErr⟩
          cases live
          cases nextLive
          rw [begins] at same
          cases append_cancel_left same
          rfl
        · exfalso
          have firstBegins : _ <+: bytes := ⟨r.rest,begins.symm⟩
          have laterBegins : front <+: bytes := ⟨next.rest,same.symm⟩
          rcases prefix_or_prefix_of_prefix firstBegins laterBegins with before | after
          · exact (apart _ among).1 before
          · exact (apart _ among).2 after

/-! ### Keys and signature algorithms -/

def WebpkiKeyAlg.der (alg : WebpkiKeyAlg) : Bytes := (keyAlgorithms.lookup alg).getD []

def WebpkiSigalg.der (sigalg : WebpkiSigalg) : Bytes := (signatureAlgorithms.lookup sigalg).getD []

theorem keyAlgorithms_mem {alg : WebpkiKeyAlg} {der : Bytes} :
    (alg, der) ∈ keyAlgorithms ↔ der = alg.der := by
  cases alg <;> simp only [keyAlgorithms,mem_cons,Prod.mk.injEq,reduceCtorEq,true_and,false_and,
    false_or,or_false,not_mem_nil] <;> exact Iff.rfl

theorem signatureAlgorithms_mem {sigalg : WebpkiSigalg} {der : Bytes} :
    (sigalg, der) ∈ signatureAlgorithms ↔ der = sigalg.der := by
  cases sigalg <;> simp only [signatureAlgorithms,mem_cons,Prod.mk.injEq,reduceCtorEq,true_and,
    false_and,false_or,or_false,not_mem_nil] <;> exact Iff.rfl

theorem reads_webpkiSigalg :
    Reads webpkiReadSigalg (fun sigalg front => True ∧ front = sigalg.der) := by
  have distinct : Distinct signatureAlgorithms := by
    unfold Distinct
    decide
  refine (reads_firstExact distinct).congr fun sigalg front => ?_
  rw [signatureAlgorithms_mem,true_and]

namespace WebpkiSpki

/-- The keys the mode supports: an odd RSA modulus of 2048 to 4096 bits with its top
bit set, or the two coordinates of a point. -/
def Supported (spki : WebpkiSpki) : Prop :=
  match spki.alg with
  | .rsa => RsaModulus webpkiModulusMax spki.key
  | .p256 => spki.key.length = 2 * 32
  | .p384 => spki.key.length = 2 * 48

def bits (spki : WebpkiSpki) : Bytes :=
  match spki.alg with
  | .rsa => tlv 0x30 (tlv 0x02 (0 :: spki.key) ++ spkiExponent)
  | .p256 | .p384 => 0x04 :: spki.key

def encode (spki : WebpkiSpki) : Bytes :=
  tlv 0x30 (spki.alg.der ++ tlv 0x03 (0 :: spki.bits))

theorem bits_length_le {spki : WebpkiSpki} (supported : spki.Supported) :
    spki.bits.length ≤ 1024 := by
  rcases spki with ⟨alg,key⟩
  cases alg with
  | rsa =>
    have short := RsaModulus.length supported
    have inner := rsaKey_length_le key
    have outer := tlv_length_le 0x30 (tlv 0x02 (0 :: key) ++ spkiExponent)
    simp only [webpkiModulusMax] at short
    simp only [bits]
    omega
  | p256 =>
    have length : key.length = 2 * 32 := supported
    simp only [bits,length_cons,length]
    omega
  | p384 =>
    have length : key.length = 2 * 48 := supported
    simp only [bits,length_cons,length]
    omega

end WebpkiSpki

theorem webpkiKey_eq_some {alg : WebpkiKeyAlg} {bits : Bytes} {spki : WebpkiSpki} :
    webpkiKey alg bits = some spki ↔ spki.alg = alg ∧ spki.Supported ∧ bits = spki.bits := by
  -- each algorithm names the key it has read and nothing else
  have named : ∀ (read : Option Bytes) (named : WebpkiKeyAlg),
      read.map (WebpkiSpki.mk named) = some spki ↔ spki.alg = named ∧ read = some spki.key := by
    intro read named
    rcases spki with ⟨found,key⟩
    cases read with
    | none => simp
    | some value =>
      simp only [Option.map_some,Option.some.injEq,WebpkiSpki.mk.injEq]
      exact and_congr_left' eq_comm
  cases alg with
  | rsa =>
    rw [webpkiKey,named,readRsaKey_eq_some]
    refine and_congr_right fun same => ?_
    rw [WebpkiSpki.Supported,WebpkiSpki.bits,same]
    constructor
    · rintro ⟨content,-,⟨modulus,rfl⟩,rfl⟩
      exact ⟨modulus,rfl⟩
    · rintro ⟨modulus,rfl⟩
      have short := RsaModulus.length modulus
      have inner := rsaKey_length_le spki.key
      simp only [webpkiModulusMax] at short
      exact ⟨_,by omega,⟨modulus,rfl⟩,rfl⟩
  | p256 =>
    rw [webpkiKey,named,readEcPoint_eq_some]
    refine and_congr_right fun same => ?_
    rw [WebpkiSpki.Supported,WebpkiSpki.bits,same]
  | p384 =>
    rw [webpkiKey,named,readEcPoint_eq_some]
    refine and_congr_right fun same => ?_
    rw [WebpkiSpki.Supported,WebpkiSpki.bits,same]

theorem reads_webpkiSpki :
    Reads webpkiReadSpki (fun spki front => spki.Supported ∧ front = spki.encode) := by
  have distinct : Distinct keyAlgorithms := by
    unfold Distinct
    decide
  have inside : ∀ body algorithm, readWhole (do
      let alg ← readFirstExact keyAlgorithms
      let bits ← x509ReadBitstring
      pure (alg, bits)) body = some algorithm ↔
        algorithm.2.length + 1 < 65536 ∧ body = algorithm.1.der ++ tlv 0x03 (0 :: algorithm.2) := by
    rintro body ⟨alg,bits⟩
    rw [readWhole_eq_some ((reads_firstExact distinct).bind fun alg =>
      reads_bitstring.map fun bits => (alg, bits))]
    simp only [keyAlgorithms_mem]
    constructor
    · rintro ⟨_,_,_,rfl,⟨_,⟨small,rfl⟩,same⟩,rfl⟩
      cases same
      exact ⟨small,rfl⟩
    · rintro ⟨small,rfl⟩
      exact ⟨alg,_,_,rfl,⟨bits,⟨small,rfl⟩,rfl⟩,rfl⟩
  have reads := (reads_element 0x30).bind fun body =>
    (reads_lift (readWhole (do
      let alg ← readFirstExact keyAlgorithms
      let bits ← x509ReadBitstring
      pure (alg, bits)) body)).bind fun algorithm => reads_lift (webpkiKey algorithm.1 algorithm.2)
  refine Reads.congr reads fun spki front => ?_
  simp only [inside,webpkiKey_eq_some]
  constructor
  · rintro ⟨_,_,_,⟨-,rfl⟩,⟨⟨alg,bits⟩,_,_,⟨⟨-,rfl⟩,rfl⟩,⟨⟨rfl,supported,same⟩,rfl⟩,rfl⟩,rfl⟩
    dsimp only at same ⊢
    subst same
    exact ⟨supported,by simp [WebpkiSpki.encode]⟩
  · rintro ⟨supported,rfl⟩
    have short := WebpkiSpki.bits_length_le supported
    have inner := tlv_length_le 0x03 (0 :: spki.bits)
    have algid : spki.alg.der.length ≤ 21 := by
      cases spki.alg <;> decide
    rw [length_cons] at inner
    refine ⟨_,_,[],⟨?_,rfl⟩,⟨(spki.alg, spki.bits),[],[],⟨⟨by dsimp only; omega,rfl⟩,rfl⟩,
      ⟨⟨rfl,supported,rfl⟩,rfl⟩,rfl⟩,by simp [WebpkiSpki.encode]⟩
    rw [length_append]
    dsimp only
    omega

/-! ### Values of extensions -/

theorem reads_purpose :
    Reads readPurpose (fun serves front => ∃ oid : Bytes, (oid ≠ [] ∧ oid.length < 65536) ∧
      front = tlv 0x06 oid ∧ serves = (oid == oidServerAuth)) := by
  have reads : Reads readPurpose _ := reads_content fun oid => reads_pure (oid == oidServerAuth)
  refine reads.congr fun serves front => ?_
  constructor
  · rintro ⟨oid,right,small,⟨filled,rfl,rfl⟩,rfl⟩
    exact ⟨oid,⟨fun empty => filled (by rw [empty]; rfl),small⟩,append_nil _,rfl⟩
  · rintro ⟨oid,⟨filled,small⟩,rfl,rfl⟩
    exact ⟨oid,[],small,⟨fun empty => filled (length_eq_zero_iff.mp empty),rfl,rfl⟩,
      (append_nil _).symm⟩

structure PurposeList (purposes : List Bytes) (value : Bytes) : Prop where
  some : purposes ≠ []
  named : ∀ purpose ∈ purposes, purpose ≠ []
  small : (purposes.flatMap (tlv 0x06)).length < 65536
  encoded : value = tlv 0x30 (purposes.flatMap (tlv 0x06))

theorem purpose_length_lt {purposes : List Bytes} {purpose : Bytes} (among : purpose ∈ purposes) :
    purpose.length < (purposes.flatMap (tlv 0x06)).length := by
  have longer := tlv_length_lt 0x06 purpose
  have inner := (sublist_flatten_of_mem (mem_map_of_mem (f := tlv 0x06) among)).length_le
  rw [← flatMap_def] at inner
  omega

/-- The purposes of a certificate, each told from serverAuth. -/
theorem readPurposes_eq_some {serves : List Bool} :
    readWhole (do
        readExtensionsHead
        readMany readPurpose) value = some serves ↔
      ∃ purposes, PurposeList purposes value ∧ serves = purposes.map (· == oidServerAuth) := by
  have progress :
      ∀ (serves : Bool) (front : Bytes), (∃ oid : Bytes, (oid ≠ [] ∧ oid.length < 65536) ∧
      front = tlv 0x06 oid ∧ serves = (oid == oidServerAuth)) → front ≠ [] := by
    rintro _ _ ⟨oid,-,rfl,-⟩
    exact cons_ne_nil _ _
  have whole := fun content => readWhole_many reads_purpose progress content serves
  simp only [forall₂_entries] at whole
  constructor
  · intro returned
    rcases head : readExtensionsHead (rbInit value) with _ | ⟨_,⟨content,err⟩⟩
    · rw [readWhole_of_none head] at returned
      cases returned
    obtain ⟨live,nonempty,small,rfl⟩ := readExtensionsHead_eq_some.mp head
    cases live
    rw [readWhole_of_step head] at returned
    obtain ⟨_,⟨purposes,named,rfl,rfl⟩,rfl⟩ := (whole content).mp returned
    rw [← flatMap_def] at nonempty small ⊢
    refine ⟨purposes,⟨?_,fun purpose among => (named purpose among).1,small,rfl⟩,rfl⟩
    rintro rfl
    exact nonempty rfl
  · rintro ⟨purposes,⟨filled,named,small,rfl⟩,rfl⟩
    have nonempty : purposes.flatMap (tlv 0x06) ≠ [] := by
      obtain ⟨first,rest,rfl⟩ := exists_cons_of_ne_nil filled
      exact cons_ne_nil _ _
    have head := readExtensionsHead_eq_some.mpr (⟨rfl,nonempty,small,rfl⟩ :
      (⟨purposes.flatMap (tlv 0x06),false⟩ : Rbuf).err = false ∧ _)
    rw [readWhole_of_step head,whole]
    exact ⟨_,⟨purposes,fun purpose among => ⟨named purpose among,
      Nat.lt_trans (purpose_length_lt among) small⟩,rfl,rfl⟩,flatMap_def ..⟩

theorem readExtKeyUsage_eq_some {serves : Bool} :
    readExtKeyUsage value = some serves ↔
      ∃ purposes, PurposeList purposes value ∧ serves = decide (oidServerAuth ∈ purposes) := by
  have named : ∀ purposes : List Bytes,
      (purposes.map (· == oidServerAuth)).any id = decide (oidServerAuth ∈ purposes) := by
    intro purposes
    rw [any_map,Bool.eq_iff_iff,any_eq_true,decide_eq_true_eq]
    simp
  rw [readExtKeyUsage,Option.map_eq_some_iff]
  constructor
  · rintro ⟨found,returned,rfl⟩
    obtain ⟨purposes,listed,rfl⟩ := readPurposes_eq_some.mp returned
    exact ⟨purposes,listed,named purposes⟩
  · rintro ⟨purposes,listed,rfl⟩
    exact ⟨_,readPurposes_eq_some.mpr ⟨purposes,listed,rfl⟩,named purposes⟩

def pathLenContent (n : Nat) : Bytes := if n < 128 then [byte n] else be16 n

def pathLenDer : Option Nat → Bytes
  | none => []
  | some n => tlv 0x02 (pathLenContent n)

def caDer (ca : Bool) : Bytes := if ca then [0x01,0x01,0xff] else []

/-- The value of basicConstraints: cA stands where it is true, and a path length of at
most two octets where there is one. -/
structure ConstraintsValue (ca : Bool) (pathLen : Option Nat) (value : Bytes) : Prop where
  bounded : ∀ n ∈ pathLen, n < 32768
  encoded : value = tlv 0x30 (caDer ca ++ pathLenDer pathLen)

theorem pathLenContent_length_le (n : Nat) : (pathLenContent n).length ≤ 2 := by
  rw [pathLenContent]
  split
  · exact Nat.le_succ 1
  · exact Nat.le_refl 2

theorem pathLenDer_length_le (pathLen : Option Nat) : (pathLenDer pathLen).length ≤ 6 := by
  cases pathLen with
  | none => exact Nat.zero_le _
  | some n =>
    have content := pathLenContent_length_le n
    have whole := tlv_length_le 0x02 (pathLenContent n)
    rw [pathLenDer]
    omega

theorem pathLen_octet {a : UInt8} {n : Nat} :
    ¬ a.toNat ≥ 0x80 ∧ n = a.toNat ↔ n < 32768 ∧ [a] = pathLenContent n := by
  rw [pathLenContent]
  constructor
  · rintro ⟨sign,rfl⟩
    have short : a.toNat < 128 := by omega
    exact ⟨by omega,by rw [if_pos short,byte_of_toNat]⟩
  · rintro ⟨-,same⟩
    split at same
    · rename_i short
      cases same
      rw [byte_toNat]
      omega
    · cases same

theorem pathLen_octets {a b : UInt8} {n : Nat} :
    ¬ a.toNat ≥ 0x80 ∧ ¬ (a.toNat = 0 ∧ b.toNat < 0x80) ∧ n = ofBe16 a b ↔
      n < 32768 ∧ [a,b] = pathLenContent n := by
  have second : b.toNat < 256 := b.toNat_lt
  rw [pathLenContent]
  constructor
  · rintro ⟨sign,needed,rfl⟩
    have long : ¬ ofBe16 a b < 128 := by
      rw [ofBe16]
      omega
    refine ⟨by rw [ofBe16]; omega,?_⟩
    rw [if_neg long,be16_ofBe16]
  · rintro ⟨bounded,same⟩
    split at same
    · cases same
    · rename_i long
      cases same
      have high : (byte (n / 256)).toNat = n / 256 := by
        rw [byte_toNat]
        omega
      have low := byte_toNat n
      refine ⟨by omega,by omega,(ofBe16_byte n (by omega)).symm⟩

theorem reads_pathLenValue (len : Nat) (c : Bytes) :
    Reads (if len = 1 then pure (c.getD 0 0).toNat
        else if (c.getD 0 0).toNat = 0 ∧ (c.getD 1 0).toNat < 0x80 then failure
        else pure ((c.getD 0 0).toNat * 256 + (c.getD 1 0).toNat) : DerReader Nat)
      (fun n front => front = [] ∧ (len = 1 ∧ n = (c.getD 0 0).toNat ∨
        len ≠ 1 ∧ ¬ ((c.getD 0 0).toNat = 0 ∧ (c.getD 1 0).toNat < 0x80) ∧
          n = ofBe16 (c.getD 0 0) (c.getD 1 0))) := by
  by_cases one : len = 1
  · rw [if_pos one]
    refine (reads_pure _).congr fun n front => ?_
    simp only [one,true_and,ne_eq,not_true,false_and,or_false,and_comm]
  · rw [if_neg one]
    refine (Reads.refuse fun _ => reads_pure _).congr fun n front => ?_
    simp only [one,false_and,false_or,ne_eq,not_false_eq_true,true_and,ofBe16]
    constructor
    · rintro ⟨needed,same,rfl⟩
      exact ⟨rfl,needed,same⟩
    · rintro ⟨rfl,needed,same⟩
      exact ⟨needed,same,rfl⟩

theorem reads_pathLen :
    Reads readPathLen (fun n front => n < 32768 ∧ front = tlv 0x02 (pathLenContent n)) := by
  have inside : ∀ len : Nat, Reads (if len = 0 ∨ len > 2 then failure else rbTake len >>= fun c =>
      if (c.getD 0 0).toNat ≥ 0x80 then failure
      else if len = 1 then pure (c.getD 0 0).toNat
      else if (c.getD 0 0).toNat = 0 ∧ (c.getD 1 0).toNat < 0x80 then failure
      else pure ((c.getD 0 0).toNat * 256 + (c.getD 1 0).toNat)) (fun n front =>
        ∃ content right, content.length = len ∧
          (right = [] ∧ n < 32768 ∧ content = pathLenContent n) ∧
          front = content ++ right) := by
    intro len
    refine (Reads.refuse fun _ => (reads_take len).bind fun c =>
      Reads.refuse fun _ => reads_pathLenValue len c).congr fun n front => ?_
    constructor
    · rintro ⟨admitted,content,_,_,⟨rfl,rfl⟩,⟨sign,rfl,form⟩,rfl⟩
      refine ⟨content,[],rfl,⟨rfl,?_⟩,rfl⟩
      rcases form with ⟨one,same⟩ | ⟨notOne,needed,same⟩
      · obtain ⟨a,rfl⟩ := length_eq_one_iff.mp one
        exact pathLen_octet.mp ⟨sign,same⟩
      · have two : content.length = 2 := by omega
        obtain ⟨a,b,rfl⟩ := length_eq_two.mp two
        exact pathLen_octets.mp ⟨sign,needed,same⟩
    · rintro ⟨content,_,rfl,⟨rfl,bounded,same⟩,rfl⟩
      by_cases short : n < 128
      · have one : content = [byte n] := by rw [same,pathLenContent,if_pos short]
        subst one
        obtain ⟨sign,value⟩ := pathLen_octet.mpr ⟨bounded,same⟩
        exact ⟨by simp,_,_,[],⟨rfl,rfl⟩,⟨sign,rfl,.inl ⟨rfl,value⟩⟩,rfl⟩
      · have two : content = [byte (n / 256),byte n] := by
          rw [same,pathLenContent,if_neg short,be16]
        subst two
        obtain ⟨sign,needed,value⟩ := pathLen_octets.mpr ⟨bounded,same⟩
        exact ⟨by simp,_,_,[],⟨rfl,rfl⟩,⟨sign,rfl,.inr ⟨by simp,needed,value⟩⟩,rfl⟩
  have reads : Reads readPathLen _ := reads_header inside
  refine reads.congr fun n front => ?_
  constructor
  · rintro ⟨content,right,-,⟨rfl,bounded,rfl⟩,rfl⟩
    exact ⟨bounded,append_nil _⟩
  · rintro ⟨bounded,rfl⟩
    have short := pathLenContent_length_le n
    exact ⟨_,[],by omega,⟨rfl,bounded,rfl⟩,(append_nil _).symm⟩

theorem readsWhole_pathLenConstraint :
    ReadsWhole readPathLenConstraint (fun pathLen bytes => (∀ n ∈ pathLen, n < 32768) ∧
      bytes = pathLenDer pathLen) := by
  intro bytes pathLen
  cases bytes with
  | nil =>
    have absent : readWhole readPathLenConstraint [] = some none := rfl
    rw [absent]
    cases pathLen with
    | none => simp [pathLenDer]
    | some n => simp [pathLenDer,tlv]
  | cons octet rest =>
    have present : readWhole readPathLenConstraint (octet :: rest) =
        (readWhole readPathLen (octet :: rest)).map some := by
      have more : rbLeft (rbInit (octet :: rest)) > 0 := by
        rw [rbInit,rbLeft_live]
        exact Nat.zero_lt_succ _
      rw [readWhole,readWhole,readPathLenConstraint,if_pos more]
      rcases readPathLen (rbInit (octet :: rest)) with _ | ⟨n,r⟩
      · rfl
      · dsimp only
        split
        · rfl
        · rfl
    rw [present,Option.map_eq_some_iff]
    simp only [readWhole_eq_some reads_pathLen]
    constructor
    · rintro ⟨n,⟨bounded,same⟩,rfl⟩
      exact ⟨by simpa using bounded,same⟩
    · rintro ⟨bounded,same⟩
      cases pathLen with
      | none => cases same
      | some n => exact ⟨n,⟨bounded n rfl,same⟩,rfl⟩

theorem pathLenDer_head (pathLen : Option Nat) : (pathLenDer pathLen).head? ≠ some 0x01 := by
  cases pathLen <;> simp [pathLenDer,tlv]

theorem readCa_absent {bytes : Bytes} (other : bytes.head? ≠ some 0x01) :
    readCa ⟨bytes,false⟩ = some (false, ⟨bytes,false⟩) := by
  cases bytes with
  | nil => rfl
  | cons octet rest =>
    have differs : ¬ octet.toNat = 1 := by
      intro same
      exact other (congrArg some (UInt8.toNat_inj.mp same))
    simp [readCa,differs]

theorem readCa_present {bytes : Bytes} (headed : bytes.head? = some 0x01) {ca : Bool}
    {next : Rbuf} : readCa ⟨bytes,false⟩ = some (ca, next) ↔ ca = true ∧ next.err = false ∧
      bytes = caDer true ++ next.rest := by
  cases bytes with
  | nil => cases headed
  | cons octet rest =>
    cases headed
    have taken := reads_exact (caDer true) (0x01 :: rest) ()
    have shape : readCa ⟨0x01 :: rest,false⟩ =
        (x509ReadExact (caDer true) ⟨0x01 :: rest,false⟩).map fun pair => (true, pair.2) := by
      have tagged : (decide (rbLeft ⟨0x01 :: rest,false⟩ > 0) &&
          (rbU8 ⟨0x01 :: rest,false⟩).1 == 0x01) = true := by simp
      have spelled : caDer true = [0x01,0x01,0xff] := rfl
      rw [readCa,if_pos tagged,spelled]
      cases x509ReadExact [0x01,0x01,0xff] ⟨0x01 :: rest,false⟩ <;> rfl
    rw [shape,Option.map_eq_some_iff]
    constructor
    · rintro ⟨⟨_,r⟩,took,same⟩
      cases same
      obtain ⟨live,_,rfl,begins⟩ := (taken r).mp took
      exact ⟨rfl,live,begins⟩
    · rintro ⟨rfl,live,begins⟩
      exact ⟨((), next),(taken next).mpr ⟨live,_,rfl,begins⟩,rfl⟩

theorem readsWhole_constraints :
    ReadsWhole (do
        let ca ← readCa
        let pathLen ← readPathLenConstraint
        pure (ca, pathLen))
      (fun out bytes => (∀ n ∈ out.2, n < 32768) ∧ bytes = caDer out.1 ++ pathLenDer out.2) := by
  rintro bytes ⟨ca,pathLen⟩
  have behind := fun ca : Bool => readsWhole_pathLenConstraint.map (Prod.mk ca)
  by_cases headed : bytes.head? = some 0x01
  · rcases took : readCa ⟨bytes,false⟩ with _ | ⟨flag,⟨rest,err⟩⟩
    · rw [readWhole_of_none took]
      constructor
      · intro impossible
        cases impossible
      · rintro ⟨bounded,rfl⟩
        cases ca with
        | false => exact absurd headed (pathLenDer_head pathLen)
        | true =>
          rw [(@readCa_present _ headed true ⟨pathLenDer pathLen,false⟩).mpr ⟨rfl,rfl,rfl⟩] at took
          cases took
    · obtain ⟨rfl,live,rfl⟩ := (readCa_present headed).mp took
      cases live
      rw [readWhole_of_step took,behind true rest (ca, pathLen)]
      constructor
      · rintro ⟨_,⟨bounded,rfl⟩,same⟩
        cases same
        exact ⟨bounded,rfl⟩
      · rintro ⟨bounded,same⟩
        cases ca with
        | false =>
          have bare : caDer true ++ rest = pathLenDer pathLen := same
          exact absurd (bare ▸ headed) (pathLenDer_head pathLen)
        | true => exact ⟨pathLen,⟨bounded,append_cancel_left same⟩,rfl⟩
  · rw [readWhole_of_step (readCa_absent headed),behind false bytes (ca, pathLen)]
    constructor
    · rintro ⟨_,⟨bounded,rfl⟩,same⟩
      cases same
      exact ⟨bounded,rfl⟩
    · rintro ⟨bounded,rfl⟩
      cases ca with
      | false => exact ⟨pathLen,⟨bounded,rfl⟩,rfl⟩
      | true => exact absurd rfl headed

theorem readBasicConstraints_eq_some {ca : Bool} {pathLen : Option Nat} :
    readBasicConstraints value = some (ca, pathLen) ↔ ConstraintsValue ca pathLen value := by
  have whole := (readsWhole_constraints.filling 0x30) value (ca, pathLen)
  rw [readBasicConstraints]
  refine whole.trans ⟨?_,?_⟩
  · rintro ⟨_,-,⟨bounded,rfl⟩,rfl⟩
    exact ⟨bounded,rfl⟩
  · rintro ⟨bounded,rfl⟩
    have flag : (caDer ca).length ≤ 3 := by
      cases ca <;> decide
    have short := pathLenDer_length_le pathLen
    refine ⟨_,?_,⟨bounded,rfl⟩,rfl⟩
    rw [length_append]
    dsimp only
    omega

/-! ### One extension -/

namespace WebpkiExt

def oid : WebpkiExt → Bytes
  | keyUsage => oidKeyUsage
  | extKeyUsage => oidExtKeyUsage
  | basicConstraints => oidBasicConstraints
  | san => oidSubjectAltName

/-- The values an arm admits.  A leaf signs handshakes, may authenticate a server and is
no authority; an issuer signs certificates and says in a critical extension that it is
one.  Only there may a path length stand. -/
def Admits (isCa : Bool) (x : X509Extension) : WebpkiExt → Prop
  | keyUsage => KeyUsage (if isCa then 0x04 else 0x80) x.value
  | extKeyUsage => isCa = false → ∃ purposes, PurposeList purposes x.value ∧
    oidServerAuth ∈ purposes
  | basicConstraints => (isCa = true → x.critical = true) ∧
      ∃ pathLen, (isCa = false → pathLen = none) ∧ ConstraintsValue isCa pathLen x.value
  | san => True

def note (isCa : Bool) (x : X509Extension) (out : WebpkiExtensions) : WebpkiExt → WebpkiExtensions
  | keyUsage | extKeyUsage => out
  | basicConstraints =>
    { out with isCa := isCa, pathLen := (readBasicConstraints x.value).bind (·.2) }
  | san => { out with san := x.value }

end WebpkiExt

open WebpkiExt

theorem extensionBit_eq_some {oid : Bytes} : extensionBit oid = some known ↔ oid = known.oid := by
  constructor
  · intro found
    unfold extensionBit at found
    split at found
    · cases found
      assumption
    split at found
    · cases found
      assumption
    split at found
    · cases found
      assumption
    split at found
    · cases found
      assumption
    · cases found
  · rintro rfl
    cases known <;> rfl

theorem extensionBit_eq_none {oid : Bytes} :
    extensionBit oid = none ↔ ∀ known : WebpkiExt, oid ≠ known.oid := by
  rw [Option.eq_none_iff_forall_ne_some]
  simp only [ne_eq,extensionBit_eq_some]

variable {isCa : Bool}

theorem judgeBasicConstraints_eq_ok :
    (judgeBasicConstraints x isCa out alert).1 = .ok next ↔
      WebpkiExt.basicConstraints.Admits isCa x ∧
        next = WebpkiExt.basicConstraints.note isCa x out := by
  unfold judgeBasicConstraints
  rcases read : readBasicConstraints x.value with _ | ⟨ca,pathLen⟩
  · constructor
    · intro impossible
      cases impossible
    · rintro ⟨⟨-,pathLen,-,value⟩,-⟩
      rw [readBasicConstraints_eq_some.mpr value] at read
      cases read
  · have value := readBasicConstraints_eq_some.mp read
    dsimp only
    rw [offProfile,fst_refused_or,fst_pure_eq_ok]
    simp only [Bool.or_eq_true,bne_iff_ne,Bool.and_eq_true,Bool.not_eq_true',not_or,not_and,
      WebpkiExt.Admits,WebpkiExt.note,read,Option.bind_some,ne_eq,not_not]
    constructor
    · rintro ⟨⟨⟨rfl,critical⟩,bare⟩,rfl⟩
      refine ⟨⟨fun authority => ?_,pathLen,fun leaf => ?_,value⟩,rfl⟩
      · simpa using critical authority
      · simpa using bare leaf
    · rintro ⟨⟨critical,other,bare,otherValue⟩,rfl⟩
      rw [readBasicConstraints_eq_some.mpr otherValue] at read
      cases read
      refine ⟨⟨⟨rfl,fun authority => ?_⟩,fun leaf => ?_⟩,rfl⟩
      · simpa using critical authority
      · simpa using bare leaf

/-- An extension is accepted exactly when its value is admitted. -/
theorem judgeExtension_eq_ok :
    (judgeExtension x known isCa out alert).1 = .ok next ↔
      known.Admits isCa x ∧ next = known.note isCa x out := by
  cases known with
  | keyUsage =>
    simp only [judgeExtension,WebpkiExt.Admits,WebpkiExt.note]
    rw [← x509ReadKeyusage_iff]
    cases x509ReadKeyusage x.value (if isCa then 0x04 else 0x80) with
    | true => simp [eq_comm]
    | false => simp [offProfile,refuseWith]
  | extKeyUsage =>
    simp only [judgeExtension,WebpkiExt.Admits,WebpkiExt.note]
    cases isCa with
    | true => simp [eq_comm]
    | false =>
      rcases read : readExtKeyUsage x.value with _ | serves
      · have malformed : ¬ ∃ purposes, PurposeList purposes x.value ∧ oidServerAuth ∈ purposes := by
          rintro ⟨purposes,listed,serves⟩
          rw [readExtKeyUsage_eq_some.mpr ⟨purposes,listed,rfl⟩] at read
          cases read
        simp [malformed]
      · have either : serves = true ↔
            ∃ purposes, PurposeList purposes x.value ∧ oidServerAuth ∈ purposes := by
          constructor
          · rintro rfl
            obtain ⟨purposes,listed,among⟩ := readExtKeyUsage_eq_some.mp read
            exact ⟨purposes,listed,of_decide_eq_true among.symm⟩
          · rintro ⟨purposes,listed,among⟩
            rw [readExtKeyUsage_eq_some.mpr ⟨purposes,listed,(decide_eq_true among).symm⟩] at read
            cases read
            rfl
        cases serves with
        | true => simp [← either,eq_comm]
        | false => simp [← either,offProfile,refuseWith]
  | basicConstraints => exact judgeBasicConstraints_eq_ok
  | san => simp [judgeExtension,WebpkiExt.Admits,WebpkiExt.note,eq_comm]

/-- `read_one_extension` on a decoded extension. -/
def takeWebpkiExtension (isCa : Bool) (out : WebpkiExtensions) (x : X509Extension) :
    Option WebpkiExtensions :=
  match extensionBit x.oid with
  | none => if x.critical then none else some out
  | some known =>
    if known ∈ out.seen then none
    else (judgeExtension x known isCa { out with seen := known :: out.seen } 0).1.toOption

theorem toOption_eq_some {ε : Type} {result : Except ε α} {value : α} :
    result.toOption = some value ↔ result = .ok value := by
  cases result <;> simp [Except.toOption]

theorem judges_webpkiExtension (isCa : Bool) (out : WebpkiExtensions) :
    Judges (readOneExtension isCa out) (fun next front => ∃ x : X509Extension,
      x.WellFormed webpkiExtTlvMax ∧ takeWebpkiExtension isCa out x = some next ∧
        front = x.encode) := by
  have refuses : Judges (fun _ => offProfile : CertReader WebpkiExtensions)
      (fun next front => none = some next ∧ front = []) := judges_refused fun _ _ => ⟨_,rfl⟩
  refine judges_extensionThen (by decide) fun x => ?_
  unfold takeWebpkiExtension
  rcases extensionBit x.oid with _ | known
  · dsimp only
    split
    · exact refuses
    · exact judges_accepted out
  · dsimp only
    split
    · exact refuses
    · refine judges_lift fun alert next => ?_
      rw [toOption_eq_some,judgeExtension_eq_ok,judgeExtension_eq_ok]

theorem extensionWalk_webpki (isCa : Bool) :
    ExtensionWalk webpkiExtTlvMax (readExtensionList isCa) (readOneExtension isCa)
      (takeWebpkiExtension isCa) where
  ended := by
    intro room state alert
    cases room <;> rfl
  full := fun state octet bytes alert => ⟨.eproto,rfl⟩
  more := fun room state octet bytes => rfl
  judges := judges_webpkiExtension isCa

/-! ### The list of extensions -/

/-- What one extension has to satisfy: a value the arm admits where its identifier is
recognised, and not critical where it is not. -/
structure WebpkiJudged (isCa : Bool) (x : X509Extension) : Prop where
  admitted : ∀ known : WebpkiExt, x.oid = known.oid → known.Admits isCa x
  uncritical : (∀ known : WebpkiExt, x.oid ≠ known.oid) → x.critical = false

def noted (isCa : Bool) (out : WebpkiExtensions) (x : X509Extension) : WebpkiExtensions :=
  match extensionBit x.oid with
  | none => out
  | some known => known.note isCa x { out with seen := known :: out.seen }

def recognised (xs : List X509Extension) : List WebpkiExt :=
  xs.filterMap fun x => extensionBit x.oid

theorem note_seen (isCa : Bool) (x : X509Extension) (out : WebpkiExtensions) (known : WebpkiExt) :
    (known.note isCa x out).seen = out.seen := by
  cases known <;> rfl

theorem takeWebpkiExtension_unknown (unknown : extensionBit x.oid = none) :
    takeWebpkiExtension isCa out x = some next ↔ WebpkiJudged isCa x ∧ next = noted isCa out x := by
  have apart := extensionBit_eq_none.mp unknown
  have judged : WebpkiJudged isCa x ↔ x.critical = false :=
    ⟨fun judged => judged.uncritical apart,
      fun uncritical => ⟨fun known same => absurd same (apart known),fun _ => uncritical⟩⟩
  simp only [takeWebpkiExtension,noted,unknown,judged]
  cases x.critical <;> simp [eq_comm]

theorem takeWebpkiExtension_known (found : extensionBit x.oid = some known) :
    takeWebpkiExtension isCa out x = some next ↔
      WebpkiJudged isCa x ∧ known ∉ out.seen ∧ next = noted isCa out x := by
  have named := extensionBit_eq_some.mp found
  have judged : WebpkiJudged isCa x ↔ known.Admits isCa x := by
    constructor
    · exact fun judged => judged.admitted known named
    · refine fun admitted => ⟨fun other same => ?_,fun apart => absurd named (apart known)⟩
      rw [extensionBit_eq_some.mpr same] at found
      cases found
      exact admitted
  simp only [takeWebpkiExtension,noted,found,judged]
  by_cases seen : known ∈ out.seen
  · simp [seen]
  · rw [if_neg seen,toOption_eq_some,judgeExtension_eq_ok]
    simp [seen]

theorem takesOnce_webpki (isCa : Bool) :
    TakesOnce (takeWebpkiExtension isCa) (WebpkiJudged isCa)
      (fun x (known : WebpkiExt) => x.oid = known.oid) (fun out known => known ∈ out.seen)
      (noted isCa) where
  takes := by
    intro out x next
    simp only [← extensionBit_eq_some]
    rcases found : extensionBit x.oid with _ | known
    · simp [takeWebpkiExtension_unknown found]
    · simp [takeWebpkiExtension_known found]
  holds := by
    intro out x known
    rw [← extensionBit_eq_some,noted]
    rcases extensionBit x.oid with _ | other
    · simp
    · simp [note_seen,or_comm,eq_comm]

theorem mem_recognised : known ∈ recognised xs ↔ ∃ x ∈ xs, x.oid = known.oid := by
  simp only [recognised,mem_filterMap,extensionBit_eq_some]

structure WebpkiExtensionProfile (isCa : Bool) (xs : List X509Extension) : Prop where
  some : xs ≠ []
  few : xs.length ≤ webpkiExtCountMax
  formed : ∀ x ∈ xs, x.WellFormed webpkiExtTlvMax
  judged : ∀ x ∈ xs, WebpkiJudged isCa x
  /-- No recognised extension stands twice. -/
  once : ∀ known : WebpkiExt, xs.countP (fun x => x.oid = known.oid) ≤ 1
  present : ∀ known ∈ extensionsRequired isCa, ∃ x ∈ xs, x.oid = known.oid

/-- The record of a list: the recognised extensions, the last one first, the arm's cA,
and the path length and the names from the extension that holds them. -/
structure ExtensionsReported (isCa : Bool) (xs : List X509Extension) (out : WebpkiExtensions) :
    Prop where
  seen : out.seen = (recognised xs).reverse
  authority : out.isCa = isCa
  pathLen : ∀ x ∈ xs, x.oid = oidBasicConstraints → ConstraintsValue isCa out.pathLen x.value
  noPathLen : (∀ x ∈ xs, x.oid ≠ oidBasicConstraints) → out.pathLen = none
  san : ∀ x ∈ xs, x.oid = oidSubjectAltName → out.san = x.value
  noSan : (∀ x ∈ xs, x.oid ≠ oidSubjectAltName) → out.san = []

theorem ConstraintsValue.unique {ca : Bool} {pathLen other : Option Nat} {value : Bytes}
    (constraints : ConstraintsValue ca pathLen value) (same : ConstraintsValue ca other value) :
    pathLen = other := by
  have first := readBasicConstraints_eq_some.mpr constraints
  rw [readBasicConstraints_eq_some.mpr same] at first
  cases first
  rfl

/-- A list of extensions determines the report on it. -/
theorem ExtensionsReported.unique {xs : List X509Extension}
    {out other : WebpkiExtensions} (reported : ExtensionsReported isCa xs out)
    (also : ExtensionsReported isCa xs other) : out = other := by
  have pathLen : out.pathLen = other.pathLen := by
    by_cases constrained : ∃ x ∈ xs, x.oid = oidBasicConstraints
    · obtain ⟨x,among,named⟩ := constrained
      exact (reported.pathLen x among named).unique (also.pathLen x among named)
    · simp only [not_exists,not_and] at constrained
      rw [reported.noPathLen constrained,also.noPathLen constrained]
  have san : out.san = other.san := by
    by_cases named : ∃ x ∈ xs, x.oid = oidSubjectAltName
    · obtain ⟨x,among,named⟩ := named
      rw [reported.san x among named,also.san x among named]
    · simp only [not_exists,not_and] at named
      rw [reported.noSan named,also.noSan named]
  have seen := reported.seen.trans also.seen.symm
  have authority := reported.authority.trans also.authority.symm
  rcases out with ⟨outSeen,outCa,outLen,outSan⟩
  rcases other with ⟨otherSeen,otherCa,otherLen,otherSan⟩
  cases seen
  cases authority
  cases pathLen
  cases san
  rfl

def nothingNoted : WebpkiExtensions := { seen := [], isCa := false, pathLen := none, san := [] }

section Noted

variable {isCa : Bool}

theorem foldl_noted_seen (xs : List X509Extension) (out : WebpkiExtensions) :
    (xs.foldl (noted isCa) out).seen = (recognised xs).reverse ++ out.seen := by
  induction xs generalizing out with
  | nil => rfl
  | cons x xs ih =>
    rw [foldl_cons,ih]
    rcases found : extensionBit x.oid with _ | known
    · simp only [recognised,filterMap_cons,found,noted]
    · simp only [recognised,filterMap_cons,found,noted,note_seen,reverse_cons,append_assoc,
        singleton_append]

def WrittenBy {β : Type} (isCa : Bool) (part : WebpkiExtensions → β) (known : WebpkiExt) : Prop :=
  ∀ x out, x.oid ≠ known.oid → part (noted isCa out x) = part out

variable {part : WebpkiExtensions → β}

theorem writtenBy_of_note (seen : ∀ out seen, part { out with seen := seen } = part out)
    (others : ∀ other x out, other ≠ known → part (other.note isCa x out) = part out) :
    WrittenBy isCa part known := by
  intro x out apart
  rw [noted]
  rcases found : extensionBit x.oid with _ | other
  · rfl
  · have differs : other ≠ known := by
      rintro rfl
      exact apart (extensionBit_eq_some.mp found)
    dsimp only
    rw [others other x _ differs,seen]

theorem foldl_noted_keeps (written : WrittenBy isCa part known) (out : WebpkiExtensions)
    (apart : ∀ x ∈ xs, x.oid ≠ known.oid) : part (xs.foldl (noted isCa) out) = part out :=
  foldl_keeps fun x among out => written x out (apart x among)

theorem foldl_noted_written {value : β} (written : WrittenBy isCa part known)
    (once : ∀ known : WebpkiExt, xs.countP (fun x => x.oid = known.oid) ≤ 1) (among : x ∈ xs)
    (named : x.oid = known.oid) (out : WebpkiExtensions)
    (writes : ∀ out, part (noted isCa out x) = value) : part (xs.foldl (noted isCa) out) = value :=
  foldl_writes among (countP_le_one.mp once) writes fun other apart out =>
    written other out (apart known named)

theorem written_constraints (isCa : Bool) :
    WrittenBy isCa (fun out => (out.isCa, out.pathLen)) .basicConstraints := by
  refine writtenBy_of_note (fun _ _ => rfl) fun other x out differs => ?_
  cases other with
  | basicConstraints => exact absurd rfl differs
  | keyUsage => rfl
  | extKeyUsage => rfl
  | san => rfl

theorem written_san (isCa : Bool) : WrittenBy isCa WebpkiExtensions.san .san := by
  refine writtenBy_of_note (fun _ _ => rfl) fun other x out differs => ?_
  cases other with
  | san => exact absurd rfl differs
  | keyUsage => rfl
  | extKeyUsage => rfl
  | basicConstraints => rfl

/-- The fold over the extensions makes the report. -/
theorem reported_foldl (profile : WebpkiExtensionProfile isCa xs) :
    ExtensionsReported isCa xs (xs.foldl (noted isCa) nothingNoted) := by
  have constrained : ∀ x ∈ xs, x.oid = oidBasicConstraints →
      (xs.foldl (noted isCa) nothingNoted).isCa = isCa ∧
        ConstraintsValue isCa (xs.foldl (noted isCa) nothingNoted).pathLen x.value := by
    intro x among named
    have found : extensionBit x.oid = some .basicConstraints := extensionBit_eq_some.mpr named
    obtain ⟨-,pathLen,-,value⟩ := (profile.judged x among).admitted .basicConstraints named
    have wrote : ((xs.foldl (noted isCa) nothingNoted).isCa,
        (xs.foldl (noted isCa) nothingNoted).pathLen) = (isCa, pathLen) :=
      foldl_noted_written (written_constraints isCa) profile.once among named nothingNoted
        fun out => by
        simp only [noted,found,WebpkiExt.note,readBasicConstraints_eq_some.mpr value,
          Option.bind_some]
    rw [Prod.mk.injEq] at wrote
    rw [wrote.1,wrote.2]
    exact ⟨rfl,value⟩
  have unconstrained : (∀ x ∈ xs, x.oid ≠ oidBasicConstraints) →
      (xs.foldl (noted isCa) nothingNoted).isCa = false ∧
        (xs.foldl (noted isCa) nothingNoted).pathLen = none := by
    intro apart
    have kept := foldl_noted_keeps (written_constraints isCa) nothingNoted apart
    simpa only [nothingNoted,Prod.mk.injEq] using kept
  refine ⟨?_,?_,fun x among named => (constrained x among named).2,
    fun apart => (unconstrained apart).2,?_,?_⟩
  · rw [foldl_noted_seen]
    exact append_nil _
  · cases isCa with
    | true =>
      obtain ⟨x,among,named⟩ := profile.present .basicConstraints (by decide)
      exact (constrained x among named).1
    | false =>
      by_cases present : ∃ x ∈ xs, x.oid = oidBasicConstraints
      · obtain ⟨x,among,named⟩ := present
        exact (constrained x among named).1
      · simp only [not_exists,not_and] at present
        exact (unconstrained present).1
  · intro x among named
    have found : extensionBit x.oid = some .san := extensionBit_eq_some.mpr named
    refine foldl_noted_written (written_san isCa) profile.once among named nothingNoted
      fun out => ?_
    rw [noted,found]
    rfl
  · exact fun apart => foldl_noted_keeps (written_san isCa) nothingNoted apart

end Noted

/-- The extensions pass exactly in the profile and are reported. -/
theorem judges_webpkiExtensions (isCa : Bool) :
    Judges (webpkiReadExtensions isCa) (fun out front => ∃ xs, WebpkiExtensionProfile isCa xs ∧
      ExtensionsReported isCa xs out ∧
        front = tlv 0xa3 (tlv 0x30 (xs.flatMap X509Extension.encode))) := by
  have required : ∀ xs : List X509Extension,
      (extensionsRequired isCa).all (· ∈ (xs.foldl (noted isCa) nothingNoted).seen) = true ↔
        ∀ known ∈ extensionsRequired isCa, ∃ x ∈ xs, x.oid = known.oid := by
    intro xs
    rw [foldl_noted_seen,all_eq_true]
    simp [nothingNoted,mem_recognised]
  have small : webpkiExtCountMax * webpkiExtTlvMax < 65000 := by decide
  simp only [← and_assoc]
  refine (extensionWalk_webpki isCa).judges_wrapped nothingNoted
    (fun out => if (extensionsRequired isCa).all (· ∈ out.seen) then pure out else offProfile)
    (fun xs out => WebpkiExtensionProfile isCa xs ∧ ExtensionsReported isCa xs out) small
    fun xs alert out => ?_
  constructor
  · rintro ⟨nonempty,few,formed,final,taken,ended⟩
    obtain ⟨judged,apart,-,rfl⟩ := (takesOnce_webpki isCa).foldlM_eq_some.mp taken
    split at ended
    · rename_i enough
      cases ended
      have profile : WebpkiExtensionProfile isCa xs :=
        ⟨nonempty,few,formed,judged,countP_le_one.mpr apart,(required xs).mp enough⟩
      exact ⟨profile,reported_foldl profile⟩
    · cases ended
  · rintro ⟨profile,reported⟩
    refine ⟨profile.some,profile.few,profile.formed,xs.foldl (noted isCa) nothingNoted,?_,?_⟩
    · exact (takesOnce_webpki isCa).foldlM_eq_some.mpr
        ⟨profile.judged,countP_le_one.mp profile.once,fun _ _ _ _ => not_mem_nil,rfl⟩
    · rw [if_pos ((required xs).mpr profile.present),reported.unique (reported_foldl profile)]
      rfl

/-! ### Dates -/

structure CivilTime.Encodable (t : CivilTime) : Prop where
  real : t.Real
  years : 1950 ≤ t.year ∧ t.year ≤ 9999

/-- A validity is two times in order. -/
theorem reads_dates :
    Reads readDates (fun dates front => ∃ notBefore notAfter : CivilTime, notBefore.Encodable ∧
      notAfter.Encodable ∧ notBefore.instant ≤ notAfter.instant ∧
        dates = (notBefore.pack, notAfter.pack) ∧
        front = tlv 0x30 (encodeTime notBefore ++ encodeTime notAfter)) := by
  have whole := readWhole_eq_some (reads_webpkiTime.bind fun notBefore =>
    reads_webpkiTime.map fun notAfter => (notBefore, notAfter))
  have reads : Reads readDates _ := (reads_element 0x30).bind fun validity =>
    (reads_lift (readWhole (do
      let notBefore ← webpkiReadTime
      let notAfter ← webpkiReadTime
      pure (notBefore, notAfter)) validity)).bind fun dates => Reads.check fun _ => reads_pure dates
  refine reads.congr fun dates front => ?_
  simp only [whole]
  constructor
  · rintro ⟨_,_,_,⟨-,rfl⟩,⟨_,_,_,⟨⟨_,_,_,⟨t,real,after,before,rfl,rfl⟩,
      ⟨_,⟨u,realToo,afterToo,beforeToo,rfl,rfl⟩,rfl⟩,rfl⟩,rfl⟩,⟨ordered,rfl,rfl⟩,rfl⟩,rfl⟩
    exact ⟨t,u,⟨real,after,before⟩,⟨realToo,afterToo,beforeToo⟩,
      (CivilTime.pack_le_iff real realToo).mp ordered,rfl,by simp⟩
  · rintro ⟨t,u,⟨real,after,before⟩,⟨realToo,afterToo,beforeToo⟩,ordered,rfl,rfl⟩
    have first := encodeTime_length_le t
    have second := encodeTime_length_le u
    refine ⟨_,_,[],⟨?_,rfl⟩,⟨(t.pack, u.pack),[],[],⟨⟨_,_,_,⟨t,real,after,before,rfl,rfl⟩,
      ⟨_,⟨u,realToo,afterToo,beforeToo,rfl,rfl⟩,rfl⟩,rfl⟩,rfl⟩,
        ⟨(CivilTime.pack_le_iff real realToo).mpr ordered,rfl,rfl⟩,rfl⟩,by simp⟩
    rw [length_append]
    omega

/-! ### Certificates -/

/-- The fields of a certificate: names and the serial number as the contents of their
elements, the others as the values they encode. -/
structure WebpkiFields where
  serial : Bytes
  sigalg : WebpkiSigalg
  issuer : Bytes
  notBefore : CivilTime
  notAfter : CivilTime
  subject : Bytes
  spki : WebpkiSpki
  extensions : List X509Extension
  sig : Bytes

namespace WebpkiFields

variable (f : WebpkiFields)

def head : Bytes :=
  versionV3 ++ (tlv 0x02 f.serial ++ (f.sigalg.der ++ (tlv 0x30 f.issuer ++
    (tlv 0x30 (encodeTime f.notBefore ++ encodeTime f.notAfter) ++ (tlv 0x30 f.subject ++
      f.spki.encode)))))

/-- The content of the TBSCertificate.  The extensions stand right behind the key, without
a unique identifier between them. -/
def tbs : Bytes := f.head ++ tlv 0xa3 (tlv 0x30 (f.extensions.flatMap X509Extension.encode))

/-- The content of the Certificate; the signature algorithm stands a second time. -/
def body : Bytes := tlv 0x30 f.tbs ++ (f.sigalg.der ++ tlv 0x03 (0 :: f.sig))

def encode : Bytes := tlv 0x30 f.body

structure HeadInProfile : Prop where
  serial : SerialContent f.serial
  notBefore : f.notBefore.Encodable
  notAfter : f.notAfter.Encodable
  ordered : f.notBefore.instant ≤ f.notAfter.instant
  key : f.spki.Supported

structure InProfile (isCa : Bool) : Prop extends f.HeadInProfile where
  extensions : WebpkiExtensionProfile isCa f.extensions
  sig : f.sig ≠ []
  capped : f.encode.length ≤ webpkiCertMax

/-- What is reported as far as the key, of a certificate with this TBSCertificate. -/
def keyed (tbs : Bytes) : WebpkiKeyed where
  tbs := tbs
  issuer := tlv 0x30 f.issuer
  subject := tlv 0x30 f.subject
  notBefore := f.notBefore.pack
  notAfter := f.notAfter.pack
  spki := f.spki
  spkiTlv := f.spki.encode
  sigalg := f.sigalg

end WebpkiFields

/-- A step behind the test for a unique identifier, which another tag cannot announce. -/
theorem judges_behindUniqueId {read : CertReader α} {grammar : α → Bytes → Prop}
    (judges : Judges read grammar)
    (headed : ∀ value front, grammar value front → ∃ tail, front = 0xa3 :: tail) :
    Judges (refuseUniqueId >>= fun _ => read) grammar := by
  have passes : ∀ tail, uniqueIdFollows ⟨0xa3 :: tail,false⟩ = false := fun tail => rfl
  intro bytes alert value next
  rw [fst_readerBind_eq_ok]
  constructor
  · rintro ⟨_,⟨middle,err⟩,tested,returned⟩
    rw [refuseUniqueId] at tested
    split at tested
    · cases tested
    · cases tested
      exact (judges _ _ _ _).mp returned
  · rintro ⟨live,front,inGrammar,rfl⟩
    obtain ⟨tail,rfl⟩ := headed value front inGrammar
    refine ⟨(),⟨0xa3 :: tail ++ next.rest,false⟩,?_,(judges _ _ _ _).mpr ⟨live,_,inGrammar,rfl⟩⟩
    rw [refuseUniqueId]
    simp only [cons_append,passes,Bool.false_eq_true,if_false]
    rfl

theorem reads_slicedEncoding {read : DerReader α} {good : α → Prop} {encode : α → Bytes}
    (reads : Reads read (fun value front => good value ∧ front = encode value)) :
    Reads (readSliced read) (fun sliced front => ∃ value, good value ∧
      sliced = (value, encode value) ∧ front = encode value) := by
  refine (reads_sliced reads).congr fun sliced front => ?_
  rcases sliced with ⟨value,slice⟩
  constructor
  · rintro ⟨⟨isGood,rfl⟩,same⟩
    exact ⟨value,isGood,congrArg _ same,rfl⟩
  · rintro ⟨_,isGood,same,rfl⟩
    cases same
    exact ⟨⟨isGood,rfl⟩,rfl⟩

theorem judges_tbsKey (tbs : Bytes) :
    Judges (readTbsKey tbs) (fun keyed front => ∃ f : WebpkiFields, f.HeadInProfile ∧
      f.issuer.length < 65536 ∧ f.subject.length < 65536 ∧ front = f.head ∧
        keyed = (f.keyed tbs, f.sigalg.der)) := by
  have judges : Judges (readTbsKey tbs) _ :=
    (judges_quietly (reads_exact versionV3)).bind fun _ =>
    (judges_quietly reads_serial).bind fun _ =>
    (judges_orOffProfile (reads_slicedEncoding reads_webpkiSigalg)).bind fun sigalg =>
    (judges_quietly reads_name).bind fun issuer =>
    (judges_quietly reads_dates).bind fun dates =>
    (judges_quietly reads_name).bind fun subject =>
    (judges_orOffProfile (reads_slicedEncoding reads_webpkiSpki)).bind fun spki =>
    judges_pure ((⟨tbs,issuer,subject,dates.1,dates.2,spki.1,spki.2,sigalg.1⟩ : WebpkiKeyed),
      sigalg.2)
  refine judges.congr fun keyed front => ?_
  constructor
  · rintro ⟨_,_,_,rfl,⟨_,_,_,⟨serial,serialOk,rfl⟩,⟨_,_,_,⟨sigalg,-,rfl,rfl⟩,
      ⟨_,_,_,⟨rfl,issuer,issuerShort,rfl⟩,⟨_,_,_,⟨t,u,before,after,ordered,rfl,rfl⟩,
      ⟨_,_,_,⟨rfl,subject,subjectShort,rfl⟩,⟨_,_,_,⟨spki,supported,rfl,rfl⟩,⟨rfl,rfl⟩,rfl⟩,rfl⟩,
      rfl⟩,rfl⟩,rfl⟩,rfl⟩,rfl⟩
    refine ⟨⟨serial,sigalg,issuer,t,u,subject,spki,[],[]⟩,⟨serialOk,before,after,ordered,supported⟩,
      issuerShort,subjectShort,?_,rfl⟩
    simp only [WebpkiFields.head,append_nil]
  · rintro ⟨f,⟨serialOk,before,after,ordered,supported⟩,issuer,subject,rfl,rfl⟩
    exact ⟨(),versionV3,_,rfl,⟨(),_,_,⟨f.serial,serialOk,rfl⟩,
      ⟨_,_,_,⟨f.sigalg,trivial,rfl,rfl⟩,⟨_,_,_,⟨rfl,f.issuer,issuer,rfl⟩,
      ⟨_,_,_,⟨f.notBefore,f.notAfter,before,after,ordered,rfl,rfl⟩,
      ⟨_,_,_,⟨rfl,f.subject,subject,rfl⟩,⟨_,_,[],⟨f.spki,supported,rfl,rfl⟩,⟨rfl,rfl⟩,
      (append_nil _).symm⟩,rfl⟩,rfl⟩,rfl⟩,rfl⟩,rfl⟩,rfl⟩

/-- The signed part is read exactly when its fields are in the profile. -/
theorem webpkiReadTbs_eq_ok {tbs : Bytes} {alert : Nat}
    {read : (WebpkiKeyed × Bytes) × WebpkiExtensions} :
    (webpkiReadTbs isCa tbs alert).1 = .ok read ↔
      ∃ f : WebpkiFields, f.HeadInProfile ∧ f.issuer.length < 65536 ∧ f.subject.length < 65536 ∧
        WebpkiExtensionProfile isCa f.extensions ∧ tbs = f.tbs ∧
        read.1 = (f.keyed tbs, f.sigalg.der) ∧ ExtensionsReported isCa f.extensions read.2 := by
  have judges := (judges_tbsKey tbs).bind fun keyed =>
    judges_behindUniqueId ((judges_webpkiExtensions isCa).bind fun extensions =>
      judges_pure (keyed, extensions)) (by
        rintro _ _ ⟨_,_,_,⟨xs,-,-,rfl⟩,-,rfl⟩
        exact ⟨_,rfl⟩)
  rw [webpkiReadTbs,judgeWhole_eq_ok judges]
  constructor
  · rintro ⟨_,_,_,⟨f,inProfile,issuer,subject,rfl,rfl⟩,⟨extensions,_,_,⟨xs,profile,reported,rfl⟩,
      ⟨rfl,rfl⟩,rfl⟩,rfl⟩
    refine ⟨{ f with extensions := xs },⟨inProfile.serial,inProfile.notBefore,inProfile.notAfter,
      inProfile.ordered,inProfile.key⟩,issuer,subject,profile,?_,rfl,reported⟩
    rw [append_nil]
    rfl
  · rcases read with ⟨keyed,extensions⟩
    rintro ⟨f,inProfile,issuer,subject,profile,rfl,rfl,reported⟩
    exact ⟨_,_,_,⟨f,inProfile,issuer,subject,rfl,rfl⟩,⟨extensions,_,[],
      ⟨f.extensions,profile,reported,rfl⟩,⟨rfl,rfl⟩,(append_nil _).symm⟩,rfl⟩

theorem judgeWhole_certificate {certMax : Nat} {rest : Bytes → CertReader α}
    {grammars : Bytes → α → Bytes → Prop} (judges : ∀ tbs, Judges (rest tbs) (grammars tbs))
    {cert : Bytes} {value : α} :
    (judgeWhole (quietly (readCertificateHead certMax) >>= rest) cert alert).1 = .ok value ↔
      ∃ tbs behind, cert.length ≤ certMax ∧ (tlv 0x30 tbs ++ behind).length < 65536 ∧
        grammars tbs value behind ∧ cert = tlv 0x30 (tlv 0x30 tbs ++ behind) := by
  have split : judgeWhole (quietly (readCertificateHead certMax) >>= rest) cert =
      quietly (readCertificateHead certMax) (rbInit cert) >>= fun pair =>
        rest pair.1 pair.2 >>= fun result =>
          if result.2.err || decide (rbLeft result.2 ≠ 0) then Proc.stop .eproto
            else pure result.1 :=
    Proc.bind_assoc _ _ _
  rw [split,fst_bind_eq_ok]
  constructor
  · rintro ⟨⟨tbs,⟨behind,err⟩⟩,head,judged⟩
    obtain ⟨short,live,small,rfl⟩ := readCertificateHead_eq_some.mp (fst_quietly_eq_ok.mp head)
    cases live
    exact ⟨tbs,behind,short,small,(judgeWhole_eq_ok (judges tbs) behind _ value).mp judged,rfl⟩
  · rintro ⟨tbs,behind,short,small,inGrammar,rfl⟩
    refine ⟨(tbs, ⟨behind,false⟩),fst_quietly_eq_ok.mpr ?_,
      (judgeWhole_eq_ok (judges tbs) behind _ value).mpr inGrammar⟩
    exact readCertificateHead_eq_some.mpr ⟨short,rfl,small,rfl⟩

theorem WebpkiFields.body_bounds (f : WebpkiFields) (small : f.body.length < 65536) :
    f.issuer.length < 65536 ∧ f.subject.length < 65536 ∧ f.sig.length + 1 < 65536 := by
  have tbs := tlv_length_lt 0x30 f.tbs
  have issuer := tlv_length_lt 0x30 f.issuer
  have subject := tlv_length_lt 0x30 f.subject
  have sig := tlv_length_lt 0x03 (0 :: f.sig)
  have inside : (tlv 0x30 f.issuer).length + (tlv 0x30 f.subject).length ≤ f.tbs.length := by
    simp only [WebpkiFields.tbs,WebpkiFields.head,length_append]
    omega
  simp only [WebpkiFields.body,length_append,length_cons] at small sig
  omega

/-- A certificate is accepted exactly when it is the encoding of fields of the arm's
profile, and what is reported are those fields. -/
theorem webpkiParseCertificate_exact (isCa : Bool) (cert : Bytes) (alert : Nat)
    (parsed : WebpkiCert) : (webpkiParseCertificate isCa cert alert).1 = .ok parsed ↔
      ∃ f : WebpkiFields, f.InProfile isCa ∧ cert = f.encode ∧
        parsed.toWebpkiKeyed = f.keyed f.tbs ∧
        ExtensionsReported isCa f.extensions parsed.toWebpkiExtensions ∧ parsed.sig = f.sig := by
  have judges := fun tbs => (judges_lift fun alert read =>
      @webpkiReadTbs_eq_ok isCa tbs alert read).bind fun read =>
    judges_signature read.1.2 fun sig =>
      (⟨read.1.1,read.2,sig⟩ : WebpkiCert)
  rw [webpkiParseCertificate,judgeWhole_certificate judges]
  constructor
  · rintro ⟨tbs,_,short,small,⟨⟨⟨_,_⟩,extensions⟩,_,_,⟨⟨f,inProfile,-,-,profile,rfl,same,reported⟩,
      rfl⟩,⟨sig,some,-,rfl,rfl⟩,rfl⟩,rfl⟩
    cases same
    exact ⟨{ f with sig := sig },⟨⟨inProfile.serial,inProfile.notBefore,inProfile.notAfter,
      inProfile.ordered,inProfile.key⟩,profile,some,short⟩,rfl,rfl,reported,rfl⟩
  · rintro ⟨f,⟨inProfile,profile,filled,capped⟩,rfl,keyed,reported,sig⟩
    have small : f.body.length < 65536 := by
      have outer := tlv_length_lt 0x30 f.body
      rw [WebpkiFields.encode,webpkiCertMax] at capped
      omega
    obtain ⟨issuer,subject,sigShort⟩ := f.body_bounds small
    rcases parsed with ⟨parsedKeyed,extensions,parsedSig⟩
    cases keyed
    cases sig
    exact ⟨f.tbs,_,capped,small,⟨((f.keyed f.tbs, f.sigalg.der), extensions),[],_,
      ⟨⟨f,inProfile,issuer,subject,profile,rfl,rfl,reported⟩,rfl⟩,⟨f.sig,filled,sigShort,rfl,rfl⟩,
      rfl⟩,rfl⟩

/-! ### What the walk over the extensions leaves unread -/

/-- A leaf with one more purpose and one more extension than the profile needs. -/
def sampleFields (purpose identifier : Bytes) : WebpkiFields where
  serial := [1]
  sigalg := .ecdsaSha256
  issuer := []
  notBefore := ⟨2025,1,1,0,0,0⟩
  notAfter := ⟨2029,1,1,0,0,0⟩
  subject := []
  spki := ⟨.p256,replicate 64 1⟩
  extensions :=
    [⟨oidKeyUsage,tlv 0x03 [7,0x80],true⟩,
     ⟨oidExtKeyUsage,tlv 0x30 (tlv 0x06 purpose ++ tlv 0x06 oidServerAuth),false⟩,
     ⟨oidSubjectAltName,tlv 0x30 (tlv 0x82 sampleHost),false⟩,⟨identifier,[],false⟩]
  sig := [1]

/-- A purpose beside the one looked for may be no DER, and an extension nobody reads is
refused for an identifier of more than sixteen octets. -/
theorem webpkiParseCertificate_identifiers :
    (oidMinimal [0x80,0x01] = false ∧
      (webpkiParseCertificate false (sampleFields [0x80,0x01] [1]).encode 0).1.isOk = true) ∧
    (oidMinimal (replicate 17 1) = true ∧
      (webpkiParseCertificate false (sampleFields [1] (replicate 16 1)).encode 0).1.isOk = true ∧
      (webpkiParseCertificate false (sampleFields [1] (replicate 17 1)).encode 0).1 =
        .error .eproto) := by
  decide +kernel

/-! ### Validity -/

theorem webpkiParseCertificate_keyed {cert : Bytes} {parsed : WebpkiCert}
    (accepted : (webpkiParseCertificate isCa cert alert).1 = .ok parsed) :
    ∃ f : WebpkiFields, f.HeadInProfile ∧ parsed.toWebpkiKeyed = f.keyed f.tbs := by
  obtain ⟨_,read⟩ := judgeWhole_value accepted
  obtain ⟨tbs,middle,-,read⟩ := fst_readerBind_eq_ok.mp read
  obtain ⟨found,_,tbsRead,read⟩ := fst_readerBind_eq_ok.mp read
  obtain ⟨_,_,-,read⟩ := fst_readerBind_eq_ok.mp read
  obtain ⟨sig,_,-,read⟩ := fst_readerBind_eq_ok.mp read
  obtain ⟨lifted,judged,same⟩ := fst_bind_eq_ok.mp tbsRead
  cases same
  obtain ⟨f,inProfile,-,-,-,rfl,keyed,-⟩ := webpkiReadTbs_eq_ok.mp judged
  split at read
  · cases read
  · cases read
    exact ⟨f,inProfile,congrArg Prod.fst keyed⟩

theorem webpkiPackSeconds_of_le (inRange : seconds ≤ secondsMax) :
    webpkiPackSeconds seconds = (civilOfSeconds seconds).pack := by
  rw [webpkiPackSeconds_eq,Nat.min_eq_left inRange]

theorem webpkiPackSeconds_of_ge (past : secondsMax ≤ seconds) :
    webpkiPackSeconds seconds = webpkiPackSeconds secondsMax := by
  rw [webpkiPackSeconds_eq,webpkiPackSeconds_eq,Nat.min_eq_right past,Nat.min_self]

theorem pack_le_clock {t : CivilTime} (real : t.Real) (inRange : seconds ≤ secondsMax) :
    t.pack ≤ webpkiPackSeconds seconds ↔ t.instant ≤ epochSeconds + seconds := by
  obtain ⟨clockReal,instant⟩ := civilOfSeconds_real seconds
  rw [webpkiPackSeconds_of_le inRange,CivilTime.pack_le_iff real clockReal,instant]

theorem clock_le_pack {t : CivilTime} (real : t.Real) (inRange : seconds ≤ secondsMax) :
    webpkiPackSeconds seconds ≤ t.pack ↔ epochSeconds + seconds ≤ t.instant := by
  obtain ⟨clockReal,instant⟩ := civilOfSeconds_real seconds
  rw [webpkiPackSeconds_of_le inRange,CivilTime.pack_le_iff clockReal real,instant]

theorem webpkiPackSeconds_lt {later : Nat} (before : seconds < later)
    (inRange : later ≤ secondsMax) : webpkiPackSeconds seconds < webpkiPackSeconds later := by
  obtain ⟨laterReal,instant⟩ := civilOfSeconds_real later
  rw [webpkiPackSeconds_of_le inRange]
  apply Nat.lt_of_not_le
  rw [pack_le_clock laterReal (Nat.le_of_lt (Nat.lt_of_lt_of_le before inRange)),instant]
  exact Nat.not_le.mpr (Nat.add_lt_add_left before _)

/-- The clock is packed as the calendar gives its date and time, a certificate's dates are
read as they are encoded, and the packed values compare as the instants do. -/
theorem validity_compares_instants :
    (CivilTime.instant ⟨1970,1,1,0,0,0⟩ = epochSeconds ∧
      CivilTime.instant ⟨9999,12,31,23,59,59⟩ = epochSeconds + secondsMax) ∧
    (∀ seconds ≤ secondsMax, ∃ t : CivilTime, t.Real ∧ t.instant = epochSeconds + seconds ∧
      (∀ other : CivilTime, other.Real → other.instant = epochSeconds + seconds → other = t) ∧
      webpkiPackSeconds seconds = t.pack) ∧
    (∀ seconds later, seconds < later → later ≤ secondsMax →
      webpkiPackSeconds seconds < webpkiPackSeconds later) ∧
    (∀ seconds, secondsMax ≤ seconds → webpkiPackSeconds seconds = webpkiPackSeconds secondsMax) ∧
    (∀ bytes packed next, webpkiReadTime ⟨bytes,false⟩ = some (packed, next) ↔ next.err = false ∧
      ∃ t : CivilTime, t.Encodable ∧ bytes = encodeTime t ++ next.rest ∧ packed = t.pack) ∧
    (∀ isCa cert alert parsed, (webpkiParseCertificate isCa cert alert).1 = .ok parsed →
      ∃ f : WebpkiFields, parsed.tbs = f.tbs ∧ f.notBefore.Encodable ∧ f.notAfter.Encodable ∧
        ∀ seconds ≤ secondsMax, validityCovers parsed (webpkiPackSeconds seconds) = true ↔
          f.notBefore.instant ≤ epochSeconds + seconds ∧
            epochSeconds + seconds ≤ f.notAfter.instant) := by
  have first : civilOfSeconds 0 = ⟨1970,1,1,0,0,0⟩ := by decide +kernel
  have last : civilOfSeconds secondsMax = ⟨9999,12,31,23,59,59⟩ := by decide +kernel
  refine ⟨⟨?_,?_⟩,?_,fun seconds later => webpkiPackSeconds_lt,
    fun seconds => webpkiPackSeconds_of_ge,?_,?_⟩
  · rw [← first]
    exact (civilOfSeconds_real 0).2
  · rw [← last]
    exact (civilOfSeconds_real secondsMax).2
  · intro seconds inRange
    obtain ⟨real,instant⟩ := civilOfSeconds_real seconds
    refine ⟨civilOfSeconds seconds,real,instant,fun other otherReal same => ?_,
      webpkiPackSeconds_of_le inRange⟩
    exact CivilTime.instant_inj otherReal real (same.trans instant.symm)
  · intro bytes packed next
    rw [reads_webpkiTime bytes packed next]
    refine and_congr_right fun _ => ?_
    constructor
    · rintro ⟨_,⟨t,real,least,most,rfl,rfl⟩,rfl⟩
      exact ⟨t,⟨real,least,most⟩,rfl,rfl⟩
    · rintro ⟨t,⟨real,least,most⟩,rfl,rfl⟩
      exact ⟨_,⟨t,real,least,most,rfl,rfl⟩,rfl⟩
  · intro isCa cert alert parsed accepted
    obtain ⟨f,inProfile,keyed⟩ := webpkiParseCertificate_keyed accepted
    refine ⟨f,congrArg WebpkiKeyed.tbs keyed,inProfile.notBefore,inProfile.notAfter,?_⟩
    intro seconds inRange
    have notBefore : parsed.notBefore = f.notBefore.pack := congrArg WebpkiKeyed.notBefore keyed
    have notAfter : parsed.notAfter = f.notAfter.pack := congrArg WebpkiKeyed.notAfter keyed
    rw [validityCovers,Bool.and_eq_true,decide_eq_true_eq,decide_eq_true_eq,notBefore,notAfter,
      pack_le_clock inProfile.notBefore.real inRange,clock_le_pack inProfile.notAfter.real inRange]

end Chapulin
