/-
The certificate profile of a pinned authority, as a grammar: the fields a
certificate holds, how they are encoded and what each may be, for a leaf and for
an intermediate.  The walker of `x509.c` accepts exactly the certificates of the
profile.
-/

import Chapulin.Cert.X509
import Chapulin.Lib.Once
import Mathlib.Data.Nat.Bitwise

namespace Chapulin

open Lib Lib.Der List

variable {isCa : Bool} {bytes : Bytes} {xs : List X509Extension} {alert next room seen : Nat}
    {x : X509Extension}

/-! ### Extensions -/

inductive KnownExtension where
  | keyUsage | extKeyUsage | basicConstraints
  deriving DecidableEq, Repr

namespace KnownExtension

def oid : KnownExtension → Bytes
  | keyUsage => oidKeyUsage
  | extKeyUsage => oidExtKeyUsage
  | basicConstraints => oidBasicConstraints

def place : KnownExtension → Nat
  | keyUsage => 0
  | extKeyUsage => 1
  | basicConstraints => 2

/-- The values the profile admits: a leaf signs handshakes and serves, an
intermediate signs certificates and stands directly above a leaf. -/
def Admits (isCa : Bool) : KnownExtension → Bytes → Prop
  | keyUsage, value => KeyUsage (if isCa then 0x04 else 0x80) value
  | extKeyUsage, value => isCa = false ∧ value = ekuServerAuth
  | basicConstraints, value => value = if isCa then bcCaPathlen0 else bcNotCa

def needed (isCa : Bool) : List KnownExtension :=
  if isCa then [keyUsage,basicConstraints] else [keyUsage,extKeyUsage]

end KnownExtension

open KnownExtension

/-- What one extension has to satisfy: an admitted value where its identifier is
known, and not critical where it is not. -/
structure ExtensionJudged (isCa : Bool) (x : X509Extension) : Prop where
  admitted : ∀ known : KnownExtension, x.oid = known.oid → known.Admits isCa x.value
  uncritical : (∀ known : KnownExtension, x.oid ≠ known.oid) → x.critical = false

structure ExtensionProfile (isCa : Bool) (xs : List X509Extension) : Prop where
  some : xs ≠ []
  few : xs.length ≤ x509ExtCountMax
  formed : ∀ x ∈ xs, x.WellFormed x509ExtTlvMax
  judged : ∀ x ∈ xs, ExtensionJudged isCa x
  /-- No known extension stands twice. -/
  once : ∀ known : KnownExtension, xs.countP (fun x => x.oid = known.oid) ≤ 1
  present : ∀ known ∈ needed isCa, ∃ x ∈ xs, x.oid = known.oid

/-! ### Certificates -/

def IsTime (c : Bytes) : Prop := (c.length = 13 ∨ c.length = 15) ∧ c.getLast? = some 0x5a

def timeTlv (c : Bytes) : Bytes := if c.length = 13 then tlv 0x17 c else tlv 0x18 c

structure CertFields where
  serial : Bytes
  issuer : Bytes
  notBefore : Bytes
  notAfter : Bytes
  subject : Bytes
  key : Bytes
  extensions : List X509Extension
  sig : Bytes

namespace CertFields

variable (f : CertFields) (pin : PinAlg)

def tbs : Bytes :=
  versionV3 ++ (tlv 0x02 f.serial ++ (pinnedSigalg pin ++ (tlv 0x30 f.issuer ++
    (tlv 0x30 (timeTlv f.notBefore ++ timeTlv f.notAfter) ++ (tlv 0x30 f.subject ++
      (spkiTlv pin f.key ++ tlv 0xa3 (tlv 0x30 (f.extensions.flatMap X509Extension.encode))))))))

def body : Bytes := tlv 0x30 (f.tbs pin) ++ (pinnedSigalg pin ++ tlv 0x03 (0 :: f.sig))

def encode : Bytes := tlv 0x30 (f.body pin)

structure TbsInProfile (isCa : Bool) : Prop where
  serial : SerialContent f.serial
  notBefore : IsTime f.notBefore
  notAfter : IsTime f.notAfter
  key : KeyAdmitted pin f.key
  extensions : ExtensionProfile isCa f.extensions

structure InProfile (isCa : Bool) : Prop extends f.TbsInProfile pin isCa where
  sig : f.sig ≠ []

end CertFields

/-! ### One extension -/

/-- `parse_one_extension` on a decoded extension: the mask with its bit. -/
def takeExtension (isCa : Bool) (seen : Nat) (x : X509Extension) : Option Nat :=
  match checkExtensionValue x.oid x.value isCa with
  | none => none
  | some bit =>
    if bit = 0 then
      if !x.critical then some seen else none
    else if seen &&& bit ≠ 0 then none
    else some (seen ||| bit)

theorem KnownExtension.oid_injective {first second : KnownExtension}
    (same : first.oid = second.oid) : first = second := by
  cases first <;> cases second <;> first | rfl | exact absurd same (by decide)

/-- The walker names the bit of a known extension exactly where the profile admits
its value. -/
theorem checkExtensionValue_known {known : KnownExtension} {x : X509Extension} {isCa : Bool}
    (same : x.oid = known.oid) {bit : Nat} :
    checkExtensionValue x.oid x.value isCa = some bit ↔
      known.Admits isCa x.value ∧ bit = 2 ^ known.place := by
  rw [same]
  cases known with
  | keyUsage =>
    rw [checkExtensionValue,if_pos (by rfl)]
    by_cases admitted : x509ReadKeyusage x.value (if isCa then 0x04 else 0x80) = true
    · have usage := x509ReadKeyusage_iff.mp admitted
      simp only [admitted,if_true,Admits,usage,true_and,Option.some.injEq]
      exact eq_comm
    · have usage := mt x509ReadKeyusage_iff.mpr admitted
      simp [admitted,Admits,usage]
  | extKeyUsage =>
    rw [checkExtensionValue,if_neg (by decide),if_pos (by rfl)]
    cases isCa with
    | true => simp [Admits]
    | false =>
      by_cases admitted : x.value = ekuServerAuth
      · simp only [admitted,Bool.not_false,decide_true,Bool.and_self,if_true,Admits,true_and,
          Option.some.injEq]
        exact eq_comm
      · simp [admitted,Admits]
  | basicConstraints =>
    rw [checkExtensionValue,if_neg (by decide),if_neg (by decide),if_pos (by rfl)]
    by_cases admitted : x.value = if isCa then bcCaPathlen0 else bcNotCa
    · simp only [admitted,if_true,Admits,true_and,Option.some.injEq]
      exact eq_comm
    · simp [admitted,Admits]

theorem checkExtensionValue_unknown (unknown : ∀ known : KnownExtension, x.oid ≠ known.oid) :
    checkExtensionValue x.oid x.value isCa = some 0 := by
  have usage : x.oid ≠ oidKeyUsage := unknown .keyUsage
  have purpose : x.oid ≠ oidExtKeyUsage := unknown .extKeyUsage
  have constraints : x.oid ≠ oidBasicConstraints := unknown .basicConstraints
  rw [checkExtensionValue,if_neg usage,if_neg purpose,if_neg constraints]

theorem and_two_pow_ne_zero {place : Nat} : seen &&& 2 ^ place ≠ 0 ↔ seen.testBit place = true := by
  rw [Nat.and_two_pow]
  cases seen.testBit place <;> simp

theorem takeExtension_known {known : KnownExtension} (same : x.oid = known.oid) :
    takeExtension isCa seen x = some next ↔
      known.Admits isCa x.value ∧ seen.testBit known.place = false ∧
        next = seen ||| 2 ^ known.place := by
  have checked := fun bit => @checkExtensionValue_known known x isCa same bit
  unfold takeExtension
  rcases verdict : checkExtensionValue x.oid x.value isCa with _ | bit
  · have refused : ¬ known.Admits isCa x.value := by
      intro admitted
      rw [(checked (2 ^ known.place)).mpr ⟨admitted,rfl⟩] at verdict
      cases verdict
    simp [refused]
  · obtain ⟨admitted,rfl⟩ := (checked bit).mp verdict
    have nonzero : 2 ^ known.place ≠ 0 := (Nat.two_pow_pos _).ne'
    simp only [nonzero,if_false,and_two_pow_ne_zero,admitted,true_and]
    cases seen.testBit known.place with
    | true => simp
    | false =>
      simp only [Bool.false_eq_true,if_false,Option.some.injEq,true_and]
      exact eq_comm

theorem takeExtension_unknown (unknown : ∀ known : KnownExtension, x.oid ≠ known.oid) :
    takeExtension isCa seen x = some next ↔ x.critical = false ∧ next = seen := by
  rw [takeExtension,checkExtensionValue_unknown unknown]
  cases x.critical with
  | true => simp
  | false =>
    simp only [if_true,Bool.not_false,Option.some.injEq,true_and]
    exact eq_comm

/-! ### The extension list -/

def knownBit (oid : Bytes) : Nat :=
  if oid = oidKeyUsage then 1
  else if oid = oidExtKeyUsage then 2
  else if oid = oidBasicConstraints then 4
  else 0

def seenMask (seen : Nat) (xs : List X509Extension) : Nat :=
  xs.foldl (fun mask x => mask ||| knownBit x.oid) seen

theorem knownBit_known (known : KnownExtension) : knownBit known.oid = 2 ^ known.place := by
  cases known <;> decide

theorem knownBit_unknown {oid : Bytes} (unknown : ∀ known : KnownExtension, oid ≠ known.oid) :
    knownBit oid = 0 := by
  have usage : oid ≠ oidKeyUsage := unknown .keyUsage
  have purpose : oid ≠ oidExtKeyUsage := unknown .extKeyUsage
  have constraints : oid ≠ oidBasicConstraints := unknown .basicConstraints
  rw [knownBit,if_neg usage,if_neg purpose,if_neg constraints]

theorem KnownExtension.place_injective {first second : KnownExtension}
    (same : first.place = second.place) : first = second := by
  cases first <;> cases second <;> first | rfl | cases same

theorem testBit_knownBit (oid : Bytes) (known : KnownExtension) :
    (knownBit oid).testBit known.place = true ↔ oid = known.oid := by
  by_cases among : ∃ other : KnownExtension, oid = other.oid
  · obtain ⟨other,rfl⟩ := among
    rw [knownBit_known,Nat.testBit_two_pow,decide_eq_true_iff]
    constructor
    · intro same
      rw [KnownExtension.place_injective same]
    · intro same
      rw [KnownExtension.oid_injective same]
  · have unknown : ∀ other : KnownExtension, oid ≠ other.oid := fun other same => among ⟨other,same⟩
    rw [knownBit_unknown unknown,Nat.zero_testBit]
    simp [unknown known]

theorem testBit_seenMask (seen : Nat) (xs : List X509Extension) (known : KnownExtension) :
    (seenMask seen xs).testBit known.place = true ↔
      seen.testBit known.place = true ∨ ∃ x ∈ xs, x.oid = known.oid := by
  induction xs generalizing seen with
  | nil => simp [seenMask]
  | cons x xs ih =>
    have step : seenMask seen (x :: xs) = seenMask (seen ||| knownBit x.oid) xs := rfl
    rw [step,ih,Nat.testBit_or,Bool.or_eq_true,testBit_knownBit]
    simp [or_assoc]

/-- An extension is taken once, when its value passes. -/
theorem takeExtension_eq_some :
    takeExtension isCa seen x = some next ↔
      ExtensionJudged isCa x ∧
        (∀ known : KnownExtension, x.oid = known.oid → seen.testBit known.place = false) ∧
        next = seen ||| knownBit x.oid := by
  by_cases among : ∃ known : KnownExtension, x.oid = known.oid
  · obtain ⟨known,same⟩ := among
    rw [takeExtension_known same,same,knownBit_known]
    constructor
    · rintro ⟨admitted,unset,rfl⟩
      refine ⟨⟨?_,fun unknown => absurd same (unknown known)⟩,?_,rfl⟩
      · intro other sameOther
        rw [← KnownExtension.oid_injective (same.symm.trans sameOther)]
        exact admitted
      · intro other sameOther
        rw [← KnownExtension.oid_injective sameOther]
        exact unset
    · rintro ⟨judged,unset,rfl⟩
      exact ⟨judged.admitted known same,unset known rfl,rfl⟩
  · have unknown : ∀ known : KnownExtension, x.oid ≠ known.oid :=
      fun known same => among ⟨known,same⟩
    rw [takeExtension_unknown unknown,knownBit_unknown unknown,Nat.or_zero]
    constructor
    · rintro ⟨uncritical,rfl⟩
      exact ⟨⟨fun known same => absurd same (unknown known),fun _ => uncritical⟩,
        fun known same => absurd same (unknown known),rfl⟩
    · rintro ⟨judged,-,rfl⟩
      exact ⟨judged.uncritical unknown,rfl⟩

theorem takesOnce_pinned (isCa : Bool) :
    TakesOnce (takeExtension isCa) (ExtensionJudged isCa)
      (fun x (known : KnownExtension) => x.oid = known.oid)
      (fun seen known => seen.testBit known.place = true)
        (fun seen x => seen ||| knownBit x.oid) where
  takes := by
    intro seen x next
    simp only [takeExtension_eq_some,Bool.not_eq_true]
  holds := by
    intro seen x known
    rw [Nat.testBit_or,Bool.or_eq_true,testBit_knownBit]

theorem judges_extensionThen {σ : Type} {cap : Nat} {judge : X509Extension → CertReader σ}
    {take : X509Extension → Option σ} (small : cap < 65536)
    (judged : ∀ x, Judges (judge x) (fun next front => take x = some next ∧ front = [])) :
    Judges (quietly (x509ReadExtension cap) >>= judge) (fun next front => ∃ x : X509Extension,
      x.WellFormed cap ∧ take x = some next ∧ front = x.encode) := by
  refine ((judges_quietly (reads_extension small)).bind judged).congr fun next front => ?_
  constructor
  · rintro ⟨x,left,right,⟨formed,rfl⟩,⟨taken,rfl⟩,rfl⟩
    exact ⟨x,formed,taken,append_nil _⟩
  · rintro ⟨x,formed,taken,rfl⟩
    exact ⟨x,x.encode,[],⟨formed,rfl⟩,⟨taken,rfl⟩,(append_nil _).symm⟩

theorem judges_accepted {σ : Type} (state : σ) :
    Judges (pure state : CertReader σ) (fun next front => some state = some next ∧ front = []) :=
  (judges_pure state).congr fun next front => by rw [Option.some.injEq,eq_comm]

theorem judges_refused {σ : Type} {read : CertReader σ}
    (refuses : ∀ r alert, ∃ rc, (read r alert).1 = .error rc) :
    Judges read (fun next front => none = some next ∧ front = []) :=
  (judges_refusal refuses).congr fun next front => by simp

theorem judges_oneExtension (isCa : Bool) (seen : Nat) :
    Judges (parseOneExtension isCa seen) (fun next front => ∃ x : X509Extension,
      x.WellFormed x509ExtTlvMax ∧ takeExtension isCa seen x = some next ∧ front = x.encode) := by
  have refuses : Judges (fun _ => offProfile : CertReader Nat)
      (fun next front => none = some next ∧ front = []) := judges_refused fun _ _ => ⟨_,rfl⟩
  refine judges_extensionThen (by decide) fun x => ?_
  unfold takeExtension
  rcases checkExtensionValue x.oid x.value isCa with _ | bit
  · exact refuses
  · dsimp only
    split
    · split
      · exact judges_accepted seen
      · exact refuses
    · split
      · exact refuses
      · exact judges_accepted (seen ||| bit)

theorem X509Extension.encode_ne_nil (x : X509Extension) : x.encode ≠ [] := by
  simp [X509Extension.encode,tlv]

theorem flatMap_encode_eq_nil (empty : xs.flatMap X509Extension.encode = []) : xs = [] := by
  cases xs with
  | nil => rfl
  | cons x xs =>
    rw [flatMap_cons,append_eq_nil_iff] at empty
    exact absurd empty.1 x.encode_ne_nil

theorem extensions_length_le {cap : Nat}
    (formed : ∀ x ∈ xs, x.WellFormed cap) (few : xs.length ≤ room) :
    (xs.flatMap X509Extension.encode).length ≤ room * cap := by
  have capped : (xs.flatMap X509Extension.encode).length ≤ xs.length * cap := by
    clear few
    induction xs with
    | nil => simp
    | cons x xs ih =>
      have first := (formed x mem_cons_self).capped
      have rest := ih fun other later => formed other (mem_cons_of_mem _ later)
      rw [flatMap_cons,length_append,length_cons,Nat.add_mul,Nat.one_mul]
      omega
  exact Nat.le_trans capped (Nat.mul_le_mul_right _ few)

theorem readExtensionsHead_eq_some {wrap : Bytes} {next : Rbuf} :
    readExtensionsHead (rbInit wrap) = some ((), next) ↔
      next.err = false ∧ next.rest ≠ [] ∧ next.rest.length < 65536 ∧ wrap = tlv 0x30 next.rest := by
  rw [readExtensionsHead,bind_eq_some]
  constructor
  · rintro ⟨_,⟨rest,err⟩,filled,present⟩
    obtain ⟨live,small,rfl⟩ := readFilling_eq_some.mp filled
    cases live
    split at present
    · cases present
    · rename_i nonempty
      cases present
      exact ⟨rfl,fun empty => nonempty (length_eq_zero_iff.mpr empty),small,rfl⟩
  · rintro ⟨live,present,small,rfl⟩
    rcases next with ⟨rest,err⟩
    cases live
    refine ⟨(),⟨rest,false⟩,readFilling_eq_some.mpr ⟨rfl,small,rfl⟩,if_neg fun empty => ?_⟩
    exact present (length_eq_zero_iff.mp empty)

/-- A walk over a list of extensions: it ends with its buffer, refuses what is left
when its rounds are used up, and takes one extension in each round. -/
structure ExtensionWalk {σ : Type} (cap : Nat) (walk : Nat → σ → CertReader σ)
    (one : σ → CertReader σ) (take : σ → X509Extension → Option σ) : Prop where
  ended : ∀ room state alert, (walk room state ⟨[],false⟩ alert).1 = .ok (state, ⟨[],false⟩)
  full : ∀ state octet bytes alert, ∃ rc, (walk 0 state ⟨octet :: bytes,false⟩ alert).1 = .error rc
  more : ∀ room state octet bytes, walk (room + 1) state ⟨octet :: bytes,false⟩ =
    one state ⟨octet :: bytes,false⟩ >>= fun pair => walk room pair.1 pair.2
  judges : ∀ state, Judges (one state) (fun next front => ∃ x : X509Extension,
    x.WellFormed cap ∧ take state x = some next ∧ front = x.encode)

/-- A list of at most `room` extensions of at most `cap` bytes each, every one taken. -/
def WalkedExtensions {σ : Type} (cap : Nat) (take : σ → X509Extension → Option σ) (room : Nat)
    (state : σ) (bytes : Bytes) (final : σ) : Prop :=
  ∃ xs : List X509Extension, xs.length ≤ room ∧ (∀ x ∈ xs, x.WellFormed cap) ∧
    bytes = xs.flatMap X509Extension.encode ∧ xs.foldlM take state = some final

section Walk

variable {σ : Type} {cap : Nat} {walk : Nat → σ → CertReader σ} {one : σ → CertReader σ}
  {take : σ → X509Extension → Option σ}

theorem walkedExtensions_nil {state final : σ} :
    WalkedExtensions cap take room state [] final ↔ final = state := by
  constructor
  · rintro ⟨xs,-,-,empty,taken⟩
    rw [flatMap_encode_eq_nil empty.symm] at taken
    cases taken
    rfl
  · rintro rfl
    exact ⟨[],Nat.zero_le _,by simp,rfl,rfl⟩

theorem walkedExtensions_cons {state final next : σ}
    (formed : x.WellFormed cap) (taken : take state x = some next)
    (rest : WalkedExtensions cap take room next bytes final) :
    WalkedExtensions cap take (room + 1) state (x.encode ++ bytes) final := by
  obtain ⟨xs,few,formedRest,rfl,takenRest⟩ := rest
  refine ⟨x :: xs,Nat.succ_le_succ few,forall_mem_cons.mpr ⟨formed,formedRest⟩,rfl,?_⟩
  rw [foldlM_cons,taken]
  exact takenRest

theorem walkedExtensions_some {state final : σ} {octet : UInt8}
    (walked : WalkedExtensions cap take room state (octet :: bytes) final) :
    ∃ before x rest next, room = before + 1 ∧ x.WellFormed cap ∧ take state x = some next ∧
      octet :: bytes = x.encode ++ rest ∧ WalkedExtensions cap take before next rest final := by
  obtain ⟨xs,few,formed,same,taken⟩ := walked
  cases xs with
  | nil => cases same
  | cons x xs =>
    rw [foldlM_cons,Option.bind_eq_bind,Option.bind_eq_some_iff] at taken
    obtain ⟨next,takenFirst,takenRest⟩ := taken
    rw [length_cons] at few
    refine ⟨room - 1,x,xs.flatMap X509Extension.encode,next,by omega,formed x mem_cons_self,
      takenFirst,same,xs,by omega,?_,rfl,takenRest⟩
    exact fun other later => formed other (mem_cons_of_mem _ later)

/-- The walk accepts exactly the lists of extensions it takes one by one. -/
theorem ExtensionWalk.eq_ok (shape : ExtensionWalk cap walk one take) {state final : σ}
    {next : Rbuf} : (walk room state ⟨bytes,false⟩ alert).1 = .ok (final, next) ↔
      next = ⟨[],false⟩ ∧ WalkedExtensions cap take room state bytes final := by
  induction room generalizing state bytes alert with
  | zero =>
    cases bytes with
    | nil =>
      rw [shape.ended,walkedExtensions_nil]
      simp only [Except.ok.injEq,Prod.mk.injEq,eq_comm,and_comm]
    | cons octet bytes =>
      obtain ⟨rc,refused⟩ := shape.full state octet bytes alert
      rw [refused]
      constructor
      · intro impossible
        cases impossible
      · rintro ⟨-,walked⟩
        obtain ⟨before,x,rest,next,impossible,-⟩ := walkedExtensions_some walked
        cases impossible
  | succ room ih =>
    cases bytes with
    | nil =>
      rw [shape.ended,walkedExtensions_nil]
      simp only [Except.ok.injEq,Prod.mk.injEq,eq_comm,and_comm]
    | cons octet bytes =>
      rw [shape.more,fst_bind_eq_ok]
      constructor
      · rintro ⟨⟨middle,⟨rest,err⟩⟩,first,later⟩
        obtain ⟨live,front,⟨x,formed,taken,rfl⟩,same⟩ := (shape.judges state _ _ _ _).mp first
        cases live
        obtain ⟨rfl,walked⟩ := ih.mp later
        rw [same]
        exact ⟨rfl,walkedExtensions_cons formed taken walked⟩
      · rintro ⟨rfl,walked⟩
        obtain ⟨before,x,rest,middle,rooms,formed,taken,same,later⟩ :=
          walkedExtensions_some walked
        cases rooms
        refine ⟨(middle, ⟨rest,false⟩),?_,ih.mpr ⟨rfl,later⟩⟩
        exact (shape.judges state _ _ _ _).mpr ⟨rfl,x.encode,⟨x,formed,taken,rfl⟩,same⟩

/-- The extensions of a certificate: the walk over the list in its two headers, and a
last judgment of what the walk gathered. -/
theorem ExtensionWalk.judges_wrapped (shape : ExtensionWalk cap walk one take) {α : Type}
    (state : σ)
    (finish : σ → Judge α) (accepts : List X509Extension → α → Prop) (small : room * cap < 65000)
    (decided : ∀ xs alert out, (xs ≠ [] ∧ xs.length ≤ room ∧ (∀ x ∈ xs, x.WellFormed cap) ∧
      ∃ final, xs.foldlM take state = some final ∧ (finish final alert).1 = .ok out) ↔
        accepts xs out) :
    Judges (quietly (readElement 0xa3) >>= fun wrap =>
      (liftM (quietly readExtensionsHead (rbInit wrap)
        >>= fun head => walk room state head.2 >>= fun found => finish found.1) : CertReader α))
      (fun out front => ∃ xs, accepts xs out ∧
        front = tlv 0xa3 (tlv 0x30 (xs.flatMap X509Extension.encode))) := by
  have judged : ∀ wrap alert out, ((quietly readExtensionsHead (rbInit wrap) >>= fun head =>
      walk room state head.2 >>= fun found => finish found.1) alert).1 = .ok out ↔
        ∃ xs, accepts xs out ∧ wrap = tlv 0x30 (xs.flatMap X509Extension.encode) := by
    intro wrap alert out
    rw [fst_bind_eq_ok]
    constructor
    · rintro ⟨⟨_,⟨list,err⟩⟩,head,walked⟩
      obtain ⟨live,nonempty,-,rfl⟩ := readExtensionsHead_eq_some.mp (fst_quietly_eq_ok.mp head)
      cases live
      obtain ⟨⟨final,next⟩,looped,ended⟩ := fst_bind_eq_ok.mp walked
      obtain ⟨-,xs,few,formed,rfl,taken⟩ := shape.eq_ok.mp looped
      refine ⟨xs,(decided xs _ out).mp ⟨?_,few,formed,final,taken,ended⟩,rfl⟩
      rintro rfl
      exact nonempty rfl
    · rintro ⟨xs,accepted,rfl⟩
      have taking := fun alert => (decided xs alert out).mpr accepted
      obtain ⟨nonempty,few,formed,final,taken,-⟩ := taking alert
      have short := extensions_length_le formed few
      refine ⟨((), ⟨xs.flatMap X509Extension.encode,false⟩),fst_quietly_eq_ok.mpr
        (readExtensionsHead_eq_some.mpr ⟨rfl,fun empty => nonempty (flatMap_encode_eq_nil empty),
          by dsimp only; omega,rfl⟩),?_⟩
      refine fst_bind_eq_ok.mpr ⟨(final, ⟨[],false⟩),shape.eq_ok.mpr ⟨rfl,xs,few,formed,rfl,taken⟩,
        ?_⟩
      obtain ⟨-,-,-,other,same,ended⟩ := taking _
      rw [taken] at same
      cases same
      exact ended
  refine ((judges_quietly (reads_element 0xa3)).bind fun wrap => judges_lift (judged wrap)).congr
    fun out front => ?_
  constructor
  · rintro ⟨wrap,left,right,⟨-,rfl⟩,⟨⟨xs,accepted,rfl⟩,rfl⟩,rfl⟩
    exact ⟨xs,accepted,append_nil _⟩
  · rintro ⟨xs,accepted,rfl⟩
    obtain ⟨-,few,formed,-⟩ := (decided xs 0 out).mpr accepted
    have short := extensions_length_le formed few
    have longer := tlv_length_le 0x30 (xs.flatMap X509Extension.encode)
    exact ⟨_,_,[],⟨by omega,rfl⟩,⟨⟨xs,accepted,rfl⟩,rfl⟩,(append_nil _).symm⟩

end Walk

theorem extensionWalk_pinned (isCa : Bool) :
    ExtensionWalk x509ExtTlvMax (parseExtensionList isCa) (parseOneExtension isCa)
      (takeExtension isCa) where
  ended := by
    intro room state alert
    cases room <;> rfl
  full := fun state octet bytes alert => ⟨.eproto,rfl⟩
  more := fun room state octet bytes => rfl
  judges := judges_oneExtension isCa

theorem and_eq_right_iff {mask need : Nat} :
    mask &&& need = need ↔ ∀ i, need.testBit i = true → mask.testBit i = true := by
  constructor
  · intro same i set
    have bit := congrArg (fun n => Nat.testBit n i) same
    simp only [Nat.testBit_and,set,Bool.and_true] at bit
    exact bit
  · intro covered
    apply Nat.eq_of_testBit_eq
    intro i
    rw [Nat.testBit_and]
    cases set : need.testBit i with
    | false => simp
    | true => simp [covered i set]

theorem testBit_extensionsNeeded (isCa : Bool) (i : Nat) :
    (extensionsNeeded isCa).testBit i = true ↔ ∃ known ∈ needed isCa, known.place = i := by
  cases isCa with
  | true =>
    have shape : extensionsNeeded true = 2 ^ 0 ||| 2 ^ 2 := rfl
    rw [shape,Nat.testBit_or,Nat.testBit_two_pow,Nat.testBit_two_pow]
    simp [needed,place]
  | false =>
    have shape : extensionsNeeded false = 2 ^ 0 ||| 2 ^ 1 := rfl
    rw [shape,Nat.testBit_or,Nat.testBit_two_pow,Nat.testBit_two_pow]
    simp [needed,place]

theorem seenMask_needed (isCa : Bool) (xs : List X509Extension) :
    seenMask 0 xs &&& extensionsNeeded isCa = extensionsNeeded isCa ↔
      ∀ known ∈ needed isCa, ∃ x ∈ xs, x.oid = known.oid := by
  rw [and_eq_right_iff]
  constructor
  · intro covered known needs
    have set := covered known.place ((testBit_extensionsNeeded isCa _).mpr ⟨known,needs,rfl⟩)
    rcases (testBit_seenMask 0 xs known).mp set with impossible | present
    · rw [Nat.zero_testBit] at impossible
      cases impossible
    · exact present
  · intro present i set
    obtain ⟨known,needs,rfl⟩ := (testBit_extensionsNeeded isCa i).mp set
    exact (testBit_seenMask 0 xs known).mpr (.inr (present known needs))

theorem judges_extensions (isCa : Bool) :
    Judges (x509ParseExtensions isCa) (fun _ front => ∃ xs, ExtensionProfile isCa xs ∧
      front = tlv 0xa3 (tlv 0x30 (xs.flatMap X509Extension.encode))) := by
  have small : x509ExtCountMax * x509ExtTlvMax < 65000 := by decide
  refine (extensionWalk_pinned isCa).judges_wrapped 0
    (fun seen => if seen &&& extensionsNeeded isCa ≠ extensionsNeeded isCa then offProfile
      else pure ())
    (fun xs _ => ExtensionProfile isCa xs) small fun xs alert _ => ?_
  constructor
  · rintro ⟨nonempty,few,formed,seen,taken,ended⟩
    obtain ⟨judged,apart,-,rfl⟩ := (takesOnce_pinned isCa).foldlM_eq_some.mp taken
    split at ended
    · cases ended
    · rename_i enough
      exact ⟨nonempty,few,formed,judged,countP_le_one.mpr apart,
        (seenMask_needed isCa xs).mp (not_not.mp enough)⟩
  · rintro ⟨nonempty,few,formed,judged,once,present⟩
    have taken := (takesOnce_pinned isCa).foldlM_eq_some.mpr ⟨judged,countP_le_one.mp once,
      fun x among known same => by rw [Nat.zero_testBit]; exact Bool.false_ne_true,rfl⟩
    refine ⟨nonempty,few,formed,seenMask 0 xs,taken,?_⟩
    rw [if_neg (not_not.mpr ((seenMask_needed isCa xs).mpr present))]
    rfl

/-! ### One certificate -/

theorem timeEncoding_iff {c front : Bytes} :
    TimeEncoding c front ↔ IsTime c ∧ front = timeTlv c := by
  unfold TimeEncoding IsTime timeTlv
  by_cases short : c.length = 13
  · simp [short,and_comm]
  · simp only [short,false_and,false_or,if_false]
    tauto

theorem timeTlv_length_le {c : Bytes} (time : IsTime c) : (timeTlv c).length ≤ 19 := by
  have shorter : (timeTlv c).length ≤ c.length + 4 := by
    unfold timeTlv
    split <;> exact tlv_length_le _ _
  have length := time.1
  omega

theorem reads_notBefore (leaf : Bool) :
    Reads (readNotBefore leaf) (fun epoch front => ∃ c, IsTime c ∧
      epoch = (if leaf then epochIndex c else none) ∧ front = timeTlv c) := by
  cases leaf with
  | true =>
    refine reads_timeEpoch.congr fun epoch front => exists_congr fun c => ?_
    rw [timeEncoding_iff]
    simp [and_comm,and_left_comm]
  | false =>
    refine (reads_time.map fun _ => none).congr fun epoch front => ?_
    constructor
    · rintro ⟨_,⟨c,time⟩,rfl⟩
      obtain ⟨isTime,rfl⟩ := timeEncoding_iff.mp time
      exact ⟨c,isTime,rfl,rfl⟩
    · rintro ⟨c,isTime,rfl,rfl⟩
      exact ⟨(),⟨c,timeEncoding_iff.mpr ⟨isTime,rfl⟩⟩,rfl⟩

theorem reads_validity (leaf : Bool) :
    Reads (readValidity leaf) (fun epoch front => ∃ notBefore notAfter,
      IsTime notBefore ∧ IsTime notAfter ∧ epoch = (if leaf then epochIndex notBefore else none) ∧
        front = tlv 0x30 (timeTlv notBefore ++ timeTlv notAfter)) := by
  have inner := (reads_notBefore leaf).bind fun epoch => reads_time.map fun _ => epoch
  have reads : Reads (readValidity leaf) _ := (reads_element 0x30).bind fun validity =>
    reads_lift (readWhole _ validity)
  refine reads.congr fun epoch front => ?_
  simp only [readWhole_eq_some inner]
  constructor
  · rintro ⟨validity,left,right,⟨-,rfl⟩,⟨⟨_,_,_,⟨notBefore,isTime,rfl,rfl⟩,⟨_,⟨notAfter,time⟩,rfl⟩,
      rfl⟩,rfl⟩,rfl⟩
    obtain ⟨isTimeToo,rfl⟩ := timeEncoding_iff.mp time
    exact ⟨notBefore,notAfter,isTime,isTimeToo,rfl,by simp⟩
  · rintro ⟨notBefore,notAfter,isTime,isTimeToo,rfl,rfl⟩
    have short := timeTlv_length_le isTime
    have shortToo := timeTlv_length_le isTimeToo
    refine ⟨timeTlv notBefore ++ timeTlv notAfter,_,[],⟨?_,rfl⟩,⟨⟨_,timeTlv notBefore,_,
      ⟨notBefore,isTime,rfl,rfl⟩,⟨(),⟨notAfter,timeEncoding_iff.mpr ⟨isTimeToo,rfl⟩⟩,rfl⟩,rfl⟩,rfl⟩,
        by simp⟩
    rw [length_append]
    omega

/-- A TBSCertificate is accepted exactly when it encodes fields in the profile. -/
theorem parseTbs_eq_ok {pin : PinAlg} {leaf : Bool} {tbs key : Bytes} {epoch : Option Nat} :
    (parseTbs pin isCa leaf tbs alert).1 = .ok (key, epoch) ↔
      ∃ f : CertFields, f.TbsInProfile pin isCa ∧ f.issuer.length < 65536 ∧
        f.subject.length < 65536 ∧ tbs = f.tbs pin ∧ key = f.key ∧
        epoch = (if leaf then epochIndex f.notBefore else none) := by
  have judges := (judges_quietly (reads_exact versionV3)).bind fun _ =>
    (judges_quietly reads_serial).bind fun _ =>
    (judges_orOffProfile (reads_exact (pinnedSigalg pin))).bind fun _ =>
    (judges_quietly (reads_skip 0x30)).bind fun _ =>
    (judges_quietly (reads_validity leaf)).bind fun epoch =>
    (judges_quietly (reads_skip 0x30)).bind fun _ =>
    (judges_orOffProfile (reads_spki pin)).bind fun key =>
    (judges_extensions isCa).bind fun _ => judges_pure (key, epoch)
  rw [parseTbs,judgeWhole_eq_ok judges]
  constructor
  · rintro ⟨_,_,_,rfl,⟨_,_,_,⟨serial,serialOk,rfl⟩,⟨_,_,_,rfl,⟨_,_,_,⟨issuer,issuerShort,rfl⟩,
      ⟨_,_,_,⟨notBefore,notAfter,isTime,isTimeToo,rfl,rfl⟩,
      ⟨_,_,_,⟨subject,subjectShort,rfl⟩,⟨_,_,_,⟨admitted,rfl⟩,⟨_,_,_,⟨xs,profile,rfl⟩,⟨same,rfl⟩,
      rfl⟩,rfl⟩,rfl⟩,rfl⟩,rfl⟩,rfl⟩,rfl⟩,rfl⟩
    cases same
    refine ⟨⟨serial,issuer,notBefore,notAfter,subject,key,xs,[]⟩,
      ⟨serialOk,isTime,isTimeToo,admitted,profile⟩,issuerShort,subjectShort,?_,rfl,rfl⟩
    simp [CertFields.tbs]
  · rintro ⟨f,⟨serialOk,isTime,isTimeToo,admitted,profile⟩,issuer,subject,rfl,rfl,rfl⟩
    exact ⟨(),versionV3,_,rfl,⟨(),_,_,⟨f.serial,serialOk,rfl⟩,
      ⟨(),pinnedSigalg pin,_,rfl,⟨(),_,_,⟨f.issuer,issuer,rfl⟩,
      ⟨_,_,_,⟨f.notBefore,f.notAfter,isTime,isTimeToo,rfl,rfl⟩,
      ⟨(),_,_,⟨f.subject,subject,rfl⟩,⟨f.key,_,_,⟨admitted,rfl⟩,
      ⟨(),_,[],⟨f.extensions,profile,rfl⟩,⟨rfl,rfl⟩,(append_nil _).symm⟩,rfl⟩,rfl⟩,rfl⟩,rfl⟩,rfl⟩,
      rfl⟩,rfl⟩

/-- What the signature of a certificate covers, from the transmitted TBSCertificate. -/
def signedPart (b : X509Build) (c : CertCrypto) (transmitted : Bytes) : Bytes :=
  if b.pin = .mldsa then transmitted else c.hash sha256Len transmitted

def CertFields.parsed (f : CertFields) (b : X509Build) (c : CertCrypto) (leaf : Bool) :
    ParsedCertificate where
  key := f.key
  epoch := if leaf then epochIndex f.notBefore else none
  signedPart := signedPart b c (tlv 0x30 (f.tbs b.pin))
  sig := f.sig

theorem reads_tbs :
    Reads readTbs
      (fun tbs front => tbs.2.length < 65536 ∧ tbs.1 = front ∧ front = tlv 0x30 tbs.2) := by
  intro bytes tbs next
  have taken : readTbs ⟨bytes,false⟩ = (readElement 0x30 ⟨bytes,false⟩).map fun found =>
      ((bytes.take (bytes.length - rbLeft found.2), found.1), found.2) := by
    change _ = ((x509ReadHeader 0x30 ⟨bytes,false⟩).bind fun found => rbTake found.1 found.2).map _
    unfold readTbs
    rcases x509ReadHeader 0x30 ⟨bytes,false⟩ with _ | ⟨len,rest⟩
    · rfl
    · dsimp only [Option.bind_some]
      rcases rbTake len rest with _ | ⟨content,after⟩ <;> rfl
  rw [taken,Option.map_eq_some_iff]
  constructor
  · rintro ⟨⟨content,⟨rest,err⟩⟩,read,same⟩
    obtain ⟨live,_,⟨small,rfl⟩,rfl⟩ := (reads_element 0x30 _ _ _).mp read
    cases live
    cases same
    exact ⟨rfl,_,⟨small,by simp,rfl⟩,rfl⟩
  · rcases tbs with ⟨sliced,content⟩
    rcases next with ⟨rest,err⟩
    rintro ⟨live,_,⟨small,slice,rfl⟩,rfl⟩
    cases live
    refine ⟨(content, ⟨rest,false⟩),(reads_element 0x30 _ _ _).mpr ⟨rfl,_,⟨small,rfl⟩,rfl⟩,?_⟩
    dsimp only at slice
    simp [slice]

theorem signedPartOf_eq (b : X509Build) (c : CertCrypto) (tbs : Bytes) :
    signedPartOf b c (tlv 0x30 tbs, tbs) = signedPart b c (tlv 0x30 tbs) := by
  unfold signedPartOf signedPart
  rw [x509EmitHeader_append]
  cases b.pin <;> rfl

theorem judges_signature {α : Type} (algid : Bytes) (make : Bytes → α) :
    Judges (do
        orOffProfile (x509ReadExact algid)
        let sig ← quietly x509ReadBitstring
        if sig.length = 0 then fun _ => Proc.stop .eproto else pure (make sig))
      (fun parsed front => ∃ sig, sig ≠ [] ∧ sig.length + 1 < 65536 ∧ parsed = make sig ∧
        front = algid ++ tlv 0x03 (0 :: sig)) := by
  have judged : ∀ sig : Bytes, Judges
      (if sig.length = 0 then fun _ => Proc.stop .eproto else pure (make sig))
      (fun parsed front => sig.length = 0 ∧ False ∨
        ¬ sig.length = 0 ∧ parsed = make sig ∧ front = []) := fun sig =>
    Judges.ite (fun _ => judges_refusal fun _ _ => ⟨.eproto,rfl⟩) (fun _ => judges_pure (make sig))
  refine ((judges_orOffProfile (reads_exact algid)).bind fun _ =>
    (judges_quietly reads_bitstring).bind judged).congr fun parsed front => ?_
  constructor
  · rintro ⟨_,_,_,rfl,⟨sig,_,_,⟨small,rfl⟩,⟨-,impossible⟩ | ⟨filled,rfl,rfl⟩,rfl⟩,rfl⟩
    · exact impossible.elim
    · exact ⟨sig,fun empty => filled (by rw [empty]; rfl),small,rfl,by simp⟩
  · rintro ⟨sig,filled,small,rfl,rfl⟩
    have nonempty : ¬ sig.length = 0 := fun empty => filled (length_eq_zero_iff.mp empty)
    exact ⟨(),_,_,rfl,⟨sig,_,[],⟨small,rfl⟩,.inr ⟨nonempty,rfl,rfl⟩,(append_nil _).symm⟩,rfl⟩

/-- A certificate is accepted exactly when it is the encoding of fields of the
profile, and what is taken from it are those fields. -/
theorem parseCertificate_eq_ok {b : X509Build} {c : CertCrypto} {leaf : Bool} {cert : Bytes}
    {parsed : ParsedCertificate} :
    (parseCertificate b c isCa leaf cert alert).1 = .ok parsed ↔
      ∃ f : CertFields, f.InProfile b.pin isCa ∧ (f.body b.pin).length < 65536 ∧
        cert = f.encode b.pin ∧ parsed = f.parsed b c leaf := by
  have fieldsOf : ∀ tbs : Bytes × Bytes, Judges (liftM (parseTbs b.pin isCa leaf tbs.2))
      (fun fields front => (∃ f : CertFields, f.TbsInProfile b.pin isCa ∧ f.issuer.length < 65536 ∧
        f.subject.length < 65536 ∧ tbs.2 = f.tbs b.pin ∧ fields.1 = f.key ∧
        fields.2 = (if leaf then epochIndex f.notBefore else none)) ∧ front = []) :=
    fun tbs => judges_lift fun alert fields => parseTbs_eq_ok
  have judges := (judges_quietly reads_tbs).bind fun tbs => (fieldsOf tbs).bind fun fields =>
    judges_signature (pinnedSigalg b.pin) fun sig =>
      (⟨fields.1,fields.2,signedPartOf b c tbs,sig⟩ : ParsedCertificate)
  rw [parseCertificate,judgeWhole_filling judges]
  constructor
  · rintro ⟨content,small,⟨⟨sliced,tbs⟩,_,_,⟨-,slice,rfl⟩,⟨⟨key,epoch⟩,_,_,
      ⟨⟨f,profile,-,-,sameTbs,sameKey,sameEpoch⟩,rfl⟩,⟨sig,some,-,rfl,rfl⟩,rfl⟩,rfl⟩,rfl⟩
    dsimp only at slice sameTbs sameKey sameEpoch small ⊢
    subst slice sameTbs sameKey sameEpoch
    refine ⟨{ f with sig := sig },⟨⟨profile.serial,profile.notBefore,profile.notAfter,profile.key,
      profile.extensions⟩,some⟩,small,rfl,?_⟩
    rw [signedPartOf_eq]
    rfl
  · rintro ⟨f,⟨profile,filled⟩,small,rfl,rfl⟩
    have tbsShort := tlv_length_lt 0x30 (f.tbs b.pin)
    have issuer := tlv_length_lt 0x30 f.issuer
    have subject := tlv_length_lt 0x30 f.subject
    have sig := tlv_length_lt 0x03 (0 :: f.sig)
    have whole : (f.body b.pin).length = (tlv 0x30 (f.tbs b.pin)).length +
        ((pinnedSigalg b.pin).length + (tlv 0x03 (0 :: f.sig)).length) := by
      simp only [CertFields.body,length_append]
    have inside :
        (tlv 0x30 f.issuer).length + (tlv 0x30 f.subject).length ≤ (f.tbs b.pin).length := by
      simp only [CertFields.tbs,length_append]
      omega
    rw [length_cons] at sig
    refine ⟨f.body b.pin,small,⟨(tlv 0x30 (f.tbs b.pin), f.tbs b.pin),_,_,⟨by dsimp only; omega,rfl,
      rfl⟩,⟨(f.key, if leaf then epochIndex f.notBefore else none),[],_,
      ⟨⟨f,profile,by omega,by omega,rfl,rfl,rfl⟩,rfl⟩,⟨f.sig,filled,by omega,?_,rfl⟩,rfl⟩,rfl⟩,rfl⟩
    rw [signedPartOf_eq]
    rfl

end Chapulin
