/-
Steps that judge a certificate.

A function of the source that can name an alert writes it through a pointer, and
the alert survives the refusal.  So a judging step runs over the alert, and a
refusal leaves the one it last wrote.  `Judges read grammar` says what such a step
accepts, whatever alert it starts from.
-/

import Chapulin.Cert.Der
import Chapulin.Session

namespace Chapulin

open Lib Lib.Der List

abbrev Judge (α : Type) : Type := Proc Nat Rc α

abbrev CertReader (α : Type) : Type := StateT Rbuf (Proc Nat Rc) α

def refuseWith {α : Type} (rc : Rc) (alert : Nat) : Judge α := fun _ => (.error rc, alert)

def offProfile {α : Type} : Judge α := refuseWith .eproto Alert.unsupportedCertificate

def quietly {α : Type} (read : DerReader α) : CertReader α := fun r =>
  match read r with
  | some result => Proc.ret result
  | none => Proc.stop .eproto

def orOffProfile {α : Type} (read : DerReader α) : CertReader α := fun r =>
  match read r with
  | some result => Proc.ret result
  | none => offProfile

def judgeWhole {α : Type} (read : CertReader α) (bytes : Bytes) : Judge α := do
  let (value, r) ← read (rbInit bytes)
  if r.err || decide (rbLeft r ≠ 0) then Proc.stop .eproto else pure value

def entryOf (cert : Bytes) : Bytes := be24 cert.length ++ (cert ++ [0,0])

/-- One CertificateEntry without extensions, its certificate of at most `certMax` bytes. -/
def readEntryUpTo (certMax : Nat) : DerReader Bytes := fun r =>
  let (n, r) := rbU24 r
  if r.err || decide (n = 0) || decide (n > certMax) then none
  else
    match rbTake n r with
    | none => none
    | some (cert, r) =>
      let (extensionsLen, r) := rbU16 r
      if extensionsLen = 0 && !r.err then some (cert, r) else none

/-! ### What a judging step accepts -/

/-- `Reads` for a judging step: the value it accepts does not depend on the alert. -/
def Judges {α : Type} (read : CertReader α) (grammar : α → Bytes → Prop) : Prop :=
  ∀ bytes alert value next, (read ⟨bytes,false⟩ alert).1 = .ok (value, next) ↔
    next.err = false ∧ ∃ front, grammar value front ∧ bytes = front ++ next.rest

section Rules

variable {α β : Type}

theorem fst_bind_eq_ok {first : Judge α} {rest : α → Judge β} {alert : Nat} {result : β} :
    ((first >>= rest) alert).1 = .ok result ↔
      ∃ value, (first alert).1 = .ok value ∧ (rest value (first alert).2).1 = .ok result := by
  rw [Proc.bind_apply]
  rcases first alert with ⟨rc | value,next⟩
  · simp
  · simp

theorem fst_refused_or {condition : Prop} [Decidable condition] {rc : Rc} {named alert : Nat}
    {judge : Judge α} {value : α} :
    ((if condition then refuseWith rc named else judge) alert).1 = .ok value ↔
      ¬ condition ∧ (judge alert).1 = .ok value := by
  by_cases holds : condition
  · rw [if_pos holds]
    simp [holds,refuseWith]
  · rw [if_neg holds]
    simp [holds]

theorem fst_pure_eq_ok {found value : α} {alert : Nat} :
    ((pure found : Judge α) alert).1 = .ok value ↔ found = value := by
  simp

variable {read : CertReader α}

theorem Judges.congr {grammar other : α → Bytes → Prop}
    (judges : Judges read grammar) (same : ∀ value front, grammar value front ↔ other value front) :
    Judges read other := by
  intro bytes alert value next
  rw [judges bytes alert value next]
  simp only [same]

theorem fst_quietly_eq_ok {read : DerReader α} {r next : Rbuf} {alert : Nat} {value : α} :
    (quietly read r alert).1 = .ok (value, next) ↔ read r = some (value, next) := by
  unfold quietly
  rcases read r with _ | ⟨found,after⟩
  · simp
  · simp

variable {grammar : α → Bytes → Prop}

theorem judges_quietly {read : DerReader α} (reads : Reads read grammar) :
    Judges (quietly read) grammar := by
  intro bytes alert value next
  rw [← reads bytes value next]
  exact fst_quietly_eq_ok

theorem judges_orOffProfile {read : DerReader α}
    (reads : Reads read grammar) : Judges (orOffProfile read) grammar := by
  intro bytes alert value next
  rw [← reads bytes value next]
  unfold orOffProfile
  rcases read ⟨bytes,false⟩ with _ | ⟨found,after⟩
  · simp [offProfile,refuseWith]
  · simp

theorem judges_pure (value : α) :
    Judges (pure value) (fun other front => other = value ∧ front = []) := by
  intro bytes alert other next
  rw [← reads_pure value bytes other next]
  change Except.ok (value, (⟨bytes,false⟩ : Rbuf)) = .ok (other, next) ↔
    some (value, (⟨bytes,false⟩ : Rbuf)) = some (other, next)
  simp

theorem fst_readerBind_eq_ok {first : CertReader α} {rest : α → CertReader β} {r next : Rbuf}
    {alert : Nat} {result : β} :
    ((first >>= rest) r alert).1 = .ok (result, next) ↔
      ∃ value middle, (first r alert).1 = .ok (value, middle) ∧
        (rest value middle (first r alert).2).1 = .ok (result, next) := by
  have both := @fst_bind_eq_ok _ _ (first r) (fun pair => rest pair.1 pair.2) alert (result, next)
  rw [Prod.exists] at both
  exact both

/-- Judges in sequence accept the concatenation of what each one accepts. -/
theorem Judges.bind {first : CertReader α} {rest : α → CertReader β}
    {grammars : α → β → Bytes → Prop} (judgesFirst : Judges first grammar)
    (judgesRest : ∀ value, Judges (rest value) (grammars value)) :
    Judges (first >>= rest) (fun result front => ∃ value left right,
      grammar value left ∧ grammars value result right ∧ front = left ++ right) := by
  intro bytes alert result next
  rw [fst_readerBind_eq_ok]
  constructor
  · rintro ⟨value,⟨middle,failed⟩,took,returned⟩
    obtain ⟨live,left,inFirst,rfl⟩ := (judgesFirst bytes alert value _).mp took
    cases live
    obtain ⟨nextLive,right,inRest,rfl⟩ := (judgesRest value middle _ result next).mp returned
    exact ⟨nextLive,left ++ right,⟨value,left,right,inFirst,inRest,rfl⟩,(append_assoc ..).symm⟩
  · rintro ⟨nextLive,front,⟨value,left,right,inFirst,inRest,rfl⟩,rfl⟩
    refine ⟨value,⟨right ++ next.rest,false⟩,?_,?_⟩
    · exact (judgesFirst _ _ _ _).mpr ⟨rfl,left,inFirst,append_assoc ..⟩
    · exact (judgesRest _ _ _ _ _).mpr ⟨nextLive,right,inRest,rfl⟩

theorem judges_refusal
    (refuses : ∀ r alert, ∃ rc, (read r alert).1 = .error rc) : Judges read (fun _ _ => False) := by
  intro bytes alert value next
  obtain ⟨rc,refused⟩ := refuses ⟨bytes,false⟩ alert
  rw [refused]
  simp

theorem Judges.ite {condition : Prop} [Decidable condition] {first second : CertReader α}
    {grammar other : α → Bytes → Prop} (judgesFirst : condition → Judges first grammar)
    (judgesSecond : ¬ condition → Judges second other) :
    Judges (if condition then first else second)
      (fun value front => condition ∧ grammar value front ∨ ¬ condition ∧ other value front) := by
  intro bytes alert value next
  by_cases holds : condition
  · rw [if_pos holds,judgesFirst holds bytes alert value next]
    simp only [holds,true_and,not_true,false_and,or_false]
  · rw [if_neg holds,judgesSecond holds bytes alert value next]
    simp only [holds,false_and,not_false_eq_true,true_and,false_or]

theorem judges_lift {judge : Judge α} {accepted : α → Prop}
    (judged : ∀ alert value, (judge alert).1 = .ok value ↔ accepted value) :
    Judges (liftM judge : CertReader α) (fun value front => accepted value ∧ front = []) := by
  intro bytes alert value next
  have peeled := @fst_bind_eq_ok _ _ judge (fun found => pure (found, (⟨bytes,false⟩ : Rbuf))) alert
    (value, next)
  refine peeled.trans ?_
  simp only [judged,Proc.pure_apply,Except.ok.injEq,Prod.mk.injEq]
  constructor
  · rintro ⟨found,holds,rfl,rfl⟩
    exact ⟨rfl,[],⟨holds,rfl⟩,rfl⟩
  · rintro ⟨live,front,⟨holds,rfl⟩,rfl⟩
    refine ⟨value,holds,rfl,?_⟩
    rcases next with ⟨rest,err⟩
    cases live
    rfl

/-- A judge run over all of its input accepts exactly the strings of its grammar. -/
theorem judgeWhole_eq_ok (judges : Judges read grammar) (bytes : Bytes) (alert : Nat) (value : α) :
    (judgeWhole read bytes alert).1 = .ok value ↔ grammar value bytes := by
  rw [judgeWhole,fst_bind_eq_ok]
  constructor
  · rintro ⟨⟨found,⟨rest,err⟩⟩,took,ended⟩
    obtain ⟨live,front,inGrammar,rfl⟩ := (judges bytes alert found _).mp took
    cases live
    dsimp only at ended
    split at ended
    · cases ended
    · rename_i empty
      cases ended
      have nothing : rest = [] := length_eq_zero_iff.mp (by simpa using empty)
      rw [nothing,append_nil]
      exact inGrammar
  · intro inGrammar
    refine ⟨(value, ⟨[],false⟩),?_,rfl⟩
    exact (judges bytes alert value _).mpr ⟨rfl,bytes,inGrammar,(append_nil _).symm⟩

theorem judgeWhole_filling {tag : UInt8}
    (judges : Judges read grammar) (bytes : Bytes) (alert : Nat) (value : α) :
    (judgeWhole (quietly (readFilling tag) >>= fun _ => read) bytes alert).1 = .ok value ↔
      ∃ content, content.length < 65536 ∧ grammar value content ∧ bytes = tlv tag content := by
  have split : judgeWhole (quietly (readFilling tag) >>= fun _ => read) bytes =
      quietly (readFilling tag) (rbInit bytes) >>= fun pair => read pair.2 >>= fun result =>
        if result.2.err || decide (rbLeft result.2 ≠ 0) then Proc.stop .eproto else pure result.1 :=
    Proc.bind_assoc _ _ _
  rw [split,fst_bind_eq_ok]
  constructor
  · rintro ⟨⟨_,⟨content,err⟩⟩,filled,judged⟩
    obtain ⟨live,small,rfl⟩ := readFilling_eq_some.mp (fst_quietly_eq_ok.mp filled)
    cases live
    exact ⟨content,small,(judgeWhole_eq_ok judges content _ value).mp judged,rfl⟩
  · rintro ⟨content,small,inGrammar,rfl⟩
    refine ⟨((), ⟨content,false⟩),?_,(judgeWhole_eq_ok judges content _ value).mpr inGrammar⟩
    exact fst_quietly_eq_ok.mpr (readFilling_eq_some.mpr ⟨rfl,small,rfl⟩)

end Rules

/-- An entry is a certificate within the bound and no extensions. -/
theorem reads_entryUpTo {certMax : Nat} (bounded : certMax < 16777216) :
    Reads (readEntryUpTo certMax) (fun cert front => 1 ≤ cert.length ∧ cert.length ≤ certMax ∧
      front = entryOf cert) := by
  intro bytes cert next
  unfold readEntryUpTo
  constructor
  · intro returned
    rcases read : rbU24 ⟨bytes,false⟩ with ⟨n,r⟩
    rw [read] at returned
    dsimp only at returned
    split at returned
    · cases returned
    rename_i admitted
    simp only [Bool.or_eq_true,decide_eq_true_eq,not_or] at admitted
    have live : (rbU24 ⟨bytes,false⟩).2.err = false := by
      rw [read]
      simpa using admitted.1.1
    obtain ⟨hi,mid,lo,rest,same,spelled⟩ := rbU24_inv live
    cases same
    rw [spelled] at read
    cases read
    rcases took : rbTake (ofBe24 hi mid lo) ⟨rest,false⟩ with _ | ⟨found,after⟩
    · rw [took] at returned
      cases returned
    obtain ⟨afterLive,_,⟨rfl,length⟩,rfl⟩ := (reads_take _ _ _ _).mp took
    rw [took] at returned
    dsimp only at returned
    split at returned
    · rename_i plain
      cases returned
      rcases after with ⟨after,err⟩
      cases afterLive
      simp only [Bool.and_eq_true,decide_eq_true_eq,Bool.not_eq_eq_eq_not,Bool.not_true] at plain
      obtain ⟨zero,one,last,same,spelled⟩ := rbU16_inv plain.2
      cases same
      rw [spelled] at plain ⊢
      have octets : [zero,one] = [0,0] := by
        have zeroLength : ofBe16 zero one = 0 := plain.1
        rw [← be16_ofBe16,zeroLength]
        rfl
      refine ⟨rfl,_,⟨by omega,by omega,rfl⟩,?_⟩
      rw [entryOf,length,be24_ofBe24,← octets]
      simp
    · cases returned
  · rintro ⟨live,front,⟨filled,capped,rfl⟩,rfl⟩
    rcases next with ⟨rest,err⟩
    cases live
    have small : cert.length < 16777216 := Nat.lt_of_le_of_lt capped bounded
    have framed : entryOf cert ++ rest = be24 cert.length ++ (cert ++ (0 :: 0 :: rest)) := by
      simp [entryOf]
    have took := (reads_take cert.length (cert ++ (0 :: 0 :: rest)) cert ⟨0 :: 0 :: rest,false⟩).mpr
      ⟨rfl,cert,⟨rfl,rfl⟩,rfl⟩
    have admitted :
        ¬ ((false || decide (cert.length = 0) || decide (cert.length > certMax)) = true) := by
      simp only [Bool.or_eq_true,decide_eq_true_eq,Bool.false_eq_true,false_or]
      omega
    rw [framed,rbU24_be24 _ _ small]
    dsimp only
    rw [if_neg admitted,took]
    rfl

/-! ### Verdicts do not depend on the alert -/

section Blind

variable {α β : Type}

def Blind (judge : Judge α) : Prop := ∀ first second, (judge first).1 = (judge second).1

def BlindReader (read : CertReader α) : Prop := ∀ r, Blind (read r)

theorem blind_pure (value : α) : Blind (pure value : Judge α) := fun _ _ => rfl

theorem blind_stop (rc : Rc) : Blind (Proc.stop rc : Judge α) := fun _ _ => rfl

theorem blind_refuseWith (rc : Rc) (alert : Nat) : Blind (refuseWith rc alert : Judge α) :=
  fun _ _ => rfl

theorem Blind.bind {judge : Judge α} {rest : α → Judge β} (blind : Blind judge)
    (blindRest : ∀ value, Blind (rest value)) : Blind (judge >>= rest) := by
  intro first second
  have same := blind first second
  rw [Proc.bind_apply,Proc.bind_apply]
  generalize judge first = ran, judge second = ranToo at same ⊢
  rcases ran with ⟨rc | value,next⟩
  · rcases ranToo with ⟨other | _,_⟩
    · cases same
      rfl
    · cases same
  · rcases ranToo with ⟨_ | other,after⟩
    · cases same
    · cases same
      exact blindRest value next after

theorem Blind.ite {condition : Prop} [Decidable condition] {judge other : Judge α}
    (blind : Blind judge) (blindOther : Blind other) :
    Blind (if condition then judge else other) := by
  split
  · exact blind
  · exact blindOther

theorem BlindReader.bind {read : CertReader α} {rest : α → CertReader β} (blind : BlindReader read)
    (blindRest : ∀ value, BlindReader (rest value)) : BlindReader (read >>= rest) := fun r =>
  Blind.bind (blind r) fun pair => blindRest pair.1 pair.2

theorem blindReader_pure (value : α) : BlindReader (pure value : CertReader α) := fun _ _ _ => rfl

theorem blindReader_quietly (read : DerReader α) : BlindReader (quietly read) := by
  intro r
  unfold quietly
  split
  · exact fun _ _ => rfl
  · exact blind_stop _

theorem blindReader_orOffProfile (read : DerReader α) : BlindReader (orOffProfile read) := by
  intro r
  unfold orOffProfile
  split
  · exact fun _ _ => rfl
  · exact blind_refuseWith _ _

theorem blindReader_lift {judge : Judge α} (blind : Blind judge) :
    BlindReader (liftM judge : CertReader α) := fun r =>
  Blind.bind blind fun value => blind_pure (value, r)

theorem BlindReader.ite {condition : Prop} [Decidable condition] {read other : CertReader α}
    (blind : BlindReader read) (blindOther : BlindReader other) :
    BlindReader (if condition then read else other) := by
  split
  · exact blind
  · exact blindOther

theorem blind_judgeWhole {read : CertReader α} (blind : BlindReader read) (bytes : Bytes) :
    Blind (judgeWhole read bytes) :=
  Blind.bind (blind _) fun _ => Blind.ite (blind_stop _) (blind_pure _)

end Blind

end Chapulin
