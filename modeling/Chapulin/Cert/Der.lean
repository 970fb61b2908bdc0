/-
The canonical DER readers both certificate parsers call (`x509_der.c`).

A reader of the source answers 1 with its results written, or 0, and every
caller stops at a 0.  Here it returns its results with the buffer after them,
or none.  `Reads read grammar` says exactly which strings a reader accepts: the
value it returns is the one the grammar gives to the string in front of what it
leaves, and it accepts every string the grammar has.
-/

import Chapulin.Buf
import Chapulin.Build
import Chapulin.Lib.Der
import Mathlib.Data.List.Forall2

namespace Chapulin

open Lib List

variable {bits bytes : Bytes} {n : Nat} {condition : Prop} {next : Rbuf} {tag : UInt8}

abbrev DerReader (α : Type) : Type := StateT Rbuf Option α

/-- `rb_bytes` and the check of its pointer. -/
def rbTake (n : Nat) : DerReader Bytes := fun r =>
  match rbBytes n r with
  | (some taken, r) => some (taken, r)
  | (none, _) => none

def rbOctet : DerReader Nat := fun r => some (rbU8 r)

/-- The end of `x509_read_len`: the length fits the bytes that remain. -/
def lengthFits (len : Nat) : DerReader Nat := fun r =>
  if r.err || decide (len > rbLeft r) then none else some (len, r)

def x509ReadLen : DerReader Nat := do
  let len ← rbOctet
  if len = 0x80 ∨ len > 0x82 then failure
  else if len = 0x81 then
    let len ← rbOctet
    if len < 0x80 then failure else lengthFits len
  else if len = 0x82 then
    let hi ← rbOctet
    let lo ← rbOctet
    if hi * 256 + lo < 0x100 then failure else lengthFits (hi * 256 + lo)
  else lengthFits len

def x509ReadHeader (tag : UInt8) : DerReader Nat := fun r =>
  let (octet, r) := rbU8 r
  if octet ≠ tag.toNat || r.err then none else x509ReadLen r

/-- `x509_read_header` and `rb_bytes` over its length. -/
def readElement (tag : UInt8) : DerReader Bytes := do
  let len ← x509ReadHeader tag
  rbTake len

def x509ReadExact (want : Bytes) : DerReader Unit := do
  let got ← rbTake want.length
  if got = want then pure () else failure

def x509Skip (tag : UInt8) : DerReader Unit := do
  let len ← x509ReadHeader tag
  let _ ← rbTake len

/-- The content rules of `x509_read_serial`. -/
def serialContentOk (c : Bytes) : Bool :=
  let first := (c.getD 0 0).toNat
  let second := (c.getD 1 0).toNat
  !(decide (first ≥ 0x80) || (first == 0 && (c.length == 1 || decide (second < 0x80))) ||
    (c.length == 21 && first != 0))

def x509ReadSerial : DerReader Unit := do
  let len ← x509ReadHeader 0x02
  if len = 0 ∨ len > 21 then failure
  else
    let c ← rbTake len
    if serialContentOk c then pure () else failure

/-- `read_time_bytes`: the content of a UTCTime (13 bytes) or a GeneralizedTime (15). -/
def readTimeBytes : DerReader Bytes := do
  let tag ← rbOctet
  let want := if tag = 0x17 then 13 else if tag = 0x18 then 15 else 0
  if want = 0 then failure
  else
    let len ← rbOctet
    if len ≠ want then failure
    else
      let c ← rbTake want
      if c.getD (want - 1) 0 = 0x5a then pure c else failure

def x509ReadTime : DerReader Unit := do
  let _ ← readTimeBytes

def timeDigit (c : UInt8) : Nat := (c.toNat + 4294967296 - 48) % 4294967296

def digitsIndex (digit : List Nat) : Option Nat :=
  if digit.any (fun d => decide (d > 9)) then none
  else
    let at_ := fun i => digit.getD i 0
    let yy := at_ 0 * 10 + at_ 1
    let mm := at_ 2 * 10 + at_ 3
    let dd := at_ 4 * 10 + at_ 5
    let hms := at_ 6 + at_ 7 + at_ 8 + at_ 9 + at_ 10 + at_ 11
    if yy > 49 ∨ mm < 1 ∨ mm > 12 ∨ dd < 1 ∨ dd > 28 ∨ hms ≠ 0 then none
    else some (yy * 336 + (mm - 1) * 28 + (dd - 1))

/-- The epoch number of a shape-valid time, none when the time is not an allowed
epoch. -/
def epochIndex (c : Bytes) : Option Nat :=
  if c.length ≠ 13 then none else digitsIndex ((c.take 12).map timeDigit)

def x509ReadTimeEpoch : DerReader (Option Nat) := do
  let c ← readTimeBytes
  pure (epochIndex c)

/-- The bit rules of `x509_read_keyusage` on the BIT STRING's content. -/
def keyusageContentOk (c : Bytes) (required : Nat) : Bool :=
  let unused := (c.getD 0 0).toNat
  let last := (c.getD (c.length - 1) 0).toNat
  if unused > 7 ∨ last = 0 then false
  else if last &&& (2 ^ unused - 1) ≠ 0 then false
  else if (last >>> unused) &&& 1 = 0 then false
  else (c.getD 1 0).toNat &&& required ≠ 0

def x509ReadBitstring : DerReader Bytes := do
  let len ← x509ReadHeader 0x03
  if len < 1 then failure
  else
    let unused ← rbOctet
    if unused ≠ 0 then failure else rbTake (len - 1)

def readWhole {α : Type} (read : DerReader α) (bytes : Bytes) : Option α :=
  match read (rbInit bytes) with
  | none => none
  | some (value, r) => if r.err || decide (rbLeft r ≠ 0) then none else some value

def x509ReadKeyusage (v : Bytes) (required : Nat) : Bool :=
  let content := readWhole (do
    let len ← x509ReadHeader 0x03
    if len < 2 ∨ len > 3 then failure else rbTake len) v
  match content with
  | none => false
  | some c => keyusageContentOk c required

/-- A loop that reads until nothing is left; `room` bounds its rounds. -/
def readRounds {α : Type} (read : DerReader α) (room : Nat) : DerReader (List α) := fun r =>
  if rbLeft r = 0 then some ([], r)
  else
    match room with
    | 0 => none
    | room + 1 =>
      match read r with
      | none => none
      | some (value, r) =>
        match readRounds read room r with
        | none => none
        | some (values, r) => some (value :: values, r)

/-- A loop that reads until nothing is left.  A round that succeeds takes an octet, so
the octets that are left bound the rounds. -/
def readMany {α : Type} (read : DerReader α) : DerReader (List α) := fun r =>
  readRounds read (rbLeft r) r

/-- `x509_read_header` on a buffer the element has to fill. -/
def readFilling (tag : UInt8) : DerReader Unit := fun r =>
  match x509ReadHeader tag r with
  | none => none
  | some (len, r) => if len ≠ rbLeft r then none else some ((), r)

def spkiAlgid : PinAlg → Bytes
  | .ecdsa => [0x30,0x13,0x06,0x07,0x2a,0x86,0x48,0xce,0x3d,0x02,0x01,0x06,0x08,0x2a,0x86,0x48,0xce,
      0x3d,0x03,0x01,0x07]
  | .mldsa => [0x30,0x0b,0x06,0x09,0x60,0x86,0x48,0x01,0x65,0x03,0x04,0x03,0x13]
  | .rsa => [0x30,0x0d,0x06,0x09,0x2a,0x86,0x48,0x86,0xf7,0x0d,0x01,0x01,0x01,0x05,0x00]

def spkiExponent : Bytes := [0x02,0x03,0x01,0x00,0x01]

def modulusAdmitted (modulusMax : Nat) (v : Bytes) : Bool :=
  decide ((v.getD 0 0).toNat ≥ 0x80) &&
    (decide (256 ≤ v.length) && decide (v.length ≤ modulusMax) && v.length % 8 == 0) &&
    (v.getD (v.length - 1) 0).toNat % 2 == 1

/-- `read_rsa_modulus` of `x509_der.c` and of `webpki_spki.c`, which differ in the
largest modulus. -/
def readRsaModulus (modulusMax : Nat) : DerReader Bytes := do
  let contentLen ← x509ReadHeader 0x02
  if contentLen < 2 then failure
  else
    let pad ← rbOctet
    if pad ≠ 0 then failure
    else
      let v ← rbTake (contentLen - 1)
      if modulusAdmitted modulusMax v then pure v else failure

/-- `RSAPublicKey`, filling the BIT STRING. -/
def readRsaKey (modulusMax : Nat) (bits : Bytes) : Option Bytes :=
  readWhole (do
    readFilling 0x30
    let modulus ← readRsaModulus modulusMax
    x509ReadExact spkiExponent
    pure modulus) bits

def readEcPoint (coordinateLen : Nat) (bits : Bytes) : Option Bytes :=
  readWhole (do
    let form ← rbOctet
    if form ≠ 0x04 then failure else rbTake (2 * coordinateLen)) bits

def spkiKey (pin : PinAlg) (bits : Bytes) : Option Bytes :=
  match pin with
  | .ecdsa => readEcPoint 32 bits
  | .mldsa => if bits.length ≠ 2592 then none else some bits
  | .rsa => readRsaKey 384 bits

def x509ReadSpki (pin : PinAlg) : DerReader Bytes := do
  let body ← readElement 0x30
  let bits ← readWhole (do x509ReadExact (spkiAlgid pin); x509ReadBitstring) body
  spkiKey pin bits

/-- `oid_minimal`; the flag says that the next octet starts a sub-identifier. -/
def oidMinimalFrom : Bool → Bytes → Bool
  | atStart, [] => atStart
  | atStart, octet :: rest =>
    if atStart && octet == 0x80 then false else oidMinimalFrom (decide (octet.toNat < 0x80)) rest

def oidMinimal (oid : Bytes) : Bool := oidMinimalFrom true oid

structure X509Extension where
  oid : Bytes
  value : Bytes
  critical : Bool
  deriving DecidableEq, Repr

/-- The optional `critical` field and the tag behind it: the flag, and the tag. -/
def readCritical : DerReader (Bool × Nat) := do
  let tag ← rbOctet
  if tag = 0x01 then
    let boolLen ← rbOctet
    let boolVal ← rbOctet
    if boolLen ≠ 0x01 ∨ boolVal ≠ 0xff then failure
    else
      let tag ← rbOctet
      pure (true, tag)
  else pure (false, tag)

def readExtensionFields : DerReader X509Extension := do
  let oidLen ← x509ReadHeader 0x06
  if oidLen = 0 ∨ oidLen > 16 then failure
  else
    let oid ← rbTake oidLen
    if !oidMinimal oid then failure
    else
      let flagged ← readCritical
      if flagged.2 ≠ 0x04 then failure
      else
        let valueLen ← x509ReadLen
        let value ← rbTake valueLen
        pure { oid := oid, value := value, critical := flagged.1 }

def x509ReadExtension (tlvCap : Nat) : DerReader X509Extension := fun e =>
  let before := rbLeft e
  match x509ReadHeader 0x30 e with
  | none => none
  | some (len, e) =>
    if before - rbLeft e + len > tlvCap then none
    else
      match rbTake len e with
      | none => none
      | some (body, e) => (readWhole readExtensionFields body).map (·, e)

def x509EmitHeader (tag : UInt8) (len : Nat) : Bytes :=
  if len < 0x80 then [tag,byte len]
  else if len < 0x100 then [tag,0x81,byte len]
  else [tag,0x82,byte (len / 256),byte len]

/-! ### What a reader accepts -/

/-- From a buffer without error the reader returns a value exactly when the
grammar gives that value to the string in front of what it leaves. -/
def Reads {α : Type} (read : DerReader α) (grammar : α → Bytes → Prop) : Prop :=
  ∀ bytes value next, read ⟨bytes,false⟩ = some (value, next) ↔
    next.err = false ∧ ∃ front, grammar value front ∧ bytes = front ++ next.rest

section Rules

variable {α β : Type} {read : DerReader α}

theorem Reads.congr {grammar other : α → Bytes → Prop}
    (reads : Reads read grammar) (same : ∀ value front, grammar value front ↔ other value front) :
    Reads read other := by
  intro bytes value next
  rw [reads bytes value next]
  simp only [same]

theorem reads_failure : Reads (failure : DerReader α) (fun _ _ => False) := by
  intro bytes value next
  change none = some (value, next) ↔ _
  simp

theorem bind_eq_some {first : DerReader α} {rest : α → DerReader β} {r : Rbuf} {result : β} :
    (first >>= rest) r = some (result, next) ↔
      ∃ value middle, first r = some (value, middle) ∧ rest value middle = some (result, next) := by
  change (first r).bind (fun pair => rest pair.1 pair.2) = some (result, next) ↔ _
  rw [Option.bind_eq_some_iff]
  simp only [Prod.exists]

variable {grammar : α → Bytes → Prop}

/-- Readers in sequence read the concatenation of what each one reads. -/
theorem Reads.bind {first : DerReader α} {rest : α → DerReader β}
    {grammars : α → β → Bytes → Prop} (readsFirst : Reads first grammar)
    (readsRest : ∀ value, Reads (rest value) (grammars value)) :
    Reads (first >>= rest) (fun result front => ∃ value left right,
      grammar value left ∧ grammars value result right ∧ front = left ++ right) := by
  intro bytes result next
  rw [bind_eq_some]
  constructor
  · rintro ⟨value,⟨middle,failed⟩,took,returned⟩
    obtain ⟨live,left,inFirst,rfl⟩ := (readsFirst bytes value _).mp took
    cases live
    obtain ⟨nextLive,right,inRest,rfl⟩ := (readsRest value middle result next).mp returned
    exact ⟨nextLive,left ++ right,⟨value,left,right,inFirst,inRest,rfl⟩,(append_assoc ..).symm⟩
  · rintro ⟨nextLive,front,⟨value,left,right,inFirst,inRest,rfl⟩,rfl⟩
    refine ⟨value,⟨right ++ next.rest,false⟩,?_,?_⟩
    · exact (readsFirst _ _ _).mpr ⟨rfl,left,inFirst,append_assoc ..⟩
    · exact (readsRest _ _ _ _).mpr ⟨nextLive,right,inRest,rfl⟩

theorem Reads.check [Decidable condition] {rest : DerReader α}
    (reads : condition → Reads rest grammar) :
    Reads (if condition then rest else failure)
      (fun value front => condition ∧ grammar value front) := by
  intro bytes value next
  by_cases holds : condition
  · rw [if_pos holds,reads holds bytes value next]
    simp only [holds,true_and]
  · rw [if_neg holds,reads_failure bytes value next]
    simp only [holds,false_and]

theorem Reads.refuse [Decidable condition] {rest : DerReader α}
    (reads : ¬ condition → Reads rest grammar) :
    Reads (if condition then failure else rest)
      (fun value front => ¬ condition ∧ grammar value front) := by
  have flipped : Reads (if ¬ condition then rest else failure) _ := Reads.check reads
  simpa only [ite_not] using flipped

theorem reads_lift (computed : Option α) :
    Reads (liftM computed : DerReader α)
      (fun value front => computed = some value ∧ front = []) := by
  intro bytes value next
  rcases next with ⟨rest,err⟩
  cases computed with
  | none =>
    change none = some (value, (⟨rest,err⟩ : Rbuf)) ↔ _
    simp
  | some found =>
    change some (found, (⟨bytes,false⟩ : Rbuf)) = some (value, ⟨rest,err⟩) ↔ _
    simp only [Option.some.injEq,Prod.mk.injEq,Rbuf.mk.injEq]
    constructor
    · rintro ⟨rfl,rfl,rfl⟩
      exact ⟨rfl,[],⟨rfl,rfl⟩,rfl⟩
    · rintro ⟨live,front,⟨rfl,rfl⟩,rfl⟩
      exact ⟨rfl,rfl,live.symm⟩

theorem reads_pure (value : α) :
    Reads (pure value) (fun other front => other = value ∧ front = []) :=
  (reads_lift (some value)).congr fun other front => by rw [Option.some.injEq,eq_comm]

theorem Reads.map (reads : Reads read grammar)
    (f : α → β) : Reads (read >>= fun value => pure (f value))
      (fun result front => ∃ value, grammar value front ∧ result = f value) := by
  refine (reads.bind fun value => reads_pure (f value)).congr fun result front => ?_
  constructor
  · rintro ⟨value,left,_,inRead,⟨rfl,rfl⟩,rfl⟩
    exact ⟨value,by rwa [append_nil],rfl⟩
  · rintro ⟨value,inRead,rfl⟩
    exact ⟨value,front,[],inRead,⟨rfl,rfl⟩,(append_nil _).symm⟩

theorem reads_take (n : Nat) :
    Reads (rbTake n) (fun taken front => taken = front ∧ front.length = n) := by
  intro bytes taken next
  constructor
  · intro took
    unfold rbTake at took
    rcases read : rbBytes n ⟨bytes,false⟩ with ⟨found,after⟩
    rw [read] at took
    cases found with
    | none => cases took
    | some found =>
      cases took
      obtain ⟨whole,live,length⟩ := rbBytes_eq_some read
      exact ⟨live,taken,⟨rfl,length⟩,congrArg Rbuf.rest whole⟩
  · rintro ⟨live,front,⟨rfl,rfl⟩,rfl⟩
    rcases next with ⟨rest,err⟩
    cases live
    simp only [rbTake,rbBytes_append]

theorem reads_takeMap (n : Nat) (f : Bytes → β) :
    Reads (rbTake n >>= fun content => pure (f content)) (fun result front => ∃ content right,
      content.length = n ∧ (result = f content ∧ right = []) ∧ front = content ++ right) := by
  refine ((reads_take n).map f).congr fun result front => ?_
  constructor
  · rintro ⟨content,⟨rfl,length⟩,rfl⟩
    exact ⟨content,[],length,⟨rfl,rfl⟩,(append_nil _).symm⟩
  · rintro ⟨content,_,length,⟨rfl,rfl⟩,rfl⟩
    rw [append_nil]
    exact ⟨content,⟨rfl,length⟩,rfl⟩

def Sticky (read : DerReader α) : Prop := ∀ bytes, read ⟨bytes,true⟩ = none

/-- One octet and what is read behind it.  An octet that is not there reads as 0
with the error set, so what follows has to refuse then. -/
theorem reads_octet {rest : Nat → DerReader β} {grammars : Nat → β → Bytes → Prop}
    (reads : ∀ octet, Reads (rest octet) (grammars octet)) (sticky : Sticky (rest 0)) :
    Reads (rbOctet >>= rest) (fun result front => ∃ octet right,
      grammars octet.toNat result right ∧ front = octet :: right) := by
  intro bytes result next
  cases bytes with
  | nil =>
    change rest 0 ⟨[],true⟩ = some (result, next) ↔ _
    rw [sticky]
    constructor
    · intro impossible
      cases impossible
    · rintro ⟨-,front,⟨octet,right,-,rfl⟩,same⟩
      cases same
  | cons octet bytes =>
    change rest octet.toNat ⟨bytes,false⟩ = some (result, next) ↔ _
    rw [reads octet.toNat bytes result next]
    constructor
    · rintro ⟨live,right,inRest,rfl⟩
      exact ⟨live,octet :: right,⟨octet,right,inRest,rfl⟩,rfl⟩
    · rintro ⟨live,front,⟨other,right,inRest,rfl⟩,same⟩
      cases same
      exact ⟨live,right,inRest,rfl⟩

/-- One of two tags and what is read behind each. -/
theorem reads_either {rest : Nat → DerReader β} {one two : UInt8} {left right : β → Bytes → Prop}
    (differ : one ≠ two) (sticky : Sticky (rest 0)) (first : Reads (rest one.toNat) left)
    (second : Reads (rest two.toNat) right)
    (others : ∀ tag, tag ≠ one.toNat → tag ≠ two.toNat → rest tag = failure) :
    Reads (rbOctet >>= rest) (fun result front =>
      (∃ body, left result body ∧ front = one :: body) ∨
        ∃ body, right result body ∧ front = two :: body) := by
  have apart : one.toNat ≠ two.toNat := fun same => differ (UInt8.toNat_inj.mp same)
  refine (@reads_octet β rest (fun tag result body => tag = one.toNat ∧ left result body ∨
    tag = two.toNat ∧ right result body) (fun tag => ?_) sticky).congr fun result front => ?_
  · by_cases isOne : tag = one.toNat
    · subst isOne
      exact first.congr fun _ _ => by simp [apart]
    by_cases isTwo : tag = two.toNat
    · subst isTwo
      exact second.congr fun _ _ => by simp [apart.symm]
    · rw [others tag isOne isTwo]
      exact reads_failure.congr fun _ _ => by simp [isOne,isTwo]
  · constructor
    · rintro ⟨tag,body,⟨same,inLeft⟩ | ⟨same,inRight⟩,rfl⟩
      · exact .inl ⟨body,inLeft,by rw [UInt8.toNat_inj.mp same]⟩
      · exact .inr ⟨body,inRight,by rw [UInt8.toNat_inj.mp same]⟩
    · rintro (⟨body,inLeft,rfl⟩ | ⟨body,inRight,rfl⟩)
      · exact ⟨one,body,.inl ⟨rfl,inLeft⟩,rfl⟩
      · exact ⟨two,body,.inr ⟨rfl,inRight⟩,rfl⟩

/-- A reader run over all of its input accepts exactly the strings of its grammar. -/
theorem readWhole_eq_some (reads : Reads read grammar) (bytes : Bytes) (value : α) :
    readWhole read bytes = some value ↔ grammar value bytes := by
  unfold readWhole
  constructor
  · intro returned
    rcases took : read (rbInit bytes) with _ | ⟨found,⟨rest,err⟩⟩
    · rw [took] at returned
      cases returned
    · rw [took] at returned
      obtain ⟨live,front,inGrammar,same⟩ := (reads bytes found ⟨rest,err⟩).mp took
      cases live
      simp only [Bool.false_or,rbLeft_live] at returned
      split at returned
      · cases returned
      · rename_i empty
        cases returned
        have nothing : rest = [] := length_eq_zero_iff.mp (by simpa using empty)
        rw [same,nothing,append_nil]
        exact inGrammar
  · intro inGrammar
    have took := (reads bytes value ⟨[],false⟩).mpr ⟨rfl,bytes,inGrammar,by simp⟩
    change (match read ⟨bytes,false⟩ with | none => none | some (value, r) => _) = _
    rw [took]
    rfl

theorem readRounds_nil (read : DerReader α) (room : Nat) :
    readRounds read room ⟨[],false⟩ = some ([], ⟨[],false⟩) := by
  cases room <;> rfl

theorem readRounds_cons {room : Nat} (more : bytes ≠ []) {values : List α} :
    readRounds read (room + 1) ⟨bytes,false⟩ = some (values, next) ↔
      ∃ value middle later, read ⟨bytes,false⟩ = some (value, middle) ∧
        readRounds read room middle = some (later, next) ∧ values = value :: later := by
  have left : ¬ rbLeft ⟨bytes,false⟩ = 0 := mt length_eq_zero_iff.mp more
  rw [readRounds,if_neg left]
  rcases read ⟨bytes,false⟩ with _ | ⟨value,middle⟩
  · simp
  · rcases later : readRounds read room middle with _ | ⟨rest,after⟩
    · simp [later]
    · simp [later,eq_comm,and_comm]

theorem rounds_none
    (progress : ∀ value front, grammar value front → front ≠ []) (values : List α) (next : Rbuf) :
    some ([], ⟨[],false⟩) = some (values, next) ↔
      next = ⟨[],false⟩ ∧ ∃ fronts, List.Forall₂ grammar values fronts ∧ [] = fronts.flatten := by
  constructor
  · intro same
    cases same
    exact ⟨rfl,[],.nil,rfl⟩
  · rintro ⟨rfl,fronts,inGrammars,empty⟩
    cases inGrammars with
    | nil => rfl
    | cons inGrammar _ =>
      have nothing := (append_eq_nil_iff.mp empty.symm).1
      exact absurd nothing (progress _ _ inGrammar)

/-- Enough rounds read a whole string exactly when it is the strings of the values in
a row. -/
theorem readRounds_eq_some
    (reads : Reads read grammar) (progress : ∀ value front, grammar value front → front ≠ [])
    {room : Nat} (enough : bytes.length ≤ room) (values : List α) (next : Rbuf) :
    readRounds read room ⟨bytes,false⟩ = some (values, next) ↔
      next = ⟨[],false⟩ ∧ ∃ fronts, List.Forall₂ grammar values fronts ∧
        bytes = fronts.flatten := by
  induction room generalizing bytes values with
  | zero =>
    have nothing : bytes = [] := length_eq_zero_iff.mp (Nat.le_zero.mp enough)
    rw [nothing,readRounds_nil]
    exact rounds_none progress values next
  | succ room hypothesis =>
    by_cases nothing : bytes = []
    · rw [nothing,readRounds_nil]
      exact rounds_none progress values next
    rw [readRounds_cons nothing]
    constructor
    · rintro ⟨value,⟨middle,err⟩,later,took,rest,rfl⟩
      obtain ⟨live,front,inGrammar,rfl⟩ := (reads _ _ _).mp took
      cases live
      have shorter : middle.length ≤ room := by
        have taken := length_pos_iff.mpr (progress value front inGrammar)
        rw [length_append] at enough
        dsimp only at enough
        omega
      obtain ⟨rfl,fronts,inGrammars,rfl⟩ := (hypothesis shorter later).mp rest
      exact ⟨rfl,front :: fronts,.cons inGrammar inGrammars,rfl⟩
    · rintro ⟨rfl,fronts,inGrammars,rfl⟩
      cases inGrammars with
      | nil => exact absurd rfl nothing
      | @cons value front later fronts inGrammar inGrammars =>
        have shorter : fronts.flatten.length ≤ room := by
          have taken := length_pos_iff.mpr (progress value front inGrammar)
          rw [flatten_cons,length_append] at enough
          omega
        exact ⟨value,⟨fronts.flatten,false⟩,later,(reads _ _ _).mpr ⟨rfl,front,inGrammar,rfl⟩,
          (hypothesis shorter later).mpr ⟨rfl,fronts,inGrammars,rfl⟩,rfl⟩

/-- A loop reads a whole string exactly when it is the strings of its values in a row. -/
theorem readWhole_many (reads : Reads read grammar)
    (progress : ∀ value front, grammar value front → front ≠ []) (bytes : Bytes) (values : List α) :
    readWhole (readMany read) bytes = some values ↔
      ∃ fronts, List.Forall₂ grammar values fronts ∧ bytes = fronts.flatten := by
  have rounds := readRounds_eq_some reads progress (Nat.le_refl bytes.length)
  have start : readMany read (rbInit bytes) = readRounds read bytes.length ⟨bytes,false⟩ := rfl
  rw [readWhole,start]
  rcases took : readRounds read bytes.length ⟨bytes,false⟩ with _ | ⟨found,next⟩
  · constructor
    · intro impossible
      cases impossible
    · rintro inGrammars
      have returned := (rounds values ⟨[],false⟩).mpr ⟨rfl,inGrammars⟩
      rw [took] at returned
      cases returned
  · obtain ⟨rfl,inGrammars⟩ := (rounds found next).mp took
    constructor
    · intro returned
      cases returned
      exact inGrammars
    · intro inGrammarsToo
      have returned := (rounds values ⟨[],false⟩).mpr ⟨rfl,inGrammarsToo⟩
      rw [took] at returned
      cases returned
      rfl

theorem forall₂_entries {ε : Type} {holds : ε → Prop} {value : ε → α} {encode : ε → Bytes}
    {values : List α} {fronts : List Bytes} :
    List.Forall₂ (fun found front => ∃ entry, holds entry ∧ front = encode entry ∧
        found = value entry) values fronts ↔
      ∃ entries : List ε, (∀ entry ∈ entries, holds entry) ∧ fronts = entries.map encode ∧
        values = entries.map value := by
  constructor
  · intro rounds
    induction rounds with
    | nil => exact ⟨[],by simp,rfl,rfl⟩
    | cons round _ hypothesis =>
      obtain ⟨entry,good,rfl,rfl⟩ := round
      obtain ⟨entries,goodLater,rfl,rfl⟩ := hypothesis
      exact ⟨entry :: entries,forall_mem_cons.mpr ⟨good,goodLater⟩,rfl,rfl⟩
  · rintro ⟨entries,good,rfl,rfl⟩
    induction entries with
    | nil => exact .nil
    | cons entry entries hypothesis =>
      obtain ⟨goodHere,goodLater⟩ := forall_mem_cons.mp good
      exact .cons ⟨entry,goodHere,rfl,rfl⟩ (hypothesis goodLater)

end Rules

/-! ### Lengths and headers -/

open Lib.Der

theorem lengthFits_eq_some {len : Nat} {r : Rbuf} :
    lengthFits len r = some (n, next) ↔
      n = len ∧ next = r ∧ r.err = false ∧ len ≤ r.rest.length := by
  rcases r with ⟨rest,err⟩
  cases err with
  | true => simp [lengthFits]
  | false =>
    simp only [lengthFits,Bool.false_or,decide_eq_true_eq,rbLeft_live,gt_iff_lt]
    split
    · rename_i long
      simp only [reduceCtorEq,false_iff,not_and,not_le]
      intros
      exact long
    · rename_i fits
      simp only [Option.some.injEq,Prod.mk.injEq]
      constructor
      · rintro ⟨rfl,rfl⟩
        exact ⟨rfl,rfl,trivial,by omega⟩
      · rintro ⟨rfl,rfl,-,-⟩
        exact ⟨rfl,rfl⟩

theorem lengthFits_sticky (len : Nat) : Sticky (lengthFits len) := fun bytes => by
  simp [lengthFits]

def lengthBehind (first : Nat) : DerReader Nat :=
  if first = 0x80 ∨ first > 0x82 then failure
  else if first = 0x81 then do
    let len ← rbOctet
    if len < 0x80 then failure else lengthFits len
  else if first = 0x82 then do
    let hi ← rbOctet
    let lo ← rbOctet
    if hi * 256 + lo < 0x100 then failure else lengthFits (hi * 256 + lo)
  else lengthFits first

theorem x509ReadLen_cons (first : UInt8) (rest : Bytes) :
    x509ReadLen ⟨first :: rest,false⟩ = lengthBehind first.toNat ⟨rest,false⟩ := rfl

theorem lengthBehind_short {first : Nat} (short : first < 0x80) :
    lengthBehind first = lengthFits first := by
  rw [lengthBehind,if_neg (by omega),if_neg (by omega),if_neg (by omega)]

theorem lengthBehind_one (len : UInt8) (rest : Bytes) (large : 0x80 ≤ len.toNat) :
    lengthBehind 0x81 ⟨len :: rest,false⟩ = lengthFits len.toNat ⟨rest,false⟩ := by
  change (if len.toNat < 0x80 then failure else lengthFits len.toNat : DerReader Nat) _ = _
  rw [if_neg (by omega)]

theorem lengthBehind_two (hi lo : UInt8) (rest : Bytes) (large : 0x100 ≤ ofBe16 hi lo) :
    lengthBehind 0x82 ⟨hi :: lo :: rest,false⟩ = lengthFits (ofBe16 hi lo) ⟨rest,false⟩ := by
  change (if ofBe16 hi lo < 0x100 then failure else lengthFits (ofBe16 hi lo) : DerReader Nat) _ = _
  rw [if_neg (by omega)]

/-- What the first octet admits: a short length, or one or two octets that hold a
length the shorter forms do not. -/
theorem lengthBehind_cases {first : Nat}
    (read : lengthBehind first ⟨bytes,false⟩ = some (n, next)) :
    (first < 0x80 ∧ lengthFits first ⟨bytes,false⟩ = some (n, next)) ∨
    (∃ len rest, first = 0x81 ∧ bytes = len :: rest ∧ 0x80 ≤ len.toNat ∧
      lengthFits len.toNat ⟨rest,false⟩ = some (n, next)) ∨
    (∃ hi lo rest, first = 0x82 ∧ bytes = hi :: lo :: rest ∧ 0x100 ≤ ofBe16 hi lo ∧
      lengthFits (ofBe16 hi lo) ⟨rest,false⟩ = some (n, next)) := by
  unfold lengthBehind at read
  split at read
  · cases read
  rename_i admitted
  split at read
  · rename_i one
    cases bytes with
    | nil => cases read
    | cons len rest =>
      change (if len.toNat < 0x80 then failure else lengthFits len.toNat : DerReader Nat) _ = _
        at read
      split at read
      · cases read
      · rename_i large
        exact .inr (.inl ⟨len,rest,one,rfl,by omega,read⟩)
  split at read
  · rename_i two
    obtain ⟨hi,⟨afterHi,_⟩,tookHi,read⟩ := bind_eq_some.mp read
    obtain ⟨lo,⟨afterLo,_⟩,tookLo,read⟩ := bind_eq_some.mp read
    split at read
    · cases read
    · rename_i large
      rcases bytes with _ | ⟨hi,_ | ⟨lo,rest⟩⟩
      · cases tookHi
        cases tookLo
        rw [lengthFits_sticky] at read
        cases read
      · cases tookHi
        cases tookLo
        rw [lengthFits_sticky] at read
        cases read
      · cases tookHi
        cases tookLo
        exact .inr (.inr ⟨_,_,_,two,rfl,by simp only [ofBe16]; omega,read⟩)
  · exact .inl ⟨by omega,read⟩

/-- A length is read in its shortest form only, up to 65535 and within the input. -/
theorem x509ReadLen_eq_some :
    x509ReadLen ⟨bytes,false⟩ = some (n, next) ↔
      next.err = false ∧ n ≤ next.rest.length ∧ n < 65536 ∧
        bytes = lengthOctets n ++ next.rest := by
  constructor
  · intro read
    cases bytes with
    | nil => cases read
    | cons first bytes =>
      rw [x509ReadLen_cons] at read
      rcases lengthBehind_cases read with ⟨short,fits⟩ | ⟨len,rest,one,rfl,large,fits⟩ |
          ⟨hi,lo,rest,two,rfl,large,fits⟩
      · obtain ⟨rfl,rfl,live,enough⟩ := lengthFits_eq_some.mp fits
        refine ⟨live,enough,by omega,?_⟩
        simp [lengthOctets,short]
      · obtain ⟨rfl,rfl,live,enough⟩ := lengthFits_eq_some.mp fits
        have bound := len.toNat_lt
        refine ⟨live,enough,by omega,?_⟩
        have firstIs : first = 0x81 := UInt8.toNat_inj.mp one
        rw [lengthOctets,if_neg (by omega),if_pos bound,byte_of_toNat,firstIs]
        rfl
      · obtain ⟨rfl,rfl,live,enough⟩ := lengthFits_eq_some.mp fits
        refine ⟨live,enough,ofBe16_lt hi lo,?_⟩
        have firstIs : first = 0x82 := UInt8.toNat_inj.mp two
        have spelled : [byte (ofBe16 hi lo / 256),byte (ofBe16 hi lo)] = [hi,lo] :=
          be16_ofBe16 hi lo
        rw [lengthOctets,if_neg (by omega),if_neg (by omega),spelled,firstIs]
        rfl
  · rintro ⟨live,enough,small,rfl⟩
    rcases next with ⟨rest,err⟩
    cases live
    unfold lengthOctets
    split
    · rename_i short
      have value : (byte n).toNat = n := by rw [byte_toNat]; omega
      change lengthBehind (byte n).toNat ⟨rest,false⟩ = _
      rw [value,lengthBehind_short short]
      exact lengthFits_eq_some.mpr ⟨rfl,rfl,rfl,enough⟩
    · rename_i long
      split
      · rename_i one
        have value : (byte n).toNat = n := by rw [byte_toNat]; omega
        have marker : (0x81 : UInt8).toNat = 0x81 := rfl
        simp only [cons_append,nil_append]
        rw [x509ReadLen_cons,marker,lengthBehind_one _ _ (by omega),value]
        exact lengthFits_eq_some.mpr ⟨rfl,rfl,rfl,enough⟩
      · rename_i two
        have value : ofBe16 (byte (n / 256)) (byte n) = n := ofBe16_byte n small
        have marker : (0x82 : UInt8).toNat = 0x82 := rfl
        simp only [cons_append,nil_append]
        rw [x509ReadLen_cons,marker,lengthBehind_two _ _ _ (by omega),value]
        exact lengthFits_eq_some.mpr ⟨rfl,rfl,rfl,enough⟩

/-- A header is a tag and a shortest length within the input. -/
theorem x509ReadHeader_eq_some {tag : UInt8} {bytes : Bytes} {n : Nat} {next : Rbuf} :
    x509ReadHeader tag ⟨bytes,false⟩ = some (n, next) ↔
      next.err = false ∧ n ≤ next.rest.length ∧ n < 65536 ∧
        bytes = tag :: (lengthOctets n ++ next.rest) := by
  cases bytes with
  | nil =>
    have refused : x509ReadHeader tag ⟨[],false⟩ = none := by
      simp [x509ReadHeader,rbU8]
    simp [refused]
  | cons octet bytes =>
    have shape : x509ReadHeader tag ⟨octet :: bytes,false⟩ =
        if octet = tag then x509ReadLen ⟨bytes,false⟩ else none := by
      by_cases same : octet = tag
      · simp [x509ReadHeader,same]
      · have differ : octet.toNat ≠ tag.toNat := fun equal => same (UInt8.toNat_inj.mp equal)
        simp [x509ReadHeader,same,differ]
    rw [shape]
    split
    · rename_i same
      rw [x509ReadLen_eq_some,same]
      simp
    · rename_i differ
      simp [differ]

variable {β : Type}

/-- A length in front and a body of that length. -/
theorem reads_measured {lead : Bytes} {length : DerReader Nat} {body : Nat → DerReader β}
    {grammar : Bytes → β → Bytes → Prop}
    (measures : ∀ bytes n next, length ⟨bytes,false⟩ = some (n, next) ↔
      next.err = false ∧ n ≤ next.rest.length ∧ n < 65536 ∧
        bytes = lead ++ (lengthOctets n ++ next.rest))
    (reads : ∀ n, Reads (body n) (fun result front => ∃ content right,
      content.length = n ∧ grammar content result right ∧ front = content ++ right)) :
    Reads (length >>= body) (fun result front => ∃ content right,
      content.length < 65536 ∧ grammar content result right ∧
        front = lead ++ (lengthOctets content.length ++ content) ++ right) := by
  intro bytes result next
  rw [bind_eq_some]
  constructor
  · rintro ⟨n,⟨middle,failed⟩,measured,returned⟩
    obtain ⟨live,enough,small,rfl⟩ := (measures _ _ _).mp measured
    cases live
    obtain ⟨nextLive,front,⟨content,right,rfl,inGrammar,rfl⟩,rfl⟩ :=
      (reads n middle result next).mp returned
    refine ⟨nextLive,_,⟨content,right,small,inGrammar,rfl⟩,?_⟩
    simp
  · rintro ⟨nextLive,front,⟨content,right,small,inGrammar,rfl⟩,rfl⟩
    refine ⟨content.length,⟨content ++ right ++ next.rest,false⟩,?_,?_⟩
    · refine (measures _ _ _).mpr ⟨rfl,?_,small,?_⟩
      · simp only [length_append]
        omega
      · simp
    · exact (reads _ _ _ _).mpr ⟨nextLive,_,⟨content,right,rfl,inGrammar,rfl⟩,rfl⟩

theorem reads_length {body : Nat → DerReader β} {grammar : Bytes → β → Bytes → Prop}
    (reads : ∀ n, Reads (body n) (fun result front => ∃ content right,
      content.length = n ∧ grammar content result right ∧ front = content ++ right)) :
    Reads (x509ReadLen >>= body) (fun result front => ∃ content right,
      content.length < 65536 ∧ grammar content result right ∧
        front = lengthOctets content.length ++ content ++ right) :=
  @reads_measured β [] x509ReadLen body grammar (fun _ _ _ => x509ReadLen_eq_some) reads

theorem reads_header {body : Nat → DerReader β} {grammar : Bytes → β → Bytes → Prop}
    (reads : ∀ n, Reads (body n) (fun result front => ∃ content right,
      content.length = n ∧ grammar content result right ∧ front = content ++ right)) :
    Reads (x509ReadHeader tag >>= body) (fun result front => ∃ content right,
      content.length < 65536 ∧ grammar content result right ∧ front = tlv tag content ++ right) :=
  @reads_measured β [tag] (x509ReadHeader tag) body grammar (fun _ _ _ => x509ReadHeader_eq_some)
    reads

/-- An element is read behind its canonical header only. -/
theorem reads_element (tag : UInt8) :
    Reads (readElement tag)
      (fun content front => content.length < 65536 ∧ front = tlv tag content) := by
  have reads : Reads (readElement tag) (fun result front => ∃ content right,
      content.length < 65536 ∧ (result = content ∧ right = []) ∧
        front = tlv tag content ++ right) :=
    reads_header fun n =>
      (reads_take n).congr fun taken front => by
        constructor
        · rintro ⟨rfl,rfl⟩
          exact ⟨taken,[],rfl,⟨rfl,rfl⟩,by simp⟩
        · rintro ⟨content,right,rfl,⟨rfl,rfl⟩,rfl⟩
          simp
  refine reads.congr fun content front => ?_
  constructor
  · rintro ⟨taken,right,small,⟨rfl,rfl⟩,rfl⟩
    exact ⟨small,by simp⟩
  · rintro ⟨small,rfl⟩
    exact ⟨content,[],small,⟨rfl,rfl⟩,by simp⟩

theorem reads_content {tag : UInt8} {refused : Nat → Prop} [DecidablePred refused]
    {rest : Bytes → DerReader β} {grammars : Bytes → β → Bytes → Prop}
    (reads : ∀ content, Reads (rest content) (grammars content)) :
    Reads (x509ReadHeader tag >>= fun n => if refused n then failure else rbTake n >>= rest)
      (fun result front => ∃ content right, content.length < 65536 ∧
        (¬ refused content.length ∧ grammars content result right) ∧
          front = tlv tag content ++ right) := by
  refine reads_header fun n => ?_
  refine (Reads.refuse fun _ => (reads_take n).bind reads).congr fun result front => ?_
  constructor
  · rintro ⟨admitted,content,left,right,⟨rfl,rfl⟩,inRest,rfl⟩
    exact ⟨content,right,rfl,⟨admitted,inRest⟩,rfl⟩
  · rintro ⟨content,right,rfl,⟨admitted,inRest⟩,rfl⟩
    exact ⟨admitted,content,content,right,⟨rfl,rfl⟩,inRest,rfl⟩

/-! ### The readers -/

theorem reads_exact (want : Bytes) : Reads (x509ReadExact want) (fun _ front => front = want) := by
  have reads : Reads (x509ReadExact want) _ :=
    (reads_take want.length).bind fun _ => Reads.check fun _ => reads_pure ()
  refine reads.congr fun value front => ?_
  constructor
  · rintro ⟨got,left,right,⟨rfl,-⟩,⟨rfl,-,rfl⟩,rfl⟩
    simp
  · rintro rfl
    exact ⟨front,front,[],⟨rfl,rfl⟩,⟨rfl,rfl,rfl⟩,by simp⟩

theorem reads_skip (tag : UInt8) :
    Reads (x509Skip tag)
      (fun _ front => ∃ content, content.length < 65536 ∧ front = tlv tag content) := by
  have reads := (reads_element tag).map fun _ => ()
  have same : (readElement tag >>= fun _ => pure ()) = x509Skip tag := by
    simp only [readElement,x509Skip,bind_assoc]
  rw [same] at reads
  simpa only [and_true] using reads

structure SerialContent (content : Bytes) : Prop where
  positive : 0 < ofBytes content
  bounded : ofBytes content < 256 ^ 20
  /-- No sign bit. -/
  sign : (content.getD 0 0).toNat < 0x80
  /-- A leading zero stands only before an octet whose top bit is set. -/
  minimal : 1 < content.length → content.getD 0 0 = 0 → 0x80 ≤ (content.getD 1 0).toNat

theorem ofBytes_two_bounds (first second : UInt8) (tail : Bytes) :
    first.toNat * 256 ^ (tail.length + 1) ≤ ofBytes (first :: second :: tail) ∧
      second.toNat * 256 ^ tail.length ≤ ofBytes (first :: second :: tail) ∧
      (first = 0 → ofBytes (first :: second :: tail) < 256 ^ (tail.length + 1)) := by
  rw [ofBytes_cons,ofBytes_cons,length_cons]
  refine ⟨Nat.le_add_right _ _,?_,?_⟩
  · rw [Nat.add_comm,Nat.add_assoc]
    exact Nat.le_add_right _ _
  · rintro rfl
    have bound := ofBytes_lt (second :: tail)
    rw [ofBytes_cons,length_cons] at bound
    simpa using bound

/-- The checks admit the positive minimal integers of at most 20 octets. -/
theorem serialContent_iff {content : Bytes} :
    SerialContent content ↔
      (¬ (content.length = 0 ∨ content.length > 21)) ∧ serialContentOk content = true := by
  rcases content with _ | ⟨first,_ | ⟨second,tail⟩⟩
  · constructor
    · intro serial
      have positive := serial.positive
      simp [ofBytes] at positive
    · rintro ⟨filled,-⟩
      simp at filled
  · have value : ofBytes [first] = first.toNat := by simp [ofBytes]
    have bound := first.toNat_lt
    constructor
    · rintro ⟨positive,-,sign,-⟩
      simp only [getD_cons_zero,value] at positive sign
      refine ⟨by simp,?_⟩
      simp [serialContentOk]
      omega
    · rintro ⟨-,ok⟩
      simp [serialContentOk] at ok
      refine ⟨by rw [value]; omega,by rw [value]; omega,by simp; omega,by simp⟩
  · obtain ⟨above,aboveSecond,below⟩ := ofBytes_two_bounds first second tail
    have firstZero : first = 0 ↔ first.toNat = 0 := by
      constructor
      · rintro rfl
        rfl
      · intro zero
        exact UInt8.toNat_inj.mp zero
    have whole := ofBytes_lt (first :: second :: tail)
    simp only [length_cons] at whole
    constructor
    · rintro ⟨positive,bounded,sign,minimal⟩
      simp only [getD_cons_zero,getD_cons_succ,length_cons] at sign minimal
      have pad : first.toNat = 0 → 0x80 ≤ second.toNat :=
        fun zero => minimal (by omega) (firstZero.mpr zero)
      have short : first.toNat ≠ 0 → tail.length + 1 < 20 := by
        intro nonzero
        by_contra long
        have power : 256 ^ 20 ≤ 256 ^ (tail.length + 1) :=
          Nat.pow_le_pow_right (by omega) (by omega)
        have scaled := Nat.mul_le_mul (Nat.one_le_iff_ne_zero.mpr nonzero) power
        omega
      have shortPad : first.toNat = 0 → tail.length < 20 := by
        intro zero
        by_contra long
        have power : 256 ^ 20 ≤ 256 ^ tail.length := Nat.pow_le_pow_right (by omega) (by omega)
        have scaled := Nat.mul_le_mul (pad zero) power
        omega
      refine ⟨by simp only [length_cons]; omega,?_⟩
      simp only [serialContentOk,getD_cons_zero,getD_cons_succ,length_cons]
      simp
      omega
    · rintro ⟨length,ok⟩
      simp [serialContentOk] at ok length
      obtain ⟨⟨sign,pad⟩,full⟩ := ok
      refine ⟨?_,?_,by simpa using sign,?_⟩
      · rcases pad with nonzero | padded
        · have scaled := Nat.mul_le_mul (Nat.one_le_iff_ne_zero.mpr nonzero)
            (Nat.one_le_pow (tail.length + 1) 256 (by omega))
          omega
        · have scaled := Nat.mul_le_mul padded (Nat.one_le_pow tail.length 256 (by omega))
          omega
      · rcases full with short | zero
        · have power : 256 ^ (tail.length + 1 + 1) ≤ 256 ^ 20 :=
            Nat.pow_le_pow_right (by omega) (by omega)
          omega
        · have power : 256 ^ (tail.length + 1) ≤ 256 ^ 20 :=
            Nat.pow_le_pow_right (by omega) (by omega)
          have small := below (firstZero.mpr zero)
          omega
      · intro _ zero
        simp only [getD_cons_zero,getD_cons_succ] at zero ⊢
        exact pad.resolve_left (not_not.mpr (firstZero.mp zero))

theorem reads_serial :
    Reads x509ReadSerial
      (fun _ front => ∃ content, SerialContent content ∧ front = tlv 0x02 content) := by
  have reads : Reads x509ReadSerial _ :=
    reads_content fun content => Reads.check fun _ => reads_pure ()
  refine reads.congr fun _ front => ?_
  constructor
  · rintro ⟨content,right,-,⟨admitted,ok,-,rfl⟩,rfl⟩
    exact ⟨content,serialContent_iff.mpr ⟨admitted,ok⟩,by simp⟩
  · rintro ⟨content,serial,rfl⟩
    obtain ⟨admitted,ok⟩ := serialContent_iff.mp serial
    exact ⟨content,[],by omega,⟨admitted,ok,rfl,rfl⟩,by simp⟩

theorem rbTake_sticky (n : Nat) : Sticky (rbTake n) := fun _ => rfl

theorem Sticky.refuse {α : Type} [Decidable condition] {rest : DerReader α}
    (sticky : Sticky rest) : Sticky (if condition then failure else rest) := by
  intro bytes
  split
  · rfl
  · exact sticky bytes

theorem Sticky.bind {α β : Type} {first : DerReader α} (rest : α → DerReader β)
    (sticky : Sticky first) : Sticky (first >>= rest) := by
  intro bytes
  change (first ⟨bytes,true⟩).bind _ = none
  rw [sticky bytes]
  rfl

theorem reads_marker {marker : Nat} {rest : DerReader β} {grammar : β → Bytes → Prop}
    (fits : marker < 256) (reads : Reads rest grammar) (sticky : Sticky rest) :
    Reads (rbOctet >>= fun octet => if octet ≠ marker then failure else rest)
      (fun result front => ∃ right, grammar result right ∧ front = byte marker :: right) := by
  refine (reads_octet (fun _ => Reads.refuse fun _ => reads) sticky.refuse).congr
    fun result front => ?_
  constructor
  · rintro ⟨octet,right,⟨same,inGrammar⟩,rfl⟩
    refine ⟨right,inGrammar,?_⟩
    rw [← not_not.mp same,byte_of_toNat]
  · rintro ⟨right,inGrammar,rfl⟩
    refine ⟨byte marker,right,⟨?_,inGrammar⟩,rfl⟩
    rw [byte_toNat]
    omega

/-- An element whose content starts with a zero octet: the unused-bits octet of a
BIT STRING, or the pad of a modulus. -/
theorem reads_zeroLed {tag : UInt8} {least : Nat} {rest : Bytes → DerReader β}
    {grammars : Bytes → β → Bytes → Prop} (filled : 1 ≤ least)
    (reads : ∀ content, Reads (rest content) (grammars content)) :
    Reads (x509ReadHeader tag >>= fun n => if n < least then failure
        else rbOctet >>= fun octet => if octet ≠ 0 then failure else rbTake (n - 1) >>= rest)
      (fun result front => ∃ content right, content.length + 1 < 65536 ∧
        least ≤ content.length + 1 ∧ grammars content result right ∧
          front = tlv tag (0 :: content) ++ right) := by
  have zeroLed : Reads (x509ReadHeader tag >>= fun n => if n < least then failure
        else rbOctet >>= fun octet => if octet ≠ 0 then failure else rbTake (n - 1) >>= rest)
      (fun result front => ∃ content right, content.length < 65536 ∧
        (∃ tail, content = 0 :: tail ∧ least ≤ content.length ∧ grammars tail result right) ∧
          front = tlv tag content ++ right) := by
    refine reads_header fun n => ?_
    have behind := (reads_take (n - 1)).bind reads
    refine (Reads.refuse fun _ => reads_marker (by omega) behind
      ((rbTake_sticky _).bind _)).congr fun result front => ?_
    constructor
    · rintro ⟨enough,right,⟨tail,left,last,⟨rfl,length⟩,inRest,rfl⟩,rfl⟩
      have whole : (0 :: tail).length = n := by
        rw [length_cons]
        omega
      exact ⟨0 :: tail,last,whole,⟨tail,rfl,by omega,inRest⟩,rfl⟩
    · rintro ⟨content,right,rfl,⟨tail,rfl,enough,inRest⟩,rfl⟩
      exact ⟨by omega,tail ++ right,⟨tail,tail,right,⟨rfl,by simp⟩,inRest,rfl⟩,rfl⟩
  refine zeroLed.congr fun result front => ?_
  constructor
  · rintro ⟨content,right,small,⟨tail,rfl,enough,inRest⟩,rfl⟩
    exact ⟨tail,right,small,enough,inRest,rfl⟩
  · rintro ⟨tail,right,small,enough,inRest,rfl⟩
    exact ⟨0 :: tail,right,small,⟨tail,rfl,enough,inRest⟩,rfl⟩

theorem reads_bitstring :
    Reads x509ReadBitstring
      (fun bits front => bits.length + 1 < 65536 ∧ front = tlv 0x03 (0 :: bits)) := by
  have reads := @reads_zeroLed Bytes 0x03 1 pure _ (Nat.le_refl 1) reads_pure
  simp only [bind_pure] at reads
  refine Reads.congr reads fun bits front => ?_
  constructor
  · rintro ⟨content,right,small,-,⟨rfl,rfl⟩,rfl⟩
    exact ⟨small,by simp⟩
  · rintro ⟨small,rfl⟩
    exact ⟨bits,[],small,by omega,⟨rfl,rfl⟩,by simp⟩

/-- The content of a Time and its encoding: a UTCTime or a GeneralizedTime in
zulu time. -/
def TimeEncoding (c front : Bytes) : Prop :=
  (c.length = 13 ∧ front = tlv 0x17 c ∨ c.length = 15 ∧ front = tlv 0x18 c) ∧
    c.getLast? = some 0x5a

theorem getD_last {c : Bytes} (length : c.length = n) (filled : 0 < n) (octet : UInt8) :
    c.getD (n - 1) 0 = octet ↔ c.getLast? = .some octet := by
  have inside : n - 1 < c.length := by omega
  rw [getLast?_eq_getElem?,length,getD_eq_getElem?_getD,getElem?_eq_getElem inside]
  simp

theorem reads_timeBytes : Reads readTimeBytes TimeEncoding := by
  have body : ∀ want, 0 < want → want < 128 →
      Reads (rbOctet >>= fun len => if len ≠ want then failure else
          rbTake want >>= fun c => if c.getD (want - 1) 0 = 0x5a then pure c else failure)
        (fun c front => c.length = want ∧ c.getLast? = some 0x5a ∧
          front = lengthOctets c.length ++ c) := by
    intro want positive small
    refine (reads_marker (by omega)
      ((reads_take want).bind fun c => Reads.check fun _ => reads_pure c)
      ((rbTake_sticky _).bind _)).congr fun c front => ?_
    constructor
    · rintro ⟨right,⟨found,left,last,⟨rfl,length⟩,⟨zulu,rfl,rfl⟩,rfl⟩,rfl⟩
      refine ⟨length,(getD_last length positive _).mp zulu,?_⟩
      simp [lengthOctets,length,small]
    · rintro ⟨length,zulu,rfl⟩
      refine ⟨c,⟨c,c,[],⟨rfl,length⟩,⟨(getD_last length positive _).mpr zulu,rfl,rfl⟩,by simp⟩,?_⟩
      simp [lengthOctets,length,small]
  refine Reads.congr (@reads_either Bytes _ 0x17 0x18 _ _ (by decide) (fun _ => rfl)
    (body 13 (by omega) (by omega)) (body 15 (by omega) (by omega))
    fun tag utc generalized => by simp_all) fun c front => ?_
  constructor
  · rintro (⟨_,⟨length,zulu,rfl⟩,rfl⟩ | ⟨_,⟨length,zulu,rfl⟩,rfl⟩)
    · exact ⟨.inl ⟨length,rfl⟩,zulu⟩
    · exact ⟨.inr ⟨length,rfl⟩,zulu⟩
  · rintro ⟨⟨length,rfl⟩ | ⟨length,rfl⟩,zulu⟩
    · exact .inl ⟨_,⟨length,zulu,rfl⟩,rfl⟩
    · exact .inr ⟨_,⟨length,zulu,rfl⟩,rfl⟩

theorem reads_time : Reads x509ReadTime (fun _ front => ∃ c, TimeEncoding c front) := by
  have reads : Reads x509ReadTime _ := reads_timeBytes.map fun _ => ()
  simpa only [and_true] using reads

theorem reads_timeEpoch :
    Reads x509ReadTimeEpoch (fun epoch front => ∃ c, TimeEncoding c front ∧ epoch = epochIndex c) :=
  reads_timeBytes.map epochIndex

/-! ### Keys -/

theorem readFilling_eq_some :
    readFilling tag ⟨bytes,false⟩ = some ((), next) ↔
      next.err = false ∧ next.rest.length < 65536 ∧ bytes = tlv tag next.rest := by
  unfold readFilling
  constructor
  · intro filled
    rcases header : x509ReadHeader tag ⟨bytes,false⟩ with _ | ⟨len,⟨rest,err⟩⟩
    · rw [header] at filled
      cases filled
    · rw [header] at filled
      obtain ⟨live,enough,small,rfl⟩ := x509ReadHeader_eq_some.mp header
      cases live
      dsimp only at filled
      split at filled
      · cases filled
      · rename_i fills
        cases filled
        have length : len = rest.length := not_not.mp fills
        exact ⟨rfl,by rw [← length]; exact small,by rw [tlv,← length]⟩
  · rintro ⟨live,small,rfl⟩
    rcases next with ⟨rest,err⟩
    cases live
    have header := (@x509ReadHeader_eq_some tag _ rest.length ⟨rest,false⟩).mpr
      ⟨rfl,Nat.le_refl _,small,rfl⟩
    simp only [tlv,header,rbLeft_live,ne_eq,not_true,if_false]

theorem readWhole_behind {α : Type} (read : DerReader α) (bytes : Bytes) (value : α) :
    readWhole (readFilling tag >>= fun _ => read) bytes = some value ↔
      ∃ content, content.length < 65536 ∧ readWhole read content = some value ∧
        bytes = tlv tag content := by
  constructor
  · intro returned
    unfold readWhole at returned
    rcases took : (readFilling tag >>= fun _ => read) (rbInit bytes) with _ | ⟨found,r⟩
    · rw [took] at returned
      cases returned
    · obtain ⟨_,⟨content,err⟩,filled,inside⟩ := bind_eq_some.mp took
      obtain ⟨live,small,rfl⟩ := readFilling_eq_some.mp filled
      cases live
      refine ⟨content,small,?_,rfl⟩
      unfold readWhole
      rw [took] at returned
      change (match read ⟨content,false⟩ with | none => none | some (value, r) => _) = _
      rw [inside]
      exact returned
  · rintro ⟨content,small,inside,rfl⟩
    unfold readWhole at inside ⊢
    have filled : readFilling tag (rbInit (tlv tag content)) = some ((), ⟨content,false⟩) :=
      readFilling_eq_some.mpr ⟨rfl,small,rfl⟩
    have took : (readFilling tag >>= fun _ => read) (rbInit (tlv tag content)) =
        read (rbInit content) := by
      change (readFilling tag (rbInit (tlv tag content))).bind (fun pair => read pair.2) = _
      rw [filled]
      rfl
    rw [took]
    exact inside

theorem readWhole_filling {α : Type} {read : DerReader α}
    {grammar : α → Bytes → Prop} (reads : Reads read grammar) (bytes : Bytes) (value : α) :
    readWhole (readFilling tag >>= fun _ => read) bytes = some value ↔
      ∃ content, content.length < 65536 ∧ grammar value content ∧ bytes = tlv tag content := by
  rw [readWhole_behind]
  simp only [readWhole_eq_some reads]

/-- An odd number whose top bit fills its octets, 256 to `modulusMax` of them in
steps of eight. -/
structure RsaModulus (modulusMax : Nat) (v : Bytes) : Prop where
  length : 256 ≤ v.length ∧ v.length ≤ modulusMax
  step : v.length % 8 = 0
  full : 128 * 256 ^ (v.length - 1) ≤ ofBytes v
  odd : ofBytes v % 2 = 1

/-- The checks admit the odd moduli of a supported length with their top bit set. -/
theorem modulusAdmitted_iff {modulusMax : Nat} {v : Bytes} :
    modulusAdmitted modulusMax v = true ↔ RsaModulus modulusMax v := by
  have admitted : modulusAdmitted modulusMax v = true ↔ 128 ≤ (v.getD 0 0).toNat ∧
      ((256 ≤ v.length ∧ v.length ≤ modulusMax) ∧ v.length % 8 = 0) ∧
        (v.getD (v.length - 1) 0).toNat % 2 = 1 := by
    simp [modulusAdmitted,and_assoc]
  have top : v ≠ [] → (128 ≤ (v.getD 0 0).toNat ↔ 128 * 256 ^ (v.length - 1) ≤ ofBytes v) := by
    intro filled
    obtain ⟨first,rest,rfl⟩ := exists_cons_of_ne_nil filled
    have below := ofBytes_lt rest
    rw [ofBytes_cons]
    simp only [getD_cons_zero,length_cons,Nat.add_sub_cancel]
    constructor
    · intro set
      exact Nat.le_trans (Nat.mul_le_mul_right _ set) (Nat.le_add_right _ _)
    · intro full
      by_contra small
      have scaled := Nat.mul_le_mul_right (256 ^ rest.length) (show first.toNat + 1 ≤ 128 by omega)
      rw [Nat.add_mul] at scaled
      omega
  have last : v ≠ [] → (v.getD (v.length - 1) 0).toNat % 2 = ofBytes v % 2 := by
    intro filled
    obtain ⟨front,octet,rfl⟩ := eq_nil_or_concat v |>.resolve_left filled
    rw [concat_eq_append,ofBytes_append]
    simp [ofBytes]
    omega
  rw [admitted]
  constructor
  · rintro ⟨set,⟨length,step⟩,odd⟩
    have filled : v ≠ [] := by
      rintro rfl
      simp at length
    exact ⟨length,step,(top filled).mp set,by rw [← last filled]; exact odd⟩
  · rintro ⟨length,step,full,odd⟩
    have filled : v ≠ [] := by
      rintro rfl
      simp at length
    exact ⟨(top filled).mpr full,⟨length,step⟩,by rw [last filled]; exact odd⟩

theorem reads_rsaModulus (modulusMax : Nat) :
    Reads (readRsaModulus modulusMax) (fun v front => v.length + 1 < 65536 ∧
      RsaModulus modulusMax v ∧ front = tlv 0x02 (0 :: v)) := by
  have reads : Reads (readRsaModulus modulusMax) _ :=
    reads_zeroLed (by omega) fun v => Reads.check fun _ => reads_pure v
  refine reads.congr fun v front => ?_
  constructor
  · rintro ⟨content,right,small,-,⟨admitted,rfl,rfl⟩,rfl⟩
    exact ⟨small,modulusAdmitted_iff.mp admitted,by simp⟩
  · rintro ⟨small,modulus,rfl⟩
    have long := modulus.length.1
    exact ⟨v,[],small,by omega,⟨modulusAdmitted_iff.mpr modulus,rfl,rfl⟩,by simp⟩

theorem readRsaKey_eq_some {modulusMax : Nat} {v : Bytes} :
    readRsaKey modulusMax bits = some v ↔
      ∃ content, content.length < 65536 ∧
        (RsaModulus modulusMax v ∧ content = tlv 0x02 (0 :: v) ++ spkiExponent) ∧
        bits = tlv 0x30 content := by
  have inner := (reads_rsaModulus modulusMax).bind fun v =>
    (reads_exact spkiExponent).map fun _ => v
  rw [readRsaKey,readWhole_filling inner]
  refine exists_congr fun content => and_congr_right fun small => and_congr_left' ?_
  constructor
  · rintro ⟨modulus,left,right,⟨-,admitted,rfl⟩,⟨_,rfl,rfl⟩,rfl⟩
    exact ⟨admitted,rfl⟩
  · rintro ⟨admitted,rfl⟩
    have fits : v.length + 1 < 65536 := by
      have longer := tlv_length_lt 0x02 (0 :: v)
      rw [length_append] at small
      rw [length_cons] at longer
      omega
    exact ⟨v,_,spkiExponent,⟨fits,admitted,rfl⟩,⟨(),rfl,rfl⟩,rfl⟩

theorem readEcPoint_eq_some {coordinateLen : Nat} {point : Bytes} :
    readEcPoint coordinateLen bits = some point ↔
      point.length = 2 * coordinateLen ∧ bits = 0x04 :: point := by
  rw [readEcPoint,readWhole_eq_some (reads_marker (by omega) (reads_take (2 * coordinateLen))
    (rbTake_sticky _))]
  constructor
  · rintro ⟨right,⟨rfl,length⟩,rfl⟩
    exact ⟨length,rfl⟩
  · rintro ⟨length,rfl⟩
    exact ⟨point,⟨rfl,length⟩,rfl⟩

def KeyAdmitted : PinAlg → Bytes → Prop
  | .ecdsa, key => key.length = 64
  | .mldsa, key => key.length = 2592
  | .rsa, key => RsaModulus 384 key

def keyBits : PinAlg → Bytes → Bytes
  | .ecdsa, key => 0x04 :: key
  | .mldsa, key => key
  | .rsa, key => tlv 0x30 (tlv 0x02 (0 :: key) ++ spkiExponent)

theorem rsaKey_length_le (v : Bytes) :
    (tlv 0x02 (0 :: v) ++ spkiExponent).length ≤ v.length + 10 := by
  have inner := tlv_length_le 0x02 (0 :: v)
  rw [length_cons] at inner
  rw [length_append]
  simp only [spkiExponent,length_cons,length_nil]
  omega

theorem keyBits_length_le {pin : PinAlg} {key : Bytes} (admitted : KeyAdmitted pin key) :
    (keyBits pin key).length ≤ 2592 := by
  cases pin with
  | ecdsa =>
    have length : key.length = 64 := admitted
    rw [keyBits,length_cons,length]
    omega
  | mldsa => exact Nat.le_of_eq admitted
  | rsa =>
    have short := RsaModulus.length admitted
    have inner := rsaKey_length_le key
    have outer := tlv_length_le 0x30 (tlv 0x02 (0 :: key) ++ spkiExponent)
    rw [keyBits]
    omega

theorem spkiKey_eq_some {pin : PinAlg} {key : Bytes} :
    spkiKey pin bits = some key ↔ KeyAdmitted pin key ∧ bits = keyBits pin key := by
  cases pin with
  | ecdsa => exact readEcPoint_eq_some
  | mldsa =>
    simp only [spkiKey,KeyAdmitted,keyBits]
    by_cases length : bits.length = 2592
    · rw [if_neg (not_not.mpr length)]
      constructor
      · rintro ⟨rfl⟩
        exact ⟨length,rfl⟩
      · rintro ⟨-,rfl⟩
        rfl
    · rw [if_pos length]
      constructor
      · intro impossible
        cases impossible
      · rintro ⟨same,rfl⟩
        exact absurd same length
  | rsa =>
    simp only [spkiKey,readRsaKey_eq_some,KeyAdmitted,keyBits]
    constructor
    · rintro ⟨content,-,⟨modulus,rfl⟩,rfl⟩
      exact ⟨modulus,rfl⟩
    · rintro ⟨modulus,rfl⟩
      have short := modulus.length
      have inner := rsaKey_length_le key
      exact ⟨_,by omega,⟨modulus,rfl⟩,rfl⟩

def spkiTlv (pin : PinAlg) (key : Bytes) : Bytes :=
  tlv 0x30 (spkiAlgid pin ++ tlv 0x03 (0 :: keyBits pin key))

theorem spkiAlgid_length_le (pin : PinAlg) : (spkiAlgid pin).length ≤ 21 := by
  cases pin <;> decide

theorem readWhole_algorithm {algid body : Bytes} :
    readWhole (do x509ReadExact algid; x509ReadBitstring) body = some bits ↔
      bits.length + 1 < 65536 ∧ body = algid ++ tlv 0x03 (0 :: bits) := by
  rw [readWhole_eq_some ((reads_exact algid).bind fun _ => reads_bitstring)]
  constructor
  · rintro ⟨_,left,right,rfl,⟨small,rfl⟩,rfl⟩
    exact ⟨small,rfl⟩
  · rintro ⟨small,rfl⟩
    exact ⟨(),algid,_,rfl,⟨small,rfl⟩,rfl⟩

theorem reads_spki (pin : PinAlg) :
    Reads (x509ReadSpki pin) (fun key front => KeyAdmitted pin key ∧ front = spkiTlv pin key) := by
  have reads := (reads_element 0x30).bind fun body =>
    (reads_lift (readWhole (do x509ReadExact (spkiAlgid pin); x509ReadBitstring) body)).bind
      fun bits => reads_lift (spkiKey pin bits)
  refine Reads.congr reads fun key front => ?_
  simp only [readWhole_algorithm,spkiKey_eq_some]
  constructor
  · rintro ⟨body,left,right,⟨-,rfl⟩,⟨_,_,_,⟨⟨-,rfl⟩,rfl⟩,⟨⟨admitted,rfl⟩,rfl⟩,rfl⟩,rfl⟩
    exact ⟨admitted,by simp [spkiTlv]⟩
  · rintro ⟨admitted,rfl⟩
    have short := keyBits_length_le admitted
    have algid := spkiAlgid_length_le pin
    have inner := tlv_length_le 0x03 (0 :: keyBits pin key)
    rw [length_cons] at inner
    refine ⟨_,_,[],⟨?_,rfl⟩,⟨keyBits pin key,[],[],⟨⟨by omega,rfl⟩,rfl⟩,⟨⟨admitted,rfl⟩,rfl⟩,rfl⟩,
      by simp [spkiTlv]⟩
    rw [length_append]
    omega

/-! ### Key usage -/

/-- A named-bit string in canonical form: the count of unused bits is that of the
zeros below the lowest set bit of the last octet. -/
structure NamedBits (c : Bytes) : Prop where
  few : (c.getD 0 0).toNat ≤ 7
  lowest : (c.getD (c.length - 1) 0).toNat.testBit (c.getD 0 0).toNat = true
  padding : ∀ i < (c.getD 0 0).toNat, (c.getD (c.length - 1) 0).toNat.testBit i = false

/-- A keyUsage value with one of the required bits among its one or two octets. -/
def KeyUsage (required : Nat) (value : Bytes) : Prop :=
  ∃ c, (c.length = 2 ∨ c.length = 3) ∧ NamedBits c ∧ (c.getD 1 0).toNat &&& required ≠ 0 ∧
    value = tlv 0x03 c

theorem keyusageContentOk_iff {c : Bytes} {required : Nat} :
    keyusageContentOk c required = true ↔ NamedBits c ∧ (c.getD 1 0).toNat &&& required ≠ 0 := by
  generalize unusedEq : (c.getD 0 0).toNat = unused
  generalize lastEq : (c.getD (c.length - 1) 0).toNat = last
  have padding : last &&& (2 ^ unused - 1) = 0 ↔ ∀ i < unused, last.testBit i = false := by
    rw [Nat.and_two_pow_sub_one_eq_mod]
    constructor
    · intro multiple i below
      have bit : (last % 2 ^ unused).testBit i = last.testBit i := by
        rw [Nat.testBit_mod_two_pow]
        simp [below]
      rw [← bit,multiple,Nat.zero_testBit]
    · intro zero
      apply Nat.eq_of_testBit_eq
      intro i
      rw [Nat.testBit_mod_two_pow,Nat.zero_testBit]
      by_cases below : i < unused
      · simp [zero i below]
      · simp [below]
  have lowest : (last >>> unused) &&& 1 = 0 ↔ last.testBit unused = false := by
    rw [Nat.testBit,Nat.and_comm]
    simp
  have nonzero : last.testBit unused = true → last ≠ 0 := by
    rintro set rfl
    rw [Nat.zero_testBit] at set
    cases set
  unfold keyusageContentOk
  rw [unusedEq,lastEq]
  dsimp only
  constructor
  · intro ok
    split at ok
    · cases ok
    rename_i range
    split at ok
    · cases ok
    rename_i clear
    split at ok
    · cases ok
    rename_i set
    refine ⟨⟨by omega,?_,?_⟩,by simpa using ok⟩
    · rw [unusedEq,lastEq]
      exact Bool.eq_true_of_not_eq_false (mt lowest.mpr set)
    · rw [unusedEq,lastEq]
      exact padding.mp (not_not.mp clear)
  · rintro ⟨⟨few,set,clear⟩,required⟩
    rw [unusedEq] at few
    rw [unusedEq,lastEq] at set clear
    have known := nonzero set
    rw [if_neg (by omega),if_neg (not_not.mpr (padding.mpr clear)),if_neg fun zero => by
      rw [lowest.mp zero] at set
      cases set]
    simpa using required

theorem x509ReadKeyusage_iff {value : Bytes} {required : Nat} :
    x509ReadKeyusage value required = true ↔ KeyUsage required value := by
  have reads := @reads_content Bytes 0x03 (fun n => n < 2 ∨ n > 3) _ pure _ reads_pure
  simp only [bind_pure] at reads
  have whole := readWhole_eq_some reads value
  unfold x509ReadKeyusage
  constructor
  · intro ok
    rcases took : readWhole (do
      let len ← x509ReadHeader 0x03
      if len < 2 ∨ len > 3 then failure else rbTake len) value with _ | c
    · simp only [took,Bool.false_eq_true] at ok
    · simp only [took] at ok
      obtain ⟨content,right,-,⟨length,rfl,rfl⟩,same⟩ := (whole c).mp took
      obtain ⟨bits,required⟩ := keyusageContentOk_iff.mp ok
      exact ⟨c,by omega,bits,required,by simpa using same⟩
  · rintro ⟨c,length,bits,required,rfl⟩
    have took := (whole c).mpr ⟨c,[],by omega,⟨by omega,rfl,rfl⟩,by simp⟩
    simp only [took]
    exact keyusageContentOk_iff.mpr ⟨bits,required⟩

/-! ### Extensions -/

/-- The encoding of an extension: `critical` stands only when it is true. -/
def X509Extension.encode (x : X509Extension) : Bytes :=
  tlv 0x30 (tlv 0x06 x.oid ++ ((if x.critical then [0x01,0x01,0xff] else []) ++ tlv 0x04 x.value))

/-- An extension with a minimal object identifier of at most 16 octets, whose
encoding is no longer than the cap. -/
structure X509Extension.WellFormed (tlvCap : Nat) (x : X509Extension) : Prop where
  oidLength : 1 ≤ x.oid.length ∧ x.oid.length ≤ 16
  oidMinimal : oidMinimal x.oid = true
  capped : x.encode.length ≤ tlvCap

theorem refuse_bind [Decidable condition] {read : DerReader α} {rest : α → DerReader β} :
    (if condition then failure else read) >>= rest =
      if condition then failure else read >>= rest := by
  split <;> rfl

/-- The critical flag is absent or the DER encoding of TRUE. -/
theorem reads_critical {rest : Bool → DerReader β} {grammars : Bool → β → Bytes → Prop}
    (reads : ∀ critical, Reads (rest critical) (grammars critical)) :
    Reads (readCritical >>= fun flagged => if flagged.2 ≠ 0x04 then failure else rest flagged.1)
      (fun result front => ∃ critical right, grammars critical result right ∧
        front = (if critical then [0x01,0x01,0xff] else []) ++ 0x04 :: right) := by
  have value : ∀ critical tag, Reads (if tag ≠ 0x04 then failure else rest critical)
      (fun result front => tag = 0x04 ∧ grammars critical result front) := by
    intro critical tag
    refine (Reads.refuse fun _ => reads critical).congr fun result front => ?_
    rw [not_not]
  rw [readCritical,bind_assoc]
  refine Reads.congr (@reads_either β _ 0x01 0x04 (fun result body => ∃ right,
    grammars true result right ∧ body = 0x01 :: 0xff :: 0x04 :: right) _ (by decide) (fun _ => rfl)
    ?_ (value false 0x04) fun tag boolean other => ?_) fun result front => ?_
  · simp only [UInt8.toNat_one,if_true,bind_assoc,refuse_bind,pure_bind]
    refine Reads.congr (reads_octet (fun boolLen => reads_octet (fun boolVal =>
      Reads.refuse fun _ => reads_octet (value true) fun _ => rfl) ?_) ?_) fun result front => ?_
    · intro bytes
      rw [if_pos (.inr (by decide))]
      rfl
    · intro bytes
      rfl
    · constructor
      · rintro ⟨first,_,⟨second,_,⟨isTrue,third,right,⟨isValue,inRest⟩,rfl⟩,rfl⟩,rfl⟩
        rw [not_or,not_not,not_not] at isTrue
        have firstIs : first = 0x01 := UInt8.toNat_inj.mp isTrue.1
        have secondIs : second = 0xff := UInt8.toNat_inj.mp isTrue.2
        have thirdIs : third = 0x04 := UInt8.toNat_inj.mp isValue
        exact ⟨right,inRest,by rw [firstIs,secondIs,thirdIs]⟩
      · rintro ⟨right,inRest,rfl⟩
        exact ⟨0x01,_,⟨0xff,_,⟨by decide,0x04,right,⟨rfl,inRest⟩,rfl⟩,rfl⟩,rfl⟩
  · simp_all
  · constructor
    · rintro (⟨_,⟨right,inRest,rfl⟩,rfl⟩ | ⟨right,⟨-,inRest⟩,rfl⟩)
      · exact ⟨true,right,inRest,rfl⟩
      · exact ⟨false,right,inRest,rfl⟩
    · rintro ⟨critical,right,inRest,rfl⟩
      cases critical with
      | true => exact .inl ⟨_,⟨right,inRest,rfl⟩,rfl⟩
      | false => exact .inr ⟨right,⟨rfl,inRest⟩,rfl⟩

theorem reads_extensionFields :
    Reads readExtensionFields (fun x front =>
      (1 ≤ x.oid.length ∧ x.oid.length ≤ 16) ∧ oidMinimal x.oid = true ∧ x.value.length < 65536 ∧
        front = tlv 0x06 x.oid ++
          ((if x.critical then [0x01,0x01,0xff] else []) ++ tlv 0x04 x.value)) := by
  have value : ∀ oid critical, Reads
      (x509ReadLen >>= fun n => rbTake n >>= fun value =>
        pure ({ oid := oid, value := value, critical := critical } : X509Extension))
      (fun x front => ∃ content right, content.length < 65536 ∧
        (x = { oid := oid, value := content, critical := critical } ∧ right = []) ∧
          front = lengthOctets content.length ++ content ++ right) := by
    intro oid critical
    exact reads_length fun n => reads_takeMap n _
  have reads : Reads readExtensionFields _ :=
    reads_content fun oid => Reads.refuse fun _ => reads_critical fun critical => value oid critical
  refine reads.congr fun x front => ?_
  constructor
  · rintro ⟨oid,_,-,⟨length,minimal,critical,_,⟨content,_,small,⟨rfl,rfl⟩,rfl⟩,rfl⟩,rfl⟩
    refine ⟨by dsimp only; omega,by simpa using minimal,small,?_⟩
    simp [tlv]
  · rintro ⟨length,minimal,small,rfl⟩
    refine ⟨x.oid,_,by omega,⟨by omega,by simpa using minimal,x.critical,_,
      ⟨x.value,[],small,⟨rfl,rfl⟩,rfl⟩,rfl⟩,?_⟩
    simp [tlv]

/-- An extension is read from its canonical encoding only. -/
theorem reads_extension {tlvCap : Nat} (small : tlvCap < 65536) :
    Reads (x509ReadExtension tlvCap) (fun x front => x.WellFormed tlvCap ∧ front = x.encode) := by
  intro bytes x next
  unfold x509ReadExtension
  constructor
  · intro returned
    rcases header : x509ReadHeader 0x30 ⟨bytes,false⟩ with _ | ⟨len,⟨rest,err⟩⟩
    · rw [header] at returned
      cases returned
    obtain ⟨live,enough,-,rfl⟩ := x509ReadHeader_eq_some.mp header
    cases live
    rw [header] at returned
    dsimp only at returned
    split at returned
    · cases returned
    rename_i capped
    rcases took : rbTake len ⟨rest,false⟩ with _ | ⟨body,after⟩
    · rw [took] at returned
      cases returned
    obtain ⟨afterLive,_,⟨rfl,rfl⟩,rfl⟩ := (reads_take len rest body after).mp took
    rw [took] at returned
    obtain ⟨found,whole,same⟩ := Option.map_eq_some_iff.mp returned
    cases same
    obtain ⟨length,minimal,-,rfl⟩ := (readWhole_eq_some reads_extensionFields _ _).mp whole
    refine ⟨afterLive,x.encode,⟨⟨length,minimal,?_⟩,rfl⟩,?_⟩
    · simp only [rbLeft_live,length_cons,length_append] at capped
      simp only [X509Extension.encode,tlv,length_cons,length_append]
      simp only [tlv,length_cons,length_append] at capped
      omega
    · simp [X509Extension.encode,tlv]
  · rintro ⟨live,front,⟨⟨length,minimal,capped⟩,rfl⟩,rfl⟩
    rcases next with ⟨rest,err⟩
    cases live
    generalize bodyEq : tlv 0x06 x.oid ++
      ((if x.critical then [0x01,0x01,0xff] else []) ++ tlv 0x04 x.value) = body
    have encoded : x.encode = tlv 0x30 body := by rw [X509Extension.encode,bodyEq]
    rw [encoded] at capped ⊢
    have longer := tlv_length_lt 0x30 body
    have valueShort : x.value.length < 65536 := by
      have inner := tlv_length_lt 0x04 x.value
      have whole := congrArg List.length bodyEq
      simp only [length_append] at whole
      omega
    have header := (@x509ReadHeader_eq_some 0x30 (tlv 0x30 body ++ rest) body.length
      ⟨body ++ rest,false⟩).mpr ⟨rfl,by simp,by omega,by simp [tlv]⟩
    have took := (reads_take body.length (body ++ rest) body ⟨rest,false⟩).mpr
      ⟨rfl,body,⟨rfl,rfl⟩,rfl⟩
    have whole := (readWhole_eq_some reads_extensionFields body x).mpr
      ⟨length,minimal,valueShort,bodyEq.symm⟩
    have measured : ¬ rbLeft ⟨tlv 0x30 body ++ rest,false⟩ - rbLeft ⟨body ++ rest,false⟩ +
        body.length > tlvCap := by
      simp only [rbLeft_live,length_append]
      omega
    rw [header]
    dsimp only
    rw [if_neg measured,took]
    simp [whole]

/-! ### Whole strings -/

section Whole

variable {α β : Type}

def ReadsWhole (read : DerReader α) (grammar : α → Bytes → Prop) : Prop :=
  ∀ bytes value, readWhole read bytes = some value ↔ grammar value bytes

variable {grammar : α → Bytes → Prop} {read : DerReader α}

theorem Reads.whole (reads : Reads read grammar) :
    ReadsWhole read grammar := readWhole_eq_some reads

theorem ReadsWhole.congr {grammar other : α → Bytes → Prop}
    (reads : ReadsWhole read grammar)
    (same : ∀ value bytes, grammar value bytes ↔ other value bytes) : ReadsWhole read other := by
  intro bytes value
  rw [reads bytes value,same]

variable {rest : α → DerReader β}

theorem readWhole_of_step {first : DerReader α} {left : Bytes}
    {value : α} (took : first ⟨bytes,false⟩ = some (value, ⟨left,false⟩)) :
    readWhole (first >>= rest) bytes = readWhole (rest value) left := by
  have ran : (first >>= rest) (rbInit bytes) = rest value (rbInit left) := by
    change (first ⟨bytes,false⟩).bind (fun pair => rest pair.1 pair.2) = _
    rw [took]
    rfl
  rw [readWhole,readWhole,ran]

theorem readWhole_of_none {first : DerReader α}
    (refused : first ⟨bytes,false⟩ = none) : readWhole (first >>= rest) bytes = none := by
  have ran : (first >>= rest) (rbInit bytes) = none := by
    change (first ⟨bytes,false⟩).bind (fun pair => rest pair.1 pair.2) = _
    rw [refused]
    rfl
  rw [readWhole,ran]

theorem ReadsWhole.bind {first : DerReader α}
    {grammars : α → β → Bytes → Prop} (readsFirst : Reads first grammar)
    (readsRest : ∀ value, ReadsWhole (rest value) (grammars value)) :
    ReadsWhole (first >>= rest) (fun result bytes => ∃ value left right,
      grammar value left ∧ grammars value result right ∧ bytes = left ++ right) := by
  intro bytes result
  constructor
  · intro returned
    rcases took : first ⟨bytes,false⟩ with _ | ⟨value,⟨right,err⟩⟩
    · rw [readWhole_of_none took] at returned
      cases returned
    · obtain ⟨live,left,inFirst,rfl⟩ := (readsFirst _ _ _).mp took
      cases live
      rw [readWhole_of_step took] at returned
      exact ⟨value,left,right,inFirst,(readsRest value right result).mp returned,rfl⟩
  · rintro ⟨value,left,right,inFirst,inRest,rfl⟩
    have took := (readsFirst (left ++ right) value ⟨right,false⟩).mpr ⟨rfl,left,inFirst,rfl⟩
    rw [readWhole_of_step took]
    exact (readsRest value right result).mpr inRest

theorem ReadsWhole.filling (tag : UInt8) (reads : ReadsWhole read grammar) :
    ReadsWhole (readFilling tag >>= fun _ => read) (fun value bytes => ∃ content,
      content.length < 65536 ∧ grammar value content ∧ bytes = tlv tag content) := by
  intro bytes value
  rw [readWhole_behind]
  simp only [reads _ value]

theorem ReadsWhole.map (reads : ReadsWhole read grammar) (f : α → β) :
    ReadsWhole (read >>= fun value => pure (f value))
      (fun result bytes => ∃ value, grammar value bytes ∧ result = f value) := by
  intro bytes result
  have same : readWhole (read >>= fun value => pure (f value)) bytes =
      (readWhole read bytes).map f := by
    rcases took : read (rbInit bytes) with _ | ⟨value,r⟩
    · rw [readWhole_of_none took,readWhole,took]
      rfl
    · have ran : (read >>= fun value => pure (f value)) (rbInit bytes) = some (f value, r) := by
        change (read (rbInit bytes)).bind _ = _
        rw [took]
        rfl
      rw [readWhole,readWhole,ran,took]
      dsimp only
      split
      · rfl
      · rfl
  rw [same,Option.map_eq_some_iff]
  simp only [reads bytes _,eq_comm]

theorem ReadsWhole.isSome (reads : ReadsWhole read grammar) :
    (readWhole read bytes).isSome = true ↔ ∃ value, grammar value bytes := by
  rw [Option.isSome_iff_exists]
  simp only [reads bytes _]

theorem ReadsWhole.behind (want : Bytes) (reads : ReadsWhole read grammar) :
    ReadsWhole (x509ReadExact want >>= fun _ => read)
      (fun value bytes => ∃ rest, grammar value rest ∧ bytes = want ++ rest) := by
  refine (ReadsWhole.bind (reads_exact want) fun _ => reads).congr fun value bytes => ?_
  constructor
  · rintro ⟨_,_,rest,rfl,inRest,rfl⟩
    exact ⟨rest,inRest,rfl⟩
  · rintro ⟨rest,inRest,rfl⟩
    exact ⟨(),want,rest,rfl,inRest,rfl⟩

theorem ReadsWhole.taking (n : Nat) {read : Bytes → DerReader α}
    {grammar : Bytes → α → Bytes → Prop}
    (reads : ∀ taken, ReadsWhole (read taken) (grammar taken)) :
    ReadsWhole (rbTake n >>= read) (fun value bytes => ∃ taken rest, taken.length = n ∧
      grammar taken value rest ∧ bytes = taken ++ rest) := by
  refine (ReadsWhole.bind (reads_take n) reads).congr fun value bytes => ?_
  constructor
  · rintro ⟨taken,_,rest,⟨rfl,length⟩,inRest,rfl⟩
    exact ⟨taken,rest,length,inRest,rfl⟩
  · rintro ⟨taken,rest,length,inRest,rfl⟩
    exact ⟨taken,taken,rest,⟨rfl,length⟩,inRest,rfl⟩

theorem readsWhole_exact (want : Bytes) :
    ReadsWhole (x509ReadExact want) (fun _ bytes => bytes = want) := (reads_exact want).whole

end Whole

/-! ### Written headers -/

theorem x509EmitHeader_eq (tag : UInt8) (len : Nat) :
    x509EmitHeader tag len = tag :: lengthOctets len := by
  unfold x509EmitHeader lengthOctets
  split
  · rfl
  · split <;> rfl

theorem x509EmitHeader_append (tag : UInt8) (content : Bytes) :
    x509EmitHeader tag content.length ++ content = tlv tag content := by
  rw [x509EmitHeader_eq]
  rfl

end Chapulin
