/-
The ClientHello grammar the server's parser answers for, and what its extension
readers do on it.

An extension is a value of `HelloExt`: its body is spelled by the formats of its
fields, `Form` says which values the syntax admits and `judge` names the alert
of a value that is well formed and not allowed.  Each reader is compared with
its extension in both directions: on a spelled body it returns with nothing left
over or stops with the judgment, and a body it reads without a rest is spelled.
-/

import Mathlib.Data.List.Basic
import Chapulin.Lib.Format
import Chapulin.Server.Parser

namespace Chapulin

open Lib Proc Alert List Format

/-- The one host name of `server_name`, in its list of one entry. -/
def hostNameFormat : Format Bytes where
  Form name := 1 ≤ name.length ∧ 3 + name.length < 65536
  encode name := be16 (3 + name.length) ++ (0 :: (be16 name.length ++ name))

/-- One identity of `pre_shared_key` and its obfuscated age. -/
def identityFormat : Format (Bytes × Bytes) where
  Form identity := 1 ≤ identity.1.length ∧ identity.1.length < 65536 ∧ identity.2.length = 4
  encode identity := be16 identity.1.length ++ (identity.1 ++ identity.2)

/-- The identities and the binders of `pre_shared_key`. -/
def offeredPsksFormat : Format (List (Bytes × Bytes) × List Bytes) where
  Form psks := (identityFormat.list16 7).Form psks.1 ∧ ((vector8 32).list16 33).Form psks.2
  encode psks :=
    (identityFormat.list16 7).encode psks.1 ++ ((vector8 32).list16 33).encode psks.2

def shareFormat : Format Item where
  Form share := share.Fits ∧ share.2 ≠ []
  encode := Item.encode

inductive HelloExt
  | serverName (name : Bytes)
  | supportedGroups (groups : List Nat)
  | signatureAlgorithms (schemes : List Nat)
  | alpn (names : List Bytes)
  | recordSizeLimit (limit : Nat)
  | preSharedKey (identities : List (Bytes × Bytes)) (binders : List Bytes)
  | supportedVersions (versions : List Nat)
  | cookie (value : Bytes)
  | pskModes (modes : Bytes)
  | keyShare (shares : List Item)
  | earlyData
  | padding (bytes : Bytes)
  | transportParams (params : Bytes)
  | other (type : Nat) (data : Bytes)
  deriving DecidableEq

namespace HelloExt

def type : HelloExt → Nat
  | serverName _ => extServerName
  | supportedGroups _ => extSupportedGroups
  | signatureAlgorithms _ => extSignatureAlgorithms
  | alpn _ => extAlpn
  | recordSizeLimit _ => extRecordSizeLimit
  | preSharedKey _ _ => extPreSharedKey
  | supportedVersions _ => extSupportedVersions
  | cookie _ => extCookie
  | pskModes _ => extPskModes
  | keyShare _ => extKeyShare
  | earlyData => extEarlyData
  | padding _ => extPadding
  | transportParams _ => extQuicTransportParams
  | other type _ => type

def data : HelloExt → Bytes
  | serverName name => hostNameFormat.encode name
  | supportedGroups groups => (code.list16 2).encode groups
  | signatureAlgorithms schemes => (code.list16 2).encode schemes
  | alpn names => ((vector8 1).list16 2).encode names
  | recordSizeLimit limit => code.encode limit
  | preSharedKey identities binders => offeredPsksFormat.encode (identities, binders)
  | supportedVersions versions => (code.list8 2).encode versions
  | cookie value => (vector16 1).encode value
  | pskModes modes => (vector8 1).encode modes
  | keyShare shares => (shareFormat.list16 0).encode shares
  | earlyData => []
  | padding bytes => bytes
  | transportParams params => params
  | other _ data => data

def Form : HelloExt → Prop
  | serverName name => hostNameFormat.Form name
  | supportedGroups groups => (code.list16 2).Form groups
  | signatureAlgorithms schemes => (code.list16 2).Form schemes
  | alpn names => ((vector8 1).list16 2).Form names
  | recordSizeLimit limit => code.Form limit
  | preSharedKey identities binders => offeredPsksFormat.Form (identities, binders)
  | supportedVersions versions => (code.list8 2).Form versions
  | cookie value => (vector16 1).Form value
  | pskModes modes => (vector8 1).Form modes
  | keyShare shares => (shareFormat.list16 0).Form shares
  | earlyData => True
  | padding _ => True
  | transportParams _ => True
  | other type _ => srvExtKnown type = false

def shareJudge (b : Build) (share : Item) : Option Nat :=
  if srvGroupKnown b share.1 && share.2.length != shareLenOf b share.1 then
    some illegalParameter
  else none

def judge (b : Build) : HelloExt → Option Nat
  | recordSizeLimit limit => if limit < 64 then some illegalParameter else none
  | supportedVersions versions =>
    if versions.contains tls13 then none else some protocolVersion
  | keyShare shares => shares.findSome? (shareJudge b)
  | transportParams _ => if b.quic then none else some unsupportedExtension
  | _ => none

end HelloExt

/-! ### Code points -/

theorem rbCodes_encodeAll {codes : List Nat} (formed : ∀ number ∈ codes, code.Form number)
    (rest : Bytes) :
    rbCodes codes.length ⟨code.encodeAll codes ++ rest,false⟩ = (codes, ⟨rest,false⟩) := by
  induction codes with
  | nil => rfl
  | cons first others ih =>
    have head := rbU16_be16 first (code.encodeAll others ++ rest)
      (formed first mem_cons_self)
    have tail := ih (forall_mem_cons.mp formed).2
    have shape : code.encodeAll (first :: others) ++ rest =
        be16 first ++ (code.encodeAll others ++ rest) := by
      rw [encodeAll_cons,append_assoc]
      rfl
    rw [shape,length_cons,rbCodes,head]
    simp only [tail]

theorem rbOctets_append (octets rest : Bytes) :
    rbOctets octets.length ⟨octets ++ rest,false⟩ = (octets.map UInt8.toNat, ⟨rest,false⟩) := by
  induction octets with
  | nil => rfl
  | cons first others ih =>
    rw [length_cons,rbOctets,cons_append,rbU8_cons]
    simp only [ih,map_cons]

theorem srvOpenCodePointList_encode {codes : List Nat}
    (formed : (code.list16 2).Form codes) (rest : Bytes) :
    srvOpenCodePointList ⟨(code.list16 2).encode codes ++ rest,false⟩ =
      some (2 * codes.length, ⟨code.encodeAll codes ++ rest,false⟩) := by
  obtain ⟨_,least,bounded⟩ := formed
  rw [code_encodeAll_length] at least bounded
  have read := rbU16_be16 (2 * codes.length) (code.encodeAll codes ++ rest) bounded
  have shape : (code.list16 2).encode codes ++ rest =
      be16 (2 * codes.length) ++ (code.encodeAll codes ++ rest) := by
    change be16 (code.encodeAll codes).length ++ _ ++ _ = _
    rw [code_encodeAll_length,append_assoc]
  unfold srvOpenCodePointList
  rw [shape,read]
  simp only [rbLeft_live,length_append,code_encodeAll_length]
  rw [if_pos]
  simp only [Bool.not_false,Bool.true_and,Bool.and_eq_true,decide_eq_true_eq,beq_iff_eq]
  omega

theorem srvOpenCodePointList_some {bytes : Bytes} {listLen : Nat} {next : Rbuf}
    (opened : srvOpenCodePointList ⟨bytes,false⟩ = some (listLen, next)) :
    ∃ codes rest, (code.list16 2).Form codes ∧ listLen = 2 * codes.length ∧
      bytes = (code.list16 2).encode codes ++ rest ∧
      next = ⟨code.encodeAll codes ++ rest,false⟩ := by
  unfold srvOpenCodePointList at opened
  rcases rbU16_cases bytes with ⟨number,tail,bounded,rfl,read⟩ | ⟨_,failed⟩
  · rw [read] at opened
    dsimp only at opened
    split at opened
    · rename_i fits
      cases opened
      simp only [Bool.not_false,Bool.true_and,Bool.and_eq_true,decide_eq_true_eq,beq_iff_eq,
        rbLeft_live] at fits
      obtain ⟨⟨least,even⟩,room⟩ := fits
      replace room := of_decide_eq_true room
      obtain ⟨codes,formed,counted,spelled⟩ :=
        exists_codes (listLen / 2) (tail.take listLen) (by rw [length_take]; omega)
      have total : 2 * codes.length = listLen := by omega
      refine ⟨codes,tail.drop listLen,⟨formed,?_,?_⟩,total.symm,?_,?_⟩
      · rw [code_encodeAll_length]
        omega
      · rw [code_encodeAll_length]
        omega
      · change _ = be16 (code.encodeAll codes).length ++ _ ++ _
        rw [code_encodeAll_length,total,← spelled,append_assoc,take_append_drop]
      · rw [← spelled,take_append_drop]
    · cases opened
  · simp [failed] at opened

/-! ### Lists of entries -/

/-- One turn of a list's loop against the format of its entries: on a spelled
entry it takes the entry or stops with the judgment on it, and it takes nothing
else. -/
structure EntrySpec {α : Type} (entry : Rbuf → HelloParse (Nat × Rbuf)) (f : Format α)
    (judge : α → Option Nat) (keep : α → ClientHello → ClientHello) : Prop where
  filled : ∀ x, f.Form x → 0 < (f.encode x).length
  takes : ∀ x rest ch, f.Form x → judge x = none →
    entry ⟨f.encode x ++ rest,false⟩ ch = (.ok ((f.encode x).length, ⟨rest,false⟩), keep x ch)
  judged : ∀ x rest ch alert, f.Form x → judge x = some alert →
    (entry ⟨f.encode x ++ rest,false⟩ ch).1 = .error alert
  taken : ∀ bytes ch took next, (entry ⟨bytes,false⟩ ch).1 = .ok (took, next) →
    ∃ x rest, f.Form x ∧ judge x = none ∧ bytes = f.encode x ++ rest ∧ next = ⟨rest,false⟩ ∧
      took = (f.encode x).length
  refused : ∀ bytes ch alert, (entry ⟨bytes,false⟩ ch).1 = .error alert →
    alert = decodeError ∨
      ∃ x rest, f.Form x ∧ judge x = some alert ∧ bytes = f.encode x ++ rest

namespace EntrySpec

variable {α : Type} {entry : Rbuf → HelloParse (Nat × Rbuf)} {f : Format α}
  {judge : α → Option Nat} {keep : α → ClientHello → ClientHello}

/-- One equation for a spelled entry, and that nothing else is taken. -/
theorem of_cases (filled : ∀ x, f.Form x → 0 < (f.encode x).length)
    (answers : ∀ x rest ch, f.Form x → entry ⟨f.encode x ++ rest,false⟩ ch = (judge x).elim
      (.ok ((f.encode x).length, ⟨rest,false⟩), keep x ch) fun alert => (.error alert, ch))
    (spelled : ∀ bytes ch, (∃ x rest, f.Form x ∧ bytes = f.encode x ++ rest) ∨
      (entry ⟨bytes,false⟩ ch).1 = .error decodeError) : EntrySpec entry f judge keep where
  filled := filled
  takes x rest ch form allowed := by rw [answers x rest ch form,allowed,Option.elim_none]
  judged x rest ch alert form judgment := by
    rw [answers x rest ch form,judgment,Option.elim_some]
  taken bytes ch took next returned := by
    rcases spelled bytes ch with ⟨x,rest,form,rfl⟩ | malformed
    · rw [answers x rest ch form] at returned
      rcases verdict : judge x with _ | alert <;> rw [verdict] at returned <;> cases returned
      exact ⟨x,rest,form,verdict,rfl,rfl,rfl⟩
    · rw [malformed] at returned
      cases returned
  refused bytes ch alert stopped := by
    rcases spelled bytes ch with ⟨x,rest,form,rfl⟩ | malformed
    · rw [answers x rest ch form] at stopped
      rcases verdict : judge x with _ | reason <;> rw [verdict] at stopped <;> cases stopped
      exact .inr ⟨x,rest,form,verdict,rfl⟩
    · rw [malformed] at stopped
      cases stopped
      exact .inl rfl

theorem length_le (spec : EntrySpec entry f judge keep) {xs : List α}
    (formed : ∀ x ∈ xs, f.Form x) : xs.length ≤ (f.encodeAll xs).length := by
  induction xs with
  | nil => exact Nat.le_refl 0
  | cons x xs ih =>
    have first := spec.filled x (formed x mem_cons_self)
    have others := ih (forall_mem_cons.mp formed).2
    rw [encodeAll_cons,length_append,length_cons]
    omega

/-- A list of allowed entries is folded into the ClientHello. -/
theorem entries_take (spec : EntrySpec entry f judge keep) {xs : List α} {listLen used fuel : Nat}
    (formed : ∀ x ∈ xs, f.Form x) (allowed : ∀ x ∈ xs, judge x = none)
    (total : used + (f.encodeAll xs).length = listLen) (enough : xs.length ≤ fuel) (rest : Bytes)
    (ch : ClientHello) :
    rbEntries entry listLen fuel used ⟨f.encodeAll xs ++ rest,false⟩ ch =
      (.ok ⟨rest,false⟩, xs.foldl (fun ch x => keep x ch) ch) := by
  induction xs generalizing used fuel ch with
  | nil =>
    have ended : used = listLen := total
    cases fuel with
    | zero =>
      rw [rbEntries,if_pos ended]
      rfl
    | succ fuel =>
      rw [rbEntries,if_neg (by omega),if_neg (by simp [ended])]
      rfl
  | cons x xs ih =>
    obtain ⟨fuel,rfl⟩ : ∃ less, fuel = less + 1 := ⟨fuel - 1,by simp at enough; omega⟩
    have form := formed x mem_cons_self
    have first := spec.takes x (f.encodeAll xs ++ rest) ch form (allowed x mem_cons_self)
    have filled := spec.filled x form
    rw [encodeAll_cons,length_append] at total
    rw [encodeAll_cons,append_assoc,rbEntries,if_pos (by omega),bind_of_ok first,foldl_cons]
    apply ih (forall_mem_cons.mp formed).2
      (forall_mem_cons.mp allowed).2
    · omega
    · simpa using enough

/-- The walk stops at the first entry that is judged, wherever the list may end. -/
theorem entries_broken (spec : EntrySpec entry f judge keep) {before : List α} {x : α}
    {listLen used fuel alert : Nat} (passed : ∀ y ∈ before, f.Form y ∧ judge y = none)
    (form : f.Form x) (judgment : judge x = some alert)
    (inside : used + (f.encodeAll before).length < listLen) (enough : before.length < fuel)
    (rest : Bytes) (ch : ClientHello) :
    (rbEntries entry listLen fuel used ⟨f.encodeAll before ++ (f.encode x ++ rest),false⟩ ch).1 =
      .error alert := by
  induction before generalizing used fuel ch with
  | nil =>
    obtain ⟨fuel,rfl⟩ : ∃ less, fuel = less + 1 := ⟨fuel - 1,by simp at enough; omega⟩
    have stopped := spec.judged x rest ch alert form judgment
    rcases ran : entry ⟨f.encode x ++ rest,false⟩ ch with ⟨result,after⟩
    rw [ran] at stopped
    cases stopped
    have more : used < listLen := inside
    rw [encodeAll_nil,nil_append,rbEntries,if_pos more,bind_of_error ran]
  | cons y before ih =>
    obtain ⟨fuel,rfl⟩ : ∃ less, fuel = less + 1 := ⟨fuel - 1,by simp at enough; omega⟩
    obtain ⟨first,others⟩ := forall_mem_cons.mp passed
    rw [encodeAll_cons,length_append] at inside
    rw [encodeAll_cons,append_assoc,rbEntries,if_pos (by omega),
      bind_of_ok (spec.takes y _ ch first.1 first.2)]
    exact ih others (by omega) (by simpa using enough) _

/-- Entries that are taken are well formed, and none of them is judged. -/
theorem entries_taken (spec : EntrySpec entry f judge keep) {listLen used fuel : Nat}
    {bytes : Bytes} {ch : ClientHello} {next : Rbuf}
    (returned : (rbEntries entry listLen fuel used ⟨bytes,false⟩ ch).1 = .ok next) :
    ∃ xs rest, (∀ x ∈ xs, f.Form x) ∧ (∀ x ∈ xs, judge x = none) ∧
      bytes = f.encodeAll xs ++ rest ∧ next = ⟨rest,false⟩ ∧
      used + (f.encodeAll xs).length = listLen := by
  induction fuel generalizing used bytes ch with
  | zero =>
    rw [rbEntries] at returned
    split at returned
    · cases returned
      exact ⟨[],bytes,by simp,by simp,rfl,rfl,by simpa⟩
    · cases returned
  | succ fuel ih =>
    rw [rbEntries] at returned
    split at returned
    · rcases ran : entry ⟨bytes,false⟩ ch with ⟨_ | ⟨took,after⟩,middle⟩
      · rw [bind_of_error ran] at returned
        cases returned
      · obtain ⟨x,tail,form,allowed,rfl,rfl,rfl⟩ :=
          spec.taken bytes ch took after (by rw [ran])
        rw [bind_of_ok ran] at returned
        obtain ⟨xs,rest,formed,allowedAll,rfl,rfl,total⟩ := ih returned
        refine ⟨x :: xs,rest,?_,?_,by simp,rfl,?_⟩
        · simpa using ⟨form,formed⟩
        · simpa using ⟨allowed,allowedAll⟩
        · rw [encodeAll_cons,length_append]
          omega
    · split at returned
      · cases returned
      · rename_i ended
        cases returned
        exact ⟨[],bytes,by simp,by simp,rfl,rfl,by simpa using ended⟩

/-- A walk stops at a decoding error or at the first entry that is judged. -/
theorem entries_refused (spec : EntrySpec entry f judge keep) {listLen used fuel alert : Nat}
    {bytes : Bytes} {ch : ClientHello}
    (stopped : (rbEntries entry listLen fuel used ⟨bytes,false⟩ ch).1 = .error alert) :
    alert = decodeError ∨
      ∃ before x rest, (∀ y ∈ before, f.Form y ∧ judge y = none) ∧ f.Form x ∧
        judge x = some alert ∧ bytes = f.encodeAll before ++ (f.encode x ++ rest) ∧
        used + (f.encodeAll before).length < listLen := by
  induction fuel generalizing used bytes ch with
  | zero =>
    rw [rbEntries] at stopped
    split at stopped
    · cases stopped
    · cases stopped
      exact .inl rfl
  | succ fuel ih =>
    rw [rbEntries] at stopped
    split at stopped
    · rename_i more
      rcases ran : entry ⟨bytes,false⟩ ch with ⟨reason | ⟨took,after⟩,middle⟩
      · rw [bind_of_error ran] at stopped
        cases stopped
        rcases spec.refused bytes ch alert (by rw [ran]) with malformed | ⟨x,rest,form,judged,rfl⟩
        · exact .inl malformed
        · exact .inr ⟨[],x,rest,by simp,form,judged,rfl,by simpa using more⟩
      · obtain ⟨x,tail,form,allowed,rfl,rfl,rfl⟩ :=
          spec.taken bytes ch took after (by rw [ran])
        rw [bind_of_ok ran] at stopped
        rcases ih stopped with malformed | ⟨before,y,rest,passed,last,judged,rfl,inside⟩
        · exact .inl malformed
        · refine .inr ⟨x :: before,y,rest,forall_mem_cons.mpr ⟨⟨form,allowed⟩,passed⟩,last,judged,
            by simp,?_⟩
          rw [encodeAll_cons,length_append]
          omega
    · split at stopped
      · cases stopped
        exact .inl rfl
      · cases stopped

end EntrySpec

/-! ### Vectors of bytes -/

theorem rbU8_vector8 {bytes : Bytes} (short : bytes.length < 256) (rest : Bytes) :
    rbU8 ⟨byte bytes.length :: (bytes ++ rest),false⟩ = (bytes.length, ⟨bytes ++ rest,false⟩) := by
  rw [rbU8_cons,byte_toNat,Nat.mod_eq_of_lt short]

theorem vector8_cases (bytes : Bytes) :
    (∃ value rest : Bytes, value.length < 256 ∧ bytes = byte value.length :: (value ++ rest) ∧
        rbU8 ⟨bytes,false⟩ = (value.length, ⟨value ++ rest,false⟩) ∧
        rbBytes value.length ⟨value ++ rest,false⟩ = (some value, ⟨rest,false⟩)) ∨
      ∃ next, rbBytes (rbU8 ⟨bytes,false⟩).1 (rbU8 ⟨bytes,false⟩).2 = (none, next) := by
  rcases rbU8_cases bytes with ⟨octet,tail,rfl,read⟩ | ⟨_,failed⟩
  · rw [read]
    dsimp only
    rcases rbBytes_cases octet.toNat tail with ⟨value,rest,counted,rfl,took⟩ | ⟨_,short⟩
    · refine .inl ⟨value,rest,?_,?_,?_,?_⟩
      · rw [counted]
        exact octet.toNat_lt
      · rw [counted,byte_of_toNat]
      · rw [counted]
      · rw [counted,took]
    · exact .inr ⟨_,short⟩
  · exact .inr ⟨_,rbBytes_failed failed⟩

theorem vector16_cases (bytes : Bytes) :
    (∃ value rest : Bytes, value.length < 65536 ∧ bytes = be16 value.length ++ (value ++ rest) ∧
        rbU16 ⟨bytes,false⟩ = (value.length, ⟨value ++ rest,false⟩) ∧
        rbBytes value.length ⟨value ++ rest,false⟩ = (some value, ⟨rest,false⟩)) ∨
      ∃ next, rbBytes (rbU16 ⟨bytes,false⟩).1 (rbU16 ⟨bytes,false⟩).2 = (none, next) := by
  rcases rbU16_cases bytes with ⟨number,tail,bounded,rfl,read⟩ | ⟨_,failed⟩
  · rw [read]
    dsimp only
    rcases rbBytes_cases number tail with ⟨value,rest,rfl,rfl,took⟩ | ⟨_,short⟩
    · exact .inl ⟨value,rest,bounded,rfl,rfl,took⟩
    · exact .inr ⟨_,short⟩
  · exact .inr ⟨_,rbBytes_failed failed⟩

/-! ### The entries of the lists -/

/-- The common form of an entry that is a vector behind a length of one byte. -/
def vector8Entry (least : Nat) (keep : Bytes → ClientHello → ClientHello) (e : Rbuf) :
    HelloParse (Nat × Rbuf) := fun ch =>
  let (length, e) := rbU8 e
  match rbBytes length e with
  | (none, _) => (.error decodeError, ch)
  | (some value, e) =>
    if length < least then (.error decodeError, ch) else (.ok (1 + length, e), keep value ch)

theorem vector8Entry_spec (least : Nat) (keep : Bytes → ClientHello → ClientHello) :
    EntrySpec (vector8Entry least keep) (vector8 least) (fun _ => none) keep := by
  refine .of_cases (fun value _ => Nat.succ_pos _) (fun value rest ch form => ?_) fun bytes ch => ?_
  · obtain ⟨enough,short⟩ := form
    change vector8Entry least keep ⟨byte value.length :: (value ++ rest),false⟩ ch = _
    unfold vector8Entry
    simp only [rbU8_vector8 short,rbBytes_append,if_neg (Nat.not_lt.mpr enough)]
    simp [vector8,Nat.add_comm]
  · rcases vector8_cases bytes with ⟨value,rest,short,rfl,length,read⟩ | ⟨after,failed⟩
    · by_cases enough : least ≤ value.length
      · exact .inl ⟨value,rest,⟨enough,short⟩,rfl⟩
      · simp [vector8Entry,length,read,Nat.lt_of_not_le enough]
    · simp [vector8Entry,failed]

theorem alpnEntry_spec (offered : List Bytes) :
    EntrySpec (alpnEntry offered) (vector8 1) (fun _ => none) (alpnOffered offered) := by
  have common : alpnEntry offered = vector8Entry 1 (alpnOffered offered) := by
    funext e ch
    simp only [alpnEntry,vector8Entry]
    rcases rbBytes (rbU8 e).1 (rbU8 e).2 with ⟨_ | name,after⟩
    · rfl
    · simp only [Nat.lt_one_iff]
  rw [common]
  exact vector8Entry_spec 1 _

theorem binderEntry_spec : EntrySpec binderEntry (vector8 32) (fun _ => none) (fun _ ch => ch) :=
  vector8Entry_spec 32 fun _ ch => ch

theorem identityEntry_spec :
    EntrySpec identityEntry identityFormat (fun _ => none) (fun _ ch => ch) := by
  refine .of_cases (fun identity _ => ?_) (fun identity rest ch form => ?_) fun bytes ch => ?_
  · simp only [identityFormat,length_append,be16_length]
    omega
  · obtain ⟨filled,short,age⟩ := form
    have shape : identityFormat.encode identity ++ rest =
        be16 identity.1.length ++ (identity.1 ++ (identity.2 ++ rest)) := by
      simp [identityFormat]
    have ages := rbBytes_append identity.2 rest
    rw [age] at ages
    unfold identityEntry
    simp only [shape,rbU16_be16 _ _ short,rbBytes_append,if_neg (Nat.ne_of_gt filled),ages]
    simp [identityFormat,age,Nat.add_assoc]
  · rcases vector16_cases bytes with ⟨identity,tail,short,rfl,length,value⟩ | ⟨after,failed⟩
    · by_cases empty : identity.length = 0
      · right
        simp only [identityEntry,length,value,if_pos empty]
      rcases rbBytes_cases 4 tail with ⟨age,rest,counted,rfl,took⟩ | ⟨_,few⟩
      · exact .inl ⟨(identity, age),rest,⟨Nat.pos_of_ne_zero empty,short,counted⟩,
          by simp [identityFormat]⟩
      · simp [identityEntry,length,value,empty,few]
    · simp [identityEntry,failed]

/-- `take_share` on a share that has its group's length. -/
def shareKeep (b : Build) (share : Item) (ch : ClientHello) : ClientHello :=
  if srvGroupKnown b share.1 && (ch.share share.1).isNone then
    { ch with shares := ch.shares ++ [share] }
  else ch

theorem takeShare_ok {b : Build} {share : Item} (known : srvGroupKnown b share.1 = true)
    (fits : share.2.length = shareLenOf b share.1) (ch : ClientHello) :
    takeShare b share.1 share.2 ch = (.ok (), shareKeep b share ch) := by
  unfold takeShare shareKeep
  rw [if_neg (by simp [fits]),known]
  cases held : ch.share share.1 with
  | none => simp
  | some _ => simp

theorem shareEntry_spec (b : Build) :
    EntrySpec (shareEntry b) shareFormat (HelloExt.shareJudge b) (shareKeep b) := by
  refine .of_cases (fun share _ => ?_) (fun share rest ch form => ?_) fun bytes ch => ?_
  · simp only [shareFormat,Item.encode_length]
    omega
  · obtain ⟨fits,filled⟩ := form
    have read : rbItem ⟨shareFormat.encode share ++ rest,false⟩ = _ := rbItem_encode fits rest
    rw [shareEntry,read]
    dsimp only
    rw [if_neg filled]
    by_cases known : srvGroupKnown b share.1 = true
    · rw [if_pos known]
      by_cases length : share.2.length = shareLenOf b share.1
      · rw [bind_of_ok (takeShare_ok known length ch)]
        simp [HelloExt.shareJudge,length,shareFormat]
      · have stopped : takeShare b share.1 share.2 ch = (.error illegalParameter, ch) := by
          unfold takeShare
          rw [if_pos length]
        rw [bind_of_error stopped]
        simp [HelloExt.shareJudge,known,length]
    · rw [if_neg known]
      simp [HelloExt.shareJudge,shareFormat,shareKeep,known]
  · rcases read : rbItem ⟨bytes,false⟩ with ⟨group,_ | share,after⟩
    · simp [shareEntry,read]
    obtain ⟨whole,_,fits⟩ := rbItem_eq_some read
    by_cases filled : share = []
    · simp [shareEntry,read,filled]
    · exact .inl ⟨(group, share),after.rest,⟨fits,filled⟩,congrArg Rbuf.rest whole⟩

/-! ### The bodies -/

/-- A value spelled at the front of a body, and the judgment on it. -/
def JudgedBody {α : Type} (f : Format α) (judge : α → Option Nat) (bytes : Bytes) (alert : Nat) :
    Prop :=
  ∃ x rest, f.Form x ∧ judge x = some alert ∧ bytes = f.encode x ++ rest

/-- A reader of one body against its format.  `bad` tells of a body that a rule
other than the syntax refuses. -/
structure BodySpec {α : Type} (read : Rbuf → HelloParse Rbuf) (f : Format α)
    (judge : α → Option Nat) (keep : α → ClientHello → ClientHello)
    (bad : Bytes → Nat → Prop) : Prop where
  takes : ∀ x rest ch, f.Form x → judge x = none →
    read ⟨f.encode x ++ rest,false⟩ ch = (.ok ⟨rest,false⟩, keep x ch)
  broken : ∀ bytes ch alert, bad bytes alert → (read ⟨bytes,false⟩ ch).1 = .error alert
  taken : ∀ bytes ch next, (read ⟨bytes,false⟩ ch).1 = .ok next → next.err = false →
    ∃ x, f.Form x ∧ judge x = none ∧ bytes = f.encode x ++ next.rest
  refused : ∀ bytes ch alert, (read ⟨bytes,false⟩ ch).1 = .error alert →
    alert = decodeError ∨ bad bytes alert

/-- A reader that judges what it has read. -/
abbrev ValueSpec {α : Type} (read : Rbuf → HelloParse Rbuf) (f : Format α)
    (judge : α → Option Nat) (keep : α → ClientHello → ClientHello) : Prop :=
  BodySpec read f judge keep (JudgedBody f judge)

/-- One equation for a spelled body, and that nothing else is taken. -/
theorem ValueSpec.of_cases {α : Type} {read : Rbuf → HelloParse Rbuf} {f : Format α}
    {judge : α → Option Nat} {keep : α → ClientHello → ClientHello}
    (answers : ∀ x rest ch, f.Form x → read ⟨f.encode x ++ rest,false⟩ ch =
      (judge x).elim (.ok ⟨rest,false⟩, keep x ch) fun alert => (.error alert, ch))
    (spelled : ∀ bytes ch, (∃ x rest, f.Form x ∧ bytes = f.encode x ++ rest) ∨
      (read ⟨bytes,false⟩ ch).1 = .error decodeError) :
    ValueSpec read f judge keep where
  takes x rest ch form allowed := by rw [answers x rest ch form,allowed,Option.elim_none]
  broken bytes ch alert bad := by
    obtain ⟨x,rest,form,judgment,rfl⟩ := bad
    rw [answers x rest ch form,judgment,Option.elim_some]
  taken bytes ch next returned _ := by
    rcases spelled bytes ch with ⟨x,rest,form,rfl⟩ | malformed
    · rw [answers x rest ch form] at returned
      rcases verdict : judge x with _ | alert <;> rw [verdict] at returned <;> cases returned
      exact ⟨x,form,verdict,rfl⟩
    · rw [malformed] at returned
      cases returned
  refused bytes ch alert stopped := by
    rcases spelled bytes ch with ⟨x,rest,form,rfl⟩ | malformed
    · rw [answers x rest ch form] at stopped
      rcases verdict : judge x with _ | reason <;> rw [verdict] at stopped <;> cases stopped
      exact .inr ⟨x,rest,form,verdict,rfl⟩
    · rw [malformed] at stopped
      cases stopped
      exact .inl rfl

def list16Body (least : Nat) (entry : Rbuf → HelloParse (Nat × Rbuf)) (e : Rbuf) :
    HelloParse Rbuf :=
  let (listLen, e) := rbU16 e
  if e.err || listLen < least || listLen > rbLeft e then Proc.stop decodeError
  else rbEntries entry listLen listLen 0 e

/-- An entry that is judged, behind others that are taken, where the list goes
on: its length fits the body, and the entry may run over it. -/
def JudgedEntry {α : Type} (f : Format α) (judge : α → Option Nat) (least : Nat) (bytes : Bytes)
    (alert : Nat) : Prop :=
  ∃ listLen before x rest, (∀ y ∈ before, f.Form y ∧ judge y = none) ∧ f.Form x ∧
    judge x = some alert ∧ least ≤ listLen ∧ listLen < 65536 ∧
    listLen ≤ (f.encodeAll before ++ (f.encode x ++ rest)).length ∧
    (f.encodeAll before).length < listLen ∧
    bytes = be16 listLen ++ (f.encodeAll before ++ (f.encode x ++ rest))

theorem rbU16_list16 {α : Type} {f : Format α} {least : Nat} {xs : List α}
    (form : (f.list16 least).Form xs) (rest : Bytes) :
    rbU16 ⟨(f.list16 least).encode xs ++ rest,false⟩ =
      ((f.encodeAll xs).length, ⟨f.encodeAll xs ++ rest,false⟩) := by
  have shape : (f.list16 least).encode xs ++ rest =
      be16 (f.encodeAll xs).length ++ (f.encodeAll xs ++ rest) := append_assoc ..
  rw [shape,rbU16_be16 _ _ form.2.2]

section Bodies

variable {α : Type} {entry : Rbuf → HelloParse (Nat × Rbuf)} {f : Format α}
  {judge : α → Option Nat} {keep : α → ClientHello → ClientHello}

theorem list16Body_cases (least : Nat) (entry : Rbuf → HelloParse (Nat × Rbuf)) (bytes : Bytes) :
    (∃ listLen tail, listLen < 65536 ∧ least ≤ listLen ∧ listLen ≤ tail.length ∧
        bytes = be16 listLen ++ tail ∧ rbU16 ⟨bytes,false⟩ = (listLen, ⟨tail,false⟩) ∧
        list16Body least entry ⟨bytes,false⟩ =
          rbEntries entry listLen listLen 0 ⟨tail,false⟩) ∨
      list16Body least entry ⟨bytes,false⟩ = Proc.stop decodeError := by
  unfold list16Body
  rcases rbU16_cases bytes with ⟨listLen,tail,bounded,rfl,read⟩ | ⟨_,failed⟩
  · rw [read]
    by_cases fits : least ≤ listLen ∧ listLen ≤ tail.length
    · refine .inl ⟨listLen,tail,bounded,fits.1,fits.2,rfl,rfl,?_⟩
      simp [Nat.not_lt.mpr fits.1,Nat.not_lt.mpr fits.2]
    · refine .inr ?_
      dsimp only
      rw [if_pos]
      simp only [Bool.false_or,Bool.or_eq_true,decide_eq_true_eq]
      rw [rbLeft_live]
      omega
  · right
    simp [failed]

theorem list16Body_encode {least : Nat} {xs : List α} (form : (f.list16 least).Form xs)
    (rest : Bytes) : list16Body least entry ⟨(f.list16 least).encode xs ++ rest,false⟩ =
      rbEntries entry (f.encodeAll xs).length (f.encodeAll xs).length 0
        ⟨f.encodeAll xs ++ rest,false⟩ := by
  have enough := form.2.1
  unfold list16Body
  rw [rbU16_list16 form]
  dsimp only
  rw [if_neg]
  simp only [Bool.false_or,Bool.or_eq_true,decide_eq_true_eq]
  rw [rbLeft_live,length_append]
  omega

/-- A list is read as its format says, whatever its entries are. -/
theorem list16Body_spec (spec : EntrySpec entry f judge keep) (least : Nat) :
    BodySpec (list16Body least entry) (f.list16 least) (fun xs => xs.findSome? judge)
      (fun xs ch => xs.foldl (fun ch x => keep x ch) ch) (JudgedEntry f judge least) where
  takes xs rest ch form allowed := by
    rw [list16Body_encode form]
    exact spec.entries_take form.1 (by simpa using allowed) (Nat.zero_add _)
      (spec.length_le form.1) rest ch
  broken bytes ch alert bad := by
    obtain ⟨listLen,before,x,rest,passed,form,judgment,enough,bounded,fits,inside,rfl⟩ := bad
    have few := spec.length_le fun y among => (passed y among).1
    unfold list16Body
    rw [rbU16_be16 _ _ bounded]
    dsimp only
    rw [if_neg]
    · exact spec.entries_broken passed form judgment (by omega) (by omega) rest ch
    · simp only [Bool.false_or,Bool.or_eq_true,decide_eq_true_eq]
      rw [rbLeft_live]
      omega
  taken bytes ch next returned _ := by
    rcases list16Body_cases least entry bytes with
      ⟨listLen,tail,bounded,enough,_,rfl,_,opened⟩ | refused
    · rw [opened] at returned
      obtain ⟨xs,rest,formed,allowed,rfl,rfl,total⟩ := spec.entries_taken returned
      rw [Nat.zero_add] at total
      refine ⟨xs,⟨formed,by rw [total]; exact enough,by rw [total]; exact bounded⟩,
        by simpa using allowed,?_⟩
      change _ = be16 (f.encodeAll xs).length ++ f.encodeAll xs ++ rest
      rw [total,append_assoc]
    · rw [refused] at returned
      cases returned
  refused bytes ch alert stopped := by
    rcases list16Body_cases least entry bytes with
      ⟨listLen,tail,bounded,enough,fits,rfl,_,opened⟩ | refused
    · rw [opened] at stopped
      rcases spec.entries_refused stopped with
        malformed | ⟨before,x,rest,passed,form,judged,rfl,inside⟩
      · exact .inl malformed
      · rw [Nat.zero_add] at inside
        exact .inr ⟨listLen,before,x,rest,passed,form,judged,enough,bounded,fits,inside,rfl⟩
    · rw [refused] at stopped
      cases stopped
      exact .inl rfl

theorem list16Body_live (spec : EntrySpec entry f judge keep) {least : Nat} {bytes : Bytes}
    {ch after : ClientHello} {next : Rbuf}
    (returned : list16Body least entry ⟨bytes,false⟩ ch = (.ok next, after)) :
    next.err = false := by
  rcases list16Body_cases least entry bytes with ⟨_,_,_,_,_,_,_,opened⟩ | refused
  · rw [opened] at returned
    obtain ⟨_,_,_,_,_,rfl,_⟩ := spec.entries_taken (congrArg Prod.fst returned)
    rfl
  · rw [refused] at returned
    cases returned

end Bodies

theorem readServerName_spec :
    ValueSpec readServerName hostNameFormat (fun _ => none)
      (fun name ch => { ch with serverName := some name }) := by
  refine .of_cases (fun name rest ch form => ?_) fun bytes ch => ?_
  · obtain ⟨filled,bounded⟩ := form
    have list := rbU16_be16 (3 + name.length) (0 :: (be16 name.length ++ (name ++ rest))) bounded
    have length := rbU16_be16 name.length (name ++ rest) (by omega)
    have shape : hostNameFormat.encode name ++ rest =
        be16 (3 + name.length) ++ (0 :: (be16 name.length ++ (name ++ rest))) := by
      simp [hostNameFormat]
    have present : ¬ name.length = 0 := by omega
    unfold readServerName
    simp [shape,list,length,rbBytes_append,present]
  · rcases rbU16_cases bytes with ⟨listLen,tail,listBound,rfl,list⟩ | ⟨_,failed⟩
    swap
    · simp [readServerName,rbBytes_failed (rbU16_err_of_err (rbU8_err_of_err failed))]
    rcases rbU8_cases tail with ⟨nameType,front,rfl,type⟩ | ⟨_,failed⟩
    swap
    · simp [readServerName,list,rbBytes_failed (rbU16_err_of_err failed)]
    rcases vector16_cases front with ⟨name,rest,short,rfl,length,value⟩ | ⟨after,few⟩
    swap
    · simp [readServerName,list,type,few]
    by_cases shaped : nameType.toNat ≠ 0 ∨ name.length = 0 ∨ listLen ≠ 3 + name.length
    · right
      simp only [readServerName,list,type,length,value,if_pos shaped]
    · simp only [ne_eq,not_or,Decidable.not_not] at shaped
      obtain ⟨host,filled,rfl⟩ := shaped
      obtain rfl : nameType = 0 := UInt8.toNat_inj.mp host
      exact .inl ⟨name,rest,⟨Nat.pos_of_ne_zero filled,listBound⟩,by simp [hostNameFormat]⟩

theorem readCodePoints_spec (keep : List Nat → ClientHello → ClientHello) :
    ValueSpec (readCodePoints keep) (code.list16 2) (fun _ => none) keep := by
  refine .of_cases (fun codes rest ch form => ?_) fun bytes ch => ?_
  · unfold readCodePoints
    rw [srvOpenCodePointList_encode form rest]
    have half : 2 * codes.length / 2 = codes.length := by omega
    simp only [half,rbCodes_encodeAll form.1,Option.elim_none]
  · rcases opened : srvOpenCodePointList ⟨bytes,false⟩ with _ | ⟨listLen,after⟩
    · simp [readCodePoints,opened]
    · obtain ⟨codes,rest,form,-,same,-⟩ := srvOpenCodePointList_some opened
      exact .inl ⟨codes,rest,form,same⟩

theorem readSupportedGroups_spec (b : Build) :
    ValueSpec (readSupportedGroups b) (code.list16 2) (fun _ => none)
      (fun groups ch => { ch with groups := groups.filter (srvGroupKnown b) }) :=
  readCodePoints_spec _

theorem readSignatureAlgorithms_spec (b : Build) :
    ValueSpec (readSignatureAlgorithms b) (code.list16 2) (fun _ => none)
      (fun schemes ch => { ch with sigalgs := schemes.filter (srvSigalgKnown b) }) :=
  readCodePoints_spec _

theorem readAlpn_spec (offered : List Bytes) :
    BodySpec (readAlpn offered) ((vector8 1).list16 2)
      (fun names => names.findSome? fun _ => none)
      (fun names ch => names.foldl (fun ch name => alpnOffered offered name ch) ch)
      (JudgedEntry (vector8 1) (fun _ => none) 2) :=
  list16Body_spec (alpnEntry_spec offered) 2

theorem readKeyShare_spec (b : Build) :
    BodySpec (readKeyShare b) (shareFormat.list16 0)
      (fun shares => shares.findSome? (HelloExt.shareJudge b))
      (fun shares ch => shares.foldl (fun ch share => shareKeep b share ch) ch)
      (JudgedEntry shareFormat (HelloExt.shareJudge b) 0) := by
  have common : readKeyShare b = list16Body 0 (shareEntry b) := by
    funext e
    simp [readKeyShare,list16Body]
  rw [common]
  exact list16Body_spec (shareEntry_spec b) 0

theorem readRecordSizeLimit_spec :
    ValueSpec readRecordSizeLimit code
      (fun limit => if limit < 64 then some illegalParameter else none)
      (fun limit ch => { ch with recordSizeLimit := limit - 1 }) := by
  refine .of_cases (fun limit rest ch form => ?_) fun bytes ch => ?_
  · have read := rbU16_be16 limit rest form
    change readRecordSizeLimit ⟨be16 limit ++ rest,false⟩ ch = _
    unfold readRecordSizeLimit
    by_cases low : limit < 64
    · simp [read,low]
    · simp [read,low]
  · rcases rbU16_cases bytes with ⟨limit,rest,bounded,same,-⟩ | ⟨_,failed⟩
    · exact .inl ⟨limit,rest,bounded,same⟩
    · simp [readRecordSizeLimit,failed]

theorem readSupportedVersions_encode {versions : List Nat}
    (form : (code.list8 2).Form versions) (rest : Bytes) (ch : ClientHello) :
    readSupportedVersions ⟨(code.list8 2).encode versions ++ rest,false⟩ ch =
      if versions.contains tls13 then (.ok ⟨rest,false⟩, ch)
      else (.error protocolVersion, ch) := by
  obtain ⟨formed,least,bounded⟩ := form
  have codes := rbCodes_encodeAll formed rest
  have shape : (code.list8 2).encode versions ++ rest =
      byte (code.encodeAll versions).length :: (code.encodeAll versions ++ rest) := rfl
  have length := rbU8_vector8 bounded rest
  rw [code_encodeAll_length] at least bounded length shape
  have half : 2 * versions.length / 2 = versions.length := by omega
  unfold readSupportedVersions
  rw [shape,length]
  dsimp only
  rw [if_neg,half,codes]
  simp only [Bool.false_or,Bool.or_eq_true,decide_eq_true_eq,bne_iff_ne]
  rw [rbLeft_live,length_append,code_encodeAll_length]
  omega

theorem readSupportedVersions_cases (bytes : Bytes) (ch : ClientHello) :
    (∃ versions rest, (code.list8 2).Form versions ∧
        bytes = (code.list8 2).encode versions ++ rest) ∨
      readSupportedVersions ⟨bytes,false⟩ ch = (.error decodeError, ch) := by
  rcases rbU8_cases bytes with ⟨octet,tail,rfl,read⟩ | ⟨_,failed⟩
  · have bounded := octet.toNat_lt
    by_cases fits : 2 ≤ octet.toNat ∧ octet.toNat % 2 = 0 ∧ octet.toNat ≤ tail.length
    · obtain ⟨codes,formed,counted,spelled⟩ := exists_codes (octet.toNat / 2)
        (tail.take octet.toNat) (by rw [length_take]; omega)
      have total : (code.encodeAll codes).length = octet.toNat := by
        rw [code_encodeAll_length]
        omega
      refine .inl ⟨codes,tail.drop octet.toNat,⟨formed,by omega,by omega⟩,?_⟩
      change _ = byte (code.encodeAll codes).length :: (code.encodeAll codes ++ _)
      rw [total,byte_of_toNat,← spelled,take_append_drop]
    · right
      unfold readSupportedVersions
      rw [read]
      dsimp only
      rw [if_pos]
      simp only [Bool.false_or,Bool.or_eq_true,decide_eq_true_eq,bne_iff_ne]
      rw [rbLeft_live]
      omega
  · right
    unfold readSupportedVersions
    simp [failed]

theorem readSupportedVersions_spec :
    ValueSpec readSupportedVersions (code.list8 2)
      (fun versions => if versions.contains tls13 then none else some protocolVersion)
      (fun _ ch => ch) := by
  refine .of_cases (fun versions rest ch form => ?_) fun bytes ch => ?_
  · rw [readSupportedVersions_encode form]
    split <;> rfl
  · exact (readSupportedVersions_cases bytes ch).imp_right (congrArg Prod.fst)

theorem readCookie_spec :
    ValueSpec readCookie (vector16 1) (fun _ => none)
      (fun value ch => { ch with cookie := some value }) := by
  refine .of_cases (fun value rest ch form => ?_) fun bytes ch => ?_
  · obtain ⟨filled,bounded⟩ := form
    have length := rbU16_be16 value.length (value ++ rest) bounded
    have shape : (vector16 1).encode value ++ rest =
        be16 value.length ++ (value ++ rest) := append_assoc ..
    have present : ¬ value.length = 0 := by omega
    unfold readCookie
    simp only [shape,length,rbBytes_append,if_neg present,Option.elim_none]
  · rcases vector16_cases bytes with ⟨value,rest,short,rfl,length,read⟩ | ⟨after,few⟩
    · by_cases empty : value.length = 0
      · right
        simp only [readCookie,length,read,if_pos empty]
      · exact .inl ⟨value,rest,⟨Nat.pos_of_ne_zero empty,short⟩,(append_assoc ..).symm⟩
    · simp [readCookie,few]

def modesKept (modes : Bytes) : List Nat :=
  (modes.map UInt8.toNat).filter fun mode => mode == pskKe || mode == pskDheKe

theorem readPskModes_spec :
    ValueSpec readPskModes (vector8 1) (fun _ => none)
      (fun modes ch => { ch with pskModes := modesKept modes }) := by
  refine .of_cases (fun modes rest ch form => ?_) fun bytes ch => ?_
  · obtain ⟨filled,short⟩ := form
    change readPskModes ⟨byte modes.length :: (modes ++ rest),false⟩ ch = _
    unfold readPskModes
    rw [rbU8_vector8 short]
    dsimp only
    rw [if_neg,rbOctets_append]
    · rfl
    · simp only [Bool.false_or,Bool.or_eq_true,decide_eq_true_eq,beq_iff_eq]
      rw [rbLeft_live,length_append]
      omega
  · rcases rbU8_cases bytes with ⟨octet,tail,rfl,read⟩ | ⟨_,failed⟩
    · rcases rbBytes_cases octet.toNat tail with ⟨modes,rest,counted,rfl,-⟩ | ⟨short,-⟩
      · by_cases empty : octet.toNat = 0
        · simp [readPskModes,empty]
        · refine .inl ⟨modes,rest,⟨by omega,by rw [counted]; exact octet.toNat_lt⟩,?_⟩
          change _ = byte modes.length :: (modes ++ rest)
          rw [counted,byte_of_toNat]
      · simp [readPskModes,short]
    · simp [readPskModes,failed]

/-! ### Pre-shared keys -/

/-- What `read_psk_identities` notes before it walks the list. -/
def noteIdentities (e : Rbuf) (ch : ClientHello) : ClientHello :=
  { ch with pskIdentities := (rbU16 e).2.rest.take (rbU16 e).1 }

def noteBinders (e : Rbuf) (ch : ClientHello) : ClientHello :=
  { ch with pskBinders := (rbU16 e).2.rest.take (rbU16 e).1 }

theorem readPskIdentities_of_ok {e next : Rbuf} {ch after : ClientHello}
    (returned : list16Body 7 identityEntry e (noteIdentities e ch) = (.ok next, after)) :
    readPskIdentities e ch = (.ok ((rbU16 e).1, next), after) := by
  unfold list16Body at returned
  unfold readPskIdentities
  dsimp only at returned ⊢
  split at returned
  · cases returned
  · rename_i fits
    rw [if_neg fits]
    exact bind_of_ok returned

theorem readPskIdentities_of_error {e : Rbuf} {ch : ClientHello} {alert : Nat}
    (stopped : (list16Body 7 identityEntry e (noteIdentities e ch)).1 = .error alert) :
    (readPskIdentities e ch).1 = .error alert := by
  unfold list16Body at stopped
  unfold readPskIdentities
  dsimp only at stopped ⊢
  split at stopped
  · rename_i malformed
    cases stopped
    rw [if_pos malformed]
    rfl
  · rename_i fits
    rw [if_neg fits]
    rcases ran : rbEntries identityEntry (rbU16 e).1 (rbU16 e).1 0 (rbU16 e).2
      (noteIdentities e ch) with ⟨result,after⟩
    rw [ran] at stopped
    cases stopped
    exact congrArg Prod.fst (bind_of_error ran)

theorem readPreSharedKey_of_ok {dataOff : Nat} {e next : Rbuf} {ch after : ClientHello}
    (returned : list16Body 7 identityEntry e (noteIdentities e ch) = (.ok next, after)) :
    readPreSharedKey dataOff e ch =
      readPskBinders next { after with truncatedLen := dataOff + 2 + (rbU16 e).1 } :=
  bind_of_ok (readPskIdentities_of_ok returned)

theorem readPreSharedKey_of_error {dataOff : Nat} {e : Rbuf} {ch : ClientHello} {alert : Nat}
    (stopped : (list16Body 7 identityEntry e (noteIdentities e ch)).1 = .error alert) :
    (readPreSharedKey dataOff e ch).1 = .error alert := by
  have refused := readPskIdentities_of_error stopped
  rcases ran : readPskIdentities e ch with ⟨result,after⟩
  rw [ran] at refused
  cases refused
  exact congrArg Prod.fst (bind_of_error ran)

theorem readPskBinders_of_ok {e next : Rbuf} {ch after : ClientHello}
    (returned : list16Body 33 binderEntry e (noteBinders e ch) = (.ok next, after)) :
    readPskBinders e ch = (.ok next, after) := by
  unfold list16Body at returned
  unfold readPskBinders
  dsimp only at returned ⊢
  split at returned
  · cases returned
  · rename_i fits
    rw [if_neg fits]
    exact returned

theorem readPskBinders_of_error {e : Rbuf} {ch : ClientHello} {alert : Nat}
    (stopped : (list16Body 33 binderEntry e (noteBinders e ch)).1 = .error alert) :
    (readPskBinders e ch).1 = .error alert := by
  unfold list16Body at stopped
  unfold readPskBinders
  dsimp only at stopped ⊢
  split at stopped
  · rename_i malformed
    cases stopped
    rw [if_pos malformed]
    rfl
  · rename_i fits
    rw [if_neg fits]
    exact stopped

theorem findSome?_none {α : Type} (xs : List α) :
    xs.findSome? (fun _ => (none : Option Nat)) = none := by
  simp

/-- What `read_pre_shared_key` keeps, with the body at `dataOff`. -/
def psksKept (dataOff : Nat) (psks : List (Bytes × Bytes) × List Bytes) (ch : ClientHello) :
    ClientHello :=
  { ch with
    pskIdentities := identityFormat.encodeAll psks.1
    truncatedLen := dataOff + 2 + (identityFormat.encodeAll psks.1).length
    pskBinders := (vector8 32).encodeAll psks.2 }

theorem readPreSharedKey_spec (dataOff : Nat) :
    ValueSpec (readPreSharedKey dataOff) offeredPsksFormat (fun _ => none) (psksKept dataOff) := by
  have identitySpec := list16Body_spec identityEntry_spec 7
  have binderSpec := list16Body_spec binderEntry_spec 33
  refine .of_cases (fun psks rest ch form => ?_) fun bytes ch => ?_
  · obtain ⟨identities,binders⟩ := psks
    obtain ⟨identitiesForm,bindersForm⟩ := form
    have shape : offeredPsksFormat.encode (identities, binders) ++ rest =
        (identityFormat.list16 7).encode identities ++
          (((vector8 32).list16 33).encode binders ++ rest) := append_assoc ..
    have walked := identitySpec.takes identities (((vector8 32).list16 33).encode binders ++ rest)
    have noted := rbU16_list16 identitiesForm (((vector8 32).list16 33).encode binders ++ rest)
    have bound := binderSpec.takes binders rest
    have notedBinders := rbU16_list16 bindersForm rest
    rw [shape,readPreSharedKey_of_ok (walked _ identitiesForm (findSome?_none _)),
      readPskBinders_of_ok (bound _ bindersForm (findSome?_none _))]
    simp only [foldl_fixed,noteIdentities,noteBinders,noted,notedBinders,take_left,psksKept,
      Option.elim_none]
  · rcases walked : list16Body 7 identityEntry ⟨bytes,false⟩ (noteIdentities ⟨bytes,false⟩ ch) with
      ⟨reason | middle,after⟩
    · right
      rw [readPreSharedKey_of_error (congrArg Prod.fst walked)]
      rcases identitySpec.refused _ _ _ (congrArg Prod.fst walked) with
        rfl | ⟨_,_,_,_,_,_,judged,_⟩
      · rfl
      · cases judged
    rw [readPreSharedKey_of_ok walked]
    have live := list16Body_live identityEntry_spec walked
    obtain ⟨identities,identitiesForm,_,rfl⟩ :=
      identitySpec.taken _ _ middle (congrArg Prod.fst walked) live
    rcases middle with ⟨left,err⟩
    cases live
    generalize { after with truncatedLen := _ } = state
    rcases bound : list16Body 33 binderEntry ⟨left,false⟩ (noteBinders ⟨left,false⟩ state) with
      ⟨reason | last,final⟩
    · right
      rw [readPskBinders_of_error (congrArg Prod.fst bound)]
      rcases binderSpec.refused _ _ _ (congrArg Prod.fst bound) with
        rfl | ⟨_,_,_,_,_,_,judged,_⟩
      · rfl
      · cases judged
    · obtain ⟨binders,bindersForm,_,rfl⟩ := binderSpec.taken _ _ last (congrArg Prod.fst bound)
        (list16Body_live binderEntry_spec bound)
      exact .inl ⟨(identities, binders),last.rest,⟨identitiesForm,bindersForm⟩,
        (append_assoc ..).symm⟩

/-! ### Every extension -/

/-- What the parser keeps of an extension whose body starts at `dataOff`. -/
def HelloExt.keep (b : Build) (offered : List Bytes) (dataOff : Nat) :
    HelloExt → ClientHello → ClientHello
  | serverName name, ch => { ch with serverName := some name }
  | supportedGroups groups, ch => { ch with groups := groups.filter (srvGroupKnown b) }
  | signatureAlgorithms schemes, ch => { ch with sigalgs := schemes.filter (srvSigalgKnown b) }
  | alpn names, ch => names.foldl (fun ch name => alpnOffered offered name ch) ch
  | recordSizeLimit limit, ch => { ch with recordSizeLimit := limit - 1 }
  | preSharedKey identities binders, ch => psksKept dataOff (identities, binders) ch
  | supportedVersions _, ch => ch
  | cookie value, ch => { ch with cookie := some value }
  | pskModes modes, ch => { ch with pskModes := modesKept modes }
  | keyShare shares, ch => shares.foldl (fun ch share => shareKeep b share ch) ch
  | earlyData, ch => ch
  | padding _, ch => ch
  | transportParams params, ch => { ch with transportParams := some params }
  | other _ _, ch => ch

/-- A body that a rule other than the syntax refuses, with the alert of the rule:
a record limit below the least one, a list of versions without this one, transport
parameters where the transport is not QUIC, a share of another length than its
group's.  What follows the value in the body is not looked at. -/
inductive HelloExt.Judged (b : Build) : Nat → Bytes → Nat → Prop
  | value {ext : HelloExt} {alert : Nat} (rest : Bytes) (form : ext.Form)
      (judgment : ext.judge b = some alert) : Judged b ext.type (ext.data ++ rest) alert
  | share {data : Bytes} {alert : Nat}
      (wrong : JudgedEntry shareFormat (HelloExt.shareJudge b) 0 data alert) :
      Judged b extKeyShare data alert

/-- A body that an extension may not have.  The syntax is at fault where no rule
refuses the body before its end is looked for. -/
inductive HelloExt.Breaks (b : Build) (type : Nat) (data : Bytes) : Nat → Prop
  | judged {alert : Nat} (judged : Judged b type data alert) : Breaks b type data alert
  | malformed (unjudged : ∀ alert, ¬ Judged b type data alert)
      (unspelled : ∀ ext : HelloExt, ext.type = type → ext.Form → ext.data ≠ data) :
      Breaks b type data decodeError

/-- An extension that is not allowed breaks a rule. -/
theorem HelloExt.breaks_of_wrong {b : Build} {type : Nat} {data : Bytes}
    (wrong : ∀ ext : HelloExt, ext.type = type → ext.data = data → ext.Form → ext.judge b ≠ none) :
    ∃ alert, Breaks b type data alert := by
  by_cases judged : ∃ alert, Judged b type data alert
  · obtain ⟨alert,judged⟩ := judged
    exact ⟨alert,.judged judged⟩
  · refine ⟨decodeError,.malformed (not_exists.mp judged) ?_⟩
    rintro ext rfl form rfl
    obtain ⟨alert,judgment⟩ := Option.ne_none_iff_exists'.mp (wrong ext rfl rfl form)
    have value := Judged.value [] form judgment
    rw [append_nil] at value
    exact judged ⟨alert,value⟩

namespace BodySpec

variable {α : Type} {read : Rbuf → HelloParse Rbuf} {f : Format α} {judge : α → Option Nat}
  {keep : α → ClientHello → ClientHello} {bad : Bytes → Nat → Prop}

theorem takes_whole (spec : BodySpec read f judge keep bad) {x : α} (form : f.Form x)
    (allowed : judge x = none) (ch : ClientHello) :
    read (rbInit (f.encode x)) ch = (.ok ⟨[],false⟩, keep x ch) := by
  have whole := spec.takes x [] ch form allowed
  rw [append_nil] at whole
  exact whole

theorem taken_whole (spec : BodySpec read f judge keep bad) {data : Bytes} {ch : ClientHello}
    {next : Rbuf} (returned : (read (rbInit data) ch).1 = .ok next) (live : next.err = false)
    (filled : rbLeft next = 0) : ∃ x, f.Form x ∧ judge x = none ∧ f.encode x = data := by
  obtain ⟨x,formed,allowed,spelled⟩ := spec.taken data ch next returned live
  have ended : next.rest = [] := by
    rw [rbLeft,live] at filled
    exact length_eq_zero_iff.mp filled
  rw [ended,append_nil] at spelled
  exact ⟨x,formed,allowed,spelled.symm⟩

end BodySpec

section Readers

variable {b : Build} {offered : List Bytes} {dataOff : Nat}

/-- A well-formed extension that is not judged is read to its end and kept. -/
theorem srvReadExtension_takes {ext : HelloExt} (form : ext.Form)
    (known : srvExtKnown ext.type = true) (allowed : ext.judge b = none) (ch : ClientHello) :
    srvReadExtension b offered ext.type dataOff (rbInit ext.data) ch =
      (.ok ⟨[],false⟩, ext.keep b offered dataOff ch) := by
  cases ext with
  | serverName name => exact readServerName_spec.takes_whole form rfl ch
  | supportedGroups groups => exact (readSupportedGroups_spec b).takes_whole form rfl ch
  | signatureAlgorithms schemes => exact (readSignatureAlgorithms_spec b).takes_whole form rfl ch
  | alpn names => exact (readAlpn_spec offered).takes_whole form (findSome?_none names) ch
  | recordSizeLimit limit => exact readRecordSizeLimit_spec.takes_whole form allowed ch
  | preSharedKey identities binders =>
    exact (readPreSharedKey_spec dataOff).takes_whole form rfl ch
  | supportedVersions versions => exact readSupportedVersions_spec.takes_whole form allowed ch
  | cookie value => exact readCookie_spec.takes_whole form rfl ch
  | pskModes modes => exact readPskModes_spec.takes_whole form rfl ch
  | keyShare shares => exact (readKeyShare_spec b).takes_whole form allowed ch
  | earlyData => rfl
  | padding bytes => rfl
  | transportParams params =>
    change readTransportParams b (rbInit params) ch = _
    change (if b.quic then none else some unsupportedExtension) = none at allowed
    unfold readTransportParams
    split at allowed
    · rename_i quic
      rw [if_pos quic]
      rfl
    · cases allowed
  | other type data =>
    have unknown : srvExtKnown type = false := form
    exact absurd known (by simp [HelloExt.type,unknown])

theorem JudgedEntry.of_list {α : Type} {f : Format α} {judge : α → Option Nat} {least : Nat}
    {xs : List α} {alert : Nat} (form : (f.list16 least).Form xs)
    (judgment : xs.findSome? judge = some alert) (filled : ∀ x, f.Form x → 0 < (f.encode x).length)
    (rest : Bytes) : JudgedEntry f judge least ((f.list16 least).encode xs ++ rest) alert := by
  obtain ⟨formed,enough,bounded⟩ := form
  obtain ⟨before,x,after,rfl,judged,passed⟩ := findSome?_eq_some_iff.mp judgment
  have own := filled x (formed x (by simp))
  have shape : f.encodeAll (before ++ x :: after) =
      f.encodeAll before ++ (f.encode x ++ f.encodeAll after) := by
    simp [encodeAll]
  have length := congrArg length shape
  simp only [length_append] at length
  refine ⟨_,before,x,f.encodeAll after ++ rest,fun y among => ⟨formed y (by simp [among]),
    passed y among⟩,formed x (by simp),judged,enough,bounded,?_,by omega,?_⟩
  · simp only [length_append]
    omega
  · change be16 _ ++ f.encodeAll _ ++ rest = _
    rw [shape]
    simp

theorem srvReadExtension_judged {type alert : Nat} {data : Bytes}
    (judged : HelloExt.Judged b type data alert) (ch : ClientHello) :
    (srvReadExtension b offered type dataOff (rbInit data) ch).1 = .error alert := by
  cases judged with
  | share wrong => exact (readKeyShare_spec b).broken _ ch alert wrong
  | @value ext _ rest form judgment =>
    cases ext with
    | recordSizeLimit limit =>
      exact readRecordSizeLimit_spec.broken _ ch alert ⟨limit,rest,form,judgment,rfl⟩
    | supportedVersions versions =>
      exact readSupportedVersions_spec.broken _ ch alert ⟨versions,rest,form,judgment,rfl⟩
    | keyShare shares =>
      exact (readKeyShare_spec b).broken _ ch alert
        (.of_list form judgment (shareEntry_spec b).filled rest)
    | transportParams params =>
      change (readTransportParams b (rbInit (params ++ rest)) ch).1 = _
      obtain ⟨records,same⟩ := Option.ite_none_left_eq_some.mp judgment
      cases same
      unfold readTransportParams
      rw [if_neg records]
    | _ => cases judgment

theorem srvExtKnown_cases {type : Nat} (known : srvExtKnown type = true) :
    type = extServerName ∨ type = extSupportedGroups ∨ type = extSignatureAlgorithms ∨
      type = extAlpn ∨ type = extRecordSizeLimit ∨ type = extPreSharedKey ∨
      type = extSupportedVersions ∨ type = extCookie ∨ type = extPskModes ∨ type = extKeyShare ∨
      type = extEarlyData ∨ type = extPadding ∨ type = extQuicTransportParams := by
  unfold srvExtKnown at known
  rw [contains_iff_mem] at known
  simpa using known

/-- An extension read to its end is well formed and not judged. -/
theorem srvReadExtension_taken {type : Nat} (known : srvExtKnown type = true) {data : Bytes}
    {ch : ClientHello} {next : Rbuf}
    (returned : (srvReadExtension b offered type dataOff (rbInit data) ch).1 = .ok next)
    (live : next.err = false) (filled : rbLeft next = 0) :
    ∃ ext : HelloExt, ext.type = type ∧ ext.Form ∧ ext.judge b = none ∧ ext.data = data := by
  rcases srvExtKnown_cases known with rfl | rfl | rfl | rfl | rfl | rfl | rfl | rfl | rfl | rfl |
    rfl | rfl | rfl
  · obtain ⟨name,formed,_,rfl⟩ := readServerName_spec.taken_whole returned live filled
    exact ⟨.serverName name,rfl,formed,rfl,rfl⟩
  · obtain ⟨groups,formed,_,rfl⟩ := (readSupportedGroups_spec b).taken_whole returned live filled
    exact ⟨.supportedGroups groups,rfl,formed,rfl,rfl⟩
  · obtain ⟨schemes,formed,_,rfl⟩ :=
      (readSignatureAlgorithms_spec b).taken_whole returned live filled
    exact ⟨.signatureAlgorithms schemes,rfl,formed,rfl,rfl⟩
  · obtain ⟨names,formed,_,rfl⟩ := (readAlpn_spec offered).taken_whole returned live filled
    exact ⟨.alpn names,rfl,formed,rfl,rfl⟩
  · obtain ⟨limit,formed,allowed,rfl⟩ :=
      readRecordSizeLimit_spec.taken_whole returned live filled
    exact ⟨.recordSizeLimit limit,rfl,formed,allowed,rfl⟩
  · obtain ⟨⟨identities,binders⟩,formed,_,rfl⟩ :=
      (readPreSharedKey_spec dataOff).taken_whole returned live filled
    exact ⟨.preSharedKey identities binders,rfl,formed,rfl,rfl⟩
  · obtain ⟨versions,formed,allowed,rfl⟩ :=
      readSupportedVersions_spec.taken_whole returned live filled
    exact ⟨.supportedVersions versions,rfl,formed,allowed,rfl⟩
  · obtain ⟨value,formed,_,rfl⟩ := readCookie_spec.taken_whole returned live filled
    exact ⟨.cookie value,rfl,formed,rfl,rfl⟩
  · obtain ⟨modes,formed,_,rfl⟩ := readPskModes_spec.taken_whole returned live filled
    exact ⟨.pskModes modes,rfl,formed,rfl,rfl⟩
  · obtain ⟨shares,formed,allowed,rfl⟩ := (readKeyShare_spec b).taken_whole returned live filled
    exact ⟨.keyShare shares,rfl,formed,allowed,rfl⟩
  · change Except.ok (rbInit data) = Except.ok next at returned
    cases returned
    exact ⟨.earlyData,rfl,trivial,rfl,(length_eq_zero_iff.mp filled).symm⟩
  · exact ⟨.padding data,rfl,trivial,rfl,rfl⟩
  · change (readTransportParams b (rbInit data) ch).1 = .ok next at returned
    unfold readTransportParams at returned
    split at returned
    · rename_i quic
      exact ⟨.transportParams data,rfl,trivial,if_pos quic,rfl⟩
    · cases returned

theorem JudgedBody.unruled {α : Type} {f : Format α} {data : Bytes} {alert : Nat} {p : Prop}
    (judged : JudgedBody f (fun _ => none) data alert) : p := by
  obtain ⟨_,_,_,judgment,_⟩ := judged
  cases judgment

/-- A known extension is refused as malformed or by its own rule. -/
theorem srvReadExtension_refused {type : Nat} (known : srvExtKnown type = true) {data : Bytes}
    {ch : ClientHello} {alert : Nat}
    (stopped : (srvReadExtension b offered type dataOff (rbInit data) ch).1 = .error alert) :
    alert = decodeError ∨ HelloExt.Judged b type data alert := by
  rcases srvExtKnown_cases known with rfl | rfl | rfl | rfl | rfl | rfl | rfl | rfl | rfl | rfl |
    rfl | rfl | rfl
  · exact (readServerName_spec.refused data ch alert stopped).imp_right JudgedBody.unruled
  · exact ((readSupportedGroups_spec b).refused data ch alert stopped).imp_right JudgedBody.unruled
  · exact ((readSignatureAlgorithms_spec b).refused data ch alert stopped).imp_right
      JudgedBody.unruled
  · rcases (readAlpn_spec offered).refused data ch alert stopped with
      malformed | ⟨_,_,_,_,_,_,judged,_⟩
    · exact .inl malformed
    · cases judged
  · refine (readRecordSizeLimit_spec.refused data ch alert stopped).imp_right ?_
    rintro ⟨limit,rest,form,judgment,rfl⟩
    exact @HelloExt.Judged.value b (.recordSizeLimit limit) _ rest form judgment
  · exact ((readPreSharedKey_spec dataOff).refused data ch alert stopped).imp_right
      JudgedBody.unruled
  · refine (readSupportedVersions_spec.refused data ch alert stopped).imp_right ?_
    rintro ⟨versions,rest,form,judgment,rfl⟩
    exact @HelloExt.Judged.value b (.supportedVersions versions) _ rest form judgment
  · exact (readCookie_spec.refused data ch alert stopped).imp_right JudgedBody.unruled
  · exact (readPskModes_spec.refused data ch alert stopped).imp_right JudgedBody.unruled
  · exact ((readKeyShare_spec b).refused data ch alert stopped).imp_right .share
  · cases stopped
  · cases stopped
  · change (readTransportParams b (rbInit data) ch).1 = .error alert at stopped
    unfold readTransportParams at stopped
    split at stopped
    · cases stopped
    · rename_i records
      cases stopped
      have value := @HelloExt.Judged.value b (.transportParams data) _ [] trivial (if_neg records)
      rw [append_nil] at value
      exact .inr value

end Readers

end Chapulin
