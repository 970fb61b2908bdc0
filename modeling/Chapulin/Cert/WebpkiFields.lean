/-
The fields of a web PKI certificate, each with its reader: dates
(`webpki_time.c`), host names (`webpki_name.c`), public keys (`webpki_spki.c`) and
signature algorithms (`webpki_sigalg.c`).
-/

import Chapulin.Cert.Judge
import Chapulin.Config
import Mathlib.Data.List.TakeWhile

namespace Chapulin

open Lib Lib.Der List

variable {host label left name rest right : Bytes} {d : UInt8}

/-! ### Dates -/

structure CivilTime where
  year : Nat
  month : Nat
  day : Nat
  hour : Nat
  minute : Nat
  second : Nat
  deriving DecidableEq, Repr

namespace CivilTime

def pack (t : CivilTime) : Nat :=
  t.year * 10000000000 + t.month * 100000000 + t.day * 1000000 + t.hour * 10000 + t.minute * 100 +
    t.second

def monthDays : List Nat := [0,31,28,31,30,31,30,31,31,30,31,30,31]

def fieldsInRange (t : CivilTime) (leap : Bool) : Bool :=
  let days := if t.month == 2 && leap then 29 else monthDays.getD t.month 0
  decide (1 ≤ t.month) && decide (t.month ≤ 12) && decide (1 ≤ t.day) && decide (t.day ≤ days) &&
    decide (t.hour ≤ 23) && decide (t.minute ≤ 59) && decide (t.second ≤ 59)

end CivilTime

/-- `read_pair` at an offset: one two-digit decimal field. -/
def readPair (c : Bytes) (offset : Nat) : Option Nat :=
  let hi := timeDigit (c.getD offset 0)
  let lo := timeDigit (c.getD (offset + 1) 0)
  if hi > 9 ∨ lo > 9 then none else some (hi * 10 + lo)

def readYear (c : Bytes) : Option (Nat × Nat) :=
  if c.length = 13 then do
    let low ← readPair c 0
    pure (if low ≥ 50 then 19 else 20, low)
  else do
    let century ← readPair c 0
    let low ← readPair c 2
    if century * 100 + low ≥ 2050 then pure (century, low) else none

def isLeapYear (century low : Nat) : Bool :=
  if low ≠ 0 then low % 4 == 0 else century % 4 == 0

/-- `read_body`: the year, the five clock fields of `read_clock`, the closing `Z`. -/
def readTimeBody (c : Bytes) : Option CivilTime := do
  let (century, low) ← readYear c
  let start := if c.length = 13 then 2 else 4
  let month ← readPair c start
  let day ← readPair c (start + 2)
  let hour ← readPair c (start + 4)
  let minute ← readPair c (start + 6)
  let second ← readPair c (start + 8)
  if c.getD (c.length - 1) 0 ≠ 0x5a then none
  else
    let t : CivilTime := ⟨century * 100 + low,month,day,hour,minute,second⟩
    if t.fieldsInRange (isLeapYear century low) then some t else none

def webpkiReadTime : DerReader Nat := do
  let tag ← rbOctet
  let want := if tag = 0x17 then 13 else if tag = 0x18 then 15 else 0
  if want = 0 then failure
  else
    let len ← x509ReadLen
    if len ≠ want then failure
    else
      let c ← rbTake want
      let t ← (readTimeBody c : DerReader CivilTime)
      pure t.pack

/-- `civil_from_days`; the clock fields are the caller's. -/
def civilFromDays (days secondOfDay : Nat) : CivilTime :=
  let daysSinceMarch0000 := days + 719468
  let era := daysSinceMarch0000 / 146097
  let dayOfEra := daysSinceMarch0000 - era * 146097
  let yearOfEra :=
    (dayOfEra - dayOfEra / 1460 + dayOfEra / 36524 - dayOfEra / 146096) / 365
  let dayOfYear := dayOfEra - (365 * yearOfEra + yearOfEra / 4 - yearOfEra / 100)
  let monthFromMarch := (5 * dayOfYear + 2) / 153
  let month := if monthFromMarch < 10 then monthFromMarch + 3 else monthFromMarch - 9
  let hour := secondOfDay / 3600
  let secondOfHour := secondOfDay - hour * 3600
  let minute := secondOfHour / 60
  { year := yearOfEra + era * 400 + if month ≤ 2 then 1 else 0
    month := month
    day := dayOfYear - (153 * monthFromMarch + 2) / 5 + 1
    hour := hour
    minute := minute
    second := secondOfHour - minute * 60 }

def secondsMax : Nat := 253402300799

/-- A clock past `secondsMax` packs as that instant. -/
def webpkiPackSeconds (nowSeconds : Nat) : Nat :=
  let seconds := min nowSeconds secondsMax
  (civilFromDays (seconds / 86400) (seconds % 86400)).pack

/-! ### Host names -/

/-- `names_equal` of `webpki_name.c`, on names of one length. -/
def hostNamesEqual (a b : Bytes) : Bool := a.map asciiLower == b.map asciiLower

def firstLabelLen (name : Bytes) : Nat := (name.takeWhile (· != 0x2e)).length

def matchWildcard (suffix host : Bytes) : Bool :=
  let first := firstLabelLen host
  if first = host.length then false
  else
    let rest := host.drop (first + 1)
    if rest.length ≠ suffix.length || !hostNamesEqual suffix rest then false
    else firstLabelLen rest != rest.length

def matchDnsName (name host : Bytes) : Bool :=
  if decide (2 ≤ name.length) && name.getD 0 0 == 0x2a && name.getD 1 0 == 0x2e then
    matchWildcard (name.drop 2) host
  else name.length == host.length && hostNamesEqual name host

def tagDnsName : Nat := 0x82

def generalNameTags : List Nat := [0xa0,0x81,tagDnsName,0xa3,0xa4,0xa5,0x86,0x87,0x88]

def isGeneralNameTag (tag : Nat) : Bool := tag ∈ generalNameTags

/-- `read_entry` of `webpki_name.c`: whether the entry is a name of the host. -/
def readGeneralName (host : Bytes) : DerReader Bool := do
  let tag ← rbOctet
  if !isGeneralNameTag tag then failure
  else
    let len ← x509ReadLen
    let content ← rbTake len
    pure (tag == tagDnsName && matchDnsName content host)

def webpkiMatchSan (san host : Bytes) : Bool :=
  let found := readWhole (do
    readFilling 0x30
    readMany (readGeneralName host)) san
  match found with
  | none => false
  | some found => found.any id

/-- A name of a certificate stands for a host: the same name up to case, or a wildcard
for exactly the first of at least three labels. -/
inductive NamesHost (host : Bytes) : Bytes → Prop where
  | exact {name : Bytes} : ¬ [0x2a,0x2e] <+: name → name.map asciiLower = host.map asciiLower →
      NamesHost host name
  | wildcard {suffix label rest : Bytes} : host = label ++ 0x2e :: rest → 0x2e ∉ label →
      suffix.map asciiLower = rest.map asciiLower → 0x2e ∈ rest →
      NamesHost host (0x2a :: 0x2e :: suffix)

theorem firstLabelLen_eq_length : firstLabelLen name = name.length ↔ 0x2e ∉ name := by
  rw [firstLabelLen]
  constructor
  · intro whole inside
    have front : name.takeWhile (· != 0x2e) <+: name := takeWhile_prefix _
    have all := front.eq_of_length whole
    have passed := takeWhile_eq_self_iff.mp all _ inside
    cases passed
  · intro outside
    rw [takeWhile_eq_self_iff.mpr]
    intro octet inside
    simp only [bne_iff_ne,ne_eq]
    exact fun dot => outside (dot ▸ inside)

theorem firstLabelLen_append (outside : 0x2e ∉ label) :
    firstLabelLen (label ++ 0x2e :: rest) = label.length := by
  have all : ∀ octet ∈ label, (octet != 0x2e) = true := by
    intro octet inside
    simp only [bne_iff_ne,ne_eq]
    exact fun dot => outside (dot ▸ inside)
  rw [firstLabelLen,takeWhile_append_of_pos all]
  simp

theorem matchWildcard_append {suffix : Bytes} (outside : 0x2e ∉ label) :
    matchWildcard suffix (label ++ 0x2e :: rest) = true ↔
      suffix.map asciiLower = rest.map asciiLower ∧ 0x2e ∈ rest := by
  have more : ¬ label.length = (label ++ 0x2e :: rest).length := by
    simp
  have behind : (label ++ 0x2e :: rest).drop (label.length + 1) = rest := by
    simp
  have unfolded : matchWildcard suffix (label ++ 0x2e :: rest) =
      if rest.length ≠ suffix.length || !hostNamesEqual suffix rest then false
      else firstLabelLen rest != rest.length := by
    rw [matchWildcard,firstLabelLen_append outside,if_neg more,behind]
  rw [unfolded]
  by_cases same : suffix.map asciiLower = rest.map asciiLower
  · have length : rest.length = suffix.length := by
      have lengths := congrArg List.length same
      rw [length_map,length_map] at lengths
      exact lengths.symm
    have dotted : (firstLabelLen rest != rest.length) = true ↔ 0x2e ∈ rest := by
      rw [bne_iff_ne,ne_eq,firstLabelLen_eq_length,not_not]
    have kept : ¬ (decide (rest.length ≠ suffix.length) || !hostNamesEqual suffix rest) = true := by
      simp [length,hostNamesEqual,same]
    rw [if_neg kept,dotted]
    exact ⟨fun inside => ⟨same,inside⟩,And.right⟩
  · simp [hostNamesEqual,same]

theorem matchWildcard_iff {suffix : Bytes} :
    matchWildcard suffix host = true ↔ ∃ label rest, host = label ++ 0x2e :: rest ∧ 0x2e ∉ label ∧
      suffix.map asciiLower = rest.map asciiLower ∧ 0x2e ∈ rest := by
  constructor
  · intro matched
    by_cases dotted : 0x2e ∈ host
    · obtain ⟨label,rest,rfl,outside⟩ := eq_append_cons_of_mem dotted
      exact ⟨label,rest,rfl,outside,(matchWildcard_append outside).mp matched⟩
    · rw [matchWildcard,if_pos (firstLabelLen_eq_length.mpr dotted)] at matched
      cases matched
  · rintro ⟨label,rest,rfl,outside,matched⟩
    exact (matchWildcard_append outside).mpr matched

theorem isWildcard_iff :
    (decide (2 ≤ name.length) && name.getD 0 0 == 0x2a && name.getD 1 0 == 0x2e) = true ↔
      ∃ suffix, name = 0x2a :: 0x2e :: suffix := by
  rcases name with _ | ⟨first,_ | ⟨second,suffix⟩⟩
  · simp
  · simp
  · simp [and_comm]

theorem matchDnsName_iff : matchDnsName name host = true ↔ NamesHost host name := by
  by_cases wildcard : ∃ suffix, name = 0x2a :: 0x2e :: suffix
  · rw [matchDnsName,if_pos (isWildcard_iff.mpr wildcard)]
    obtain ⟨suffix,rfl⟩ := wildcard
    rw [show (0x2a :: 0x2e :: suffix : Bytes).drop 2 = suffix from rfl,matchWildcard_iff]
    constructor
    · rintro ⟨label,rest,spelled,outside,same,dotted⟩
      exact .wildcard spelled outside same dotted
    · intro names
      cases names with
      | exact plain _ => exact absurd ⟨suffix,rfl⟩ plain
      | wildcard spelled outside same dotted => exact ⟨_,_,spelled,outside,same,dotted⟩
  · rw [matchDnsName,if_neg (mt isWildcard_iff.mp wildcard),Bool.and_eq_true,hostNamesEqual,
      beq_iff_eq,beq_iff_eq]
    constructor
    · rintro ⟨-,same⟩
      refine .exact ?_ same
      rintro ⟨suffix,spelled⟩
      exact wildcard ⟨suffix,spelled.symm⟩
    · intro names
      cases names with
      | exact _ same =>
        have lengths := congrArg List.length same
        rw [length_map,length_map] at lengths
        exact ⟨lengths,same⟩
      | wildcard _ _ _ _ => exact absurd ⟨_,rfl⟩ wildcard

/-- A GeneralNames value, its entries well formed, one of which names the host. -/
def SanNames (san host : Bytes) : Prop :=
  ∃ names : List (UInt8 × Bytes), (∀ name ∈ names, name.1.toNat ∈ generalNameTags) ∧
    san = tlv 0x30 (names.flatMap fun name => tlv name.1 name.2) ∧
    (names.flatMap fun name => tlv name.1 name.2).length < 65536 ∧
    ∃ name ∈ names, name.1.toNat = tagDnsName ∧ NamesHost host name.2

theorem reads_generalName (host : Bytes) :
    Reads (readGeneralName host) (fun found front => ∃ (tag : UInt8) (content : Bytes),
      tag.toNat ∈ generalNameTags ∧ content.length < 65536 ∧ front = tlv tag content ∧
        found = (tag.toNat == tagDnsName && matchDnsName content host)) := by
  have body (tag n : Nat) : Reads (do
      let content ← rbTake n
      pure (tag == tagDnsName && matchDnsName content host)) (fun found front =>
        ∃ content right, content.length = n ∧
          (found = (tag == tagDnsName && matchDnsName content host) ∧ right = []) ∧
          front = content ++ right) :=
    reads_takeMap n _
  have reads : Reads (readGeneralName host) _ := @reads_octet Bool _ (fun tag found front => _)
    (fun tag => Reads.refuse fun _ => reads_length (body tag)) (fun _ => rfl)
  refine reads.congr fun found front => ?_
  simp only [isGeneralNameTag,Bool.not_eq_true',decide_eq_false_iff_not,not_not]
  constructor
  · rintro ⟨tag,_,⟨known,content,_,small,⟨rfl,rfl⟩,rfl⟩,rfl⟩
    exact ⟨tag,content,known,small,by simp [tlv],rfl⟩
  · rintro ⟨tag,content,known,small,rfl,rfl⟩
    exact ⟨tag,_,⟨known,content,[],small,⟨rfl,rfl⟩,rfl⟩,by simp [tlv]⟩

theorem generalNames_forall₂ {found : List Bool} {fronts : List Bytes} :
    List.Forall₂ (fun found front => ∃ (tag : UInt8) (content : Bytes),
        tag.toNat ∈ generalNameTags ∧ content.length < 65536 ∧ front = tlv tag content ∧
          found = (tag.toNat == tagDnsName && matchDnsName content host)) found fronts ↔
      ∃ names : List (UInt8 × Bytes),
        (∀ name ∈ names, name.1.toNat ∈ generalNameTags ∧ name.2.length < 65536) ∧
        fronts = names.map (fun name => tlv name.1 name.2) ∧
        found = names.map fun name => name.1.toNat == tagDnsName && matchDnsName name.2 host := by
  rw [← forall₂_entries]
  simp only [Prod.exists,and_assoc]

/-- A host matches exactly when a DNS name of the list names it. -/
theorem webpkiMatchSan_iff {san : Bytes} : webpkiMatchSan san host = true ↔ SanNames san host := by
  have progress : ∀ (found : Bool) (front : Bytes), (∃ (tag : UInt8) (content : Bytes),
      tag.toNat ∈ generalNameTags ∧ content.length < 65536 ∧ front = tlv tag content ∧
        found = (tag.toNat == tagDnsName && matchDnsName content host)) → front ≠ [] := by
    rintro _ _ ⟨tag,content,-,-,rfl,-⟩
    exact cons_ne_nil _ _
  have whole := readWhole_many (reads_generalName host) progress
  have read (found : List Bool) : readWhole (do
      readFilling 0x30
      readMany (readGeneralName host)) san = some found ↔ _ := readWhole_behind _ san found
  simp only [whole,generalNames_forall₂] at read
  have named (names : List (UInt8 × Bytes)) :
      (names.map fun name => name.1.toNat == tagDnsName && matchDnsName name.2 host).any id = true ↔
        ∃ name ∈ names, name.1.toNat = tagDnsName ∧ NamesHost host name.2 := by
    simp only [any_map,any_eq_true,Function.comp_apply,id_eq,Bool.and_eq_true,beq_iff_eq,
      matchDnsName_iff]
  constructor
  · intro matched
    rw [webpkiMatchSan] at matched
    split at matched
    · cases matched
    · rename_i found took
      obtain ⟨_,small,⟨_,⟨names,good,rfl,rfl⟩,rfl⟩,rfl⟩ := (read found).mp took
      rw [← flatMap_def] at small ⊢
      exact ⟨names,fun name inside => (good name inside).1,rfl,small,(named names).mp matched⟩
  · rintro ⟨names,known,rfl,small,hosted⟩
    have shorter : ∀ name ∈ names, name.2.length < 65536 := by
      intro name inside
      have longer := tlv_length_lt name.1 name.2
      have inner := (sublist_flatten_of_mem (mem_map_of_mem (f := fun name : UInt8 × Bytes =>
        tlv name.1 name.2) inside)).length_le
      rw [← flatMap_def] at inner
      omega
    have took :=
      (read (names.map fun name => name.1.toNat == tagDnsName && matchDnsName name.2 host)).mpr
      ⟨_,small,⟨_,⟨names,fun name inside => ⟨known name inside,shorter name inside⟩,rfl,rfl⟩,
        flatMap_def ..⟩,rfl⟩
    rw [webpkiMatchSan,took]
    exact (named names).mpr hosted

/-- A presented name of a host as the rules have it: the same name up to case, or a wildcard for
exactly one label in front of a suffix of two labels or more. -/
def MatchesHost (host name : Bytes) : Prop :=
  name.map asciiLower = host.map asciiLower ∨
    ∃ suffix label rest, name = 0x2a :: 0x2e :: suffix ∧ 0x2e ∈ suffix ∧
      host = label ++ 0x2e :: rest ∧ label ≠ [] ∧ 0x2e ∉ label ∧
      suffix.map asciiLower = rest.map asciiLower

theorem asciiLower_eq_iff {c : UInt8} (below : d < 0x41) : asciiLower c = d ↔ c = d := by
  unfold asciiLower
  split
  · rename_i upper
    simp only [Bool.and_eq_true,decide_eq_true_eq,UInt8.le_iff_toNat_le] at upper
    rw [UInt8.lt_iff_toNat_lt] at below
    simp only [UInt8.reduceToNat] at upper below
    constructor
    · rintro rfl
      rw [UInt8.toNat_add] at below
      simp only [UInt8.reduceToNat] at below
      omega
    · rintro rfl
      omega
  · exact Iff.rfl

theorem mem_of_lower_eq (same : left.map asciiLower = right.map asciiLower) (below : d < 0x41)
    (inside : d ∈ left) : d ∈ right := by
  have lowered : asciiLower d = d := (asciiLower_eq_iff below).mpr rfl
  have image : d ∈ right.map asciiLower := by
    rw [← same]
    exact mem_map.mpr ⟨d,inside,lowered⟩
  obtain ⟨c,found,folded⟩ := mem_map.mp image
  rwa [(asciiLower_eq_iff below).mp folded] at found

theorem count_of_lower_eq (same : left.map asciiLower = right.map asciiLower) (below : d < 0x41) :
    left.count d = right.count d := by
  have counted (bytes : Bytes) : (bytes.map asciiLower).count d = bytes.count d := by
    rw [count_eq_countP,countP_map,count_eq_countP]
    congr 1
    funext c
    rw [Function.comp_apply,Bool.eq_iff_iff,beq_iff_eq,beq_iff_eq,asciiLower_eq_iff below]
  rw [← counted left,same,counted right]

structure HostShape (host : Bytes) : Prop where
  noNul : 0x00 ∉ host
  noStar : 0x2a ∉ host
  labels : ∀ label rest, host = label ++ 0x2e :: rest → 0x2e ∉ label → label ≠ []

theorem hostShape_of_ok (admitted : webpkiHostnameOk host = true) : HostShape host := by
  simp only [webpkiHostnameOk,Bool.and_eq_true,all_eq_true] at admitted
  obtain ⟨⟨⟨⟨-,alphabet⟩,labels⟩,-⟩,-⟩ := admitted
  refine ⟨fun inside => ?_,fun inside => ?_,?_⟩
  · exact absurd (alphabet _ inside) (by decide)
  · exact absurd (alphabet _ inside) (by decide)
  · rintro label rest rfl _ rfl
    simp [labelsOk] at labels

theorem namesHost_iff (shape : HostShape host) : NamesHost host name ↔ MatchesHost host name := by
  constructor
  · intro names
    cases names with
    | exact plain same => exact .inl same
    | @wildcard suffix label rest spelled outside same dotted =>
      exact .inr ⟨suffix,label,rest,rfl,mem_of_lower_eq same.symm (by decide) dotted,spelled,
        shape.labels label rest spelled outside,outside,same⟩
  · rintro (same | ⟨suffix,label,rest,rfl,dotted,spelled,-,outside,same⟩)
    · refine .exact ?_ same
      rintro ⟨suffix,rfl⟩
      exact shape.noStar (mem_of_lower_eq same (by decide) mem_cons_self)
    · exact .wildcard spelled outside same (mem_of_lower_eq same (by decide) dotted)

theorem MatchesHost.noNul (shape : HostShape host)
    (found : MatchesHost host name) : 0x00 ∉ name := by
  intro inside
  rcases found with same | ⟨suffix,label,rest,rfl,-,spelled,-,-,same⟩
  · exact shape.noNul (mem_of_lower_eq same (by decide) inside)
  · have behind : (0x00 : UInt8) ∈ suffix := by simpa using inside
    have shorter := mem_of_lower_eq same (by decide) behind
    refine shape.noNul ?_
    rw [spelled]
    exact mem_append_right _ (mem_cons_of_mem _ shorter)

theorem MatchesHost.star (shape : HostShape host)
    (found : MatchesHost host name) (starred : 0x2a ∈ name) :
    ∃ suffix, name = 0x2a :: 0x2e :: suffix ∧ 0x2a ∉ suffix ∧
      host.count 0x2e = suffix.count 0x2e + 1 := by
  rcases found with same | ⟨suffix,label,rest,rfl,-,spelled,-,outside,same⟩
  · exact absurd (mem_of_lower_eq same (by decide) starred) shape.noStar
  · refine ⟨suffix,rfl,fun inside => shape.noStar ?_,?_⟩
    · rw [spelled]
      exact mem_append_right _ (mem_cons_of_mem _ (mem_of_lower_eq same (by decide) inside))
    · rw [spelled,count_append,List.count_eq_zero.mpr outside,count_cons_self,
        count_of_lower_eq same (by decide),Nat.zero_add]

def GeneralNames (names : List (UInt8 × Bytes)) (body : Bytes) : Prop :=
  (∀ name ∈ names, name.1.toNat ∈ generalNameTags) ∧
    body = names.flatMap fun name => tlv name.1 name.2

theorem generalName_unique {tag other : UInt8} {content otherContent : Bytes}
    (known : tag.toNat ∈ generalNameTags) (otherKnown : other.toNat ∈ generalNameTags)
    (small : content.length < 65536) (otherSmall : otherContent.length < 65536)
    (same : tlv tag content ++ left = tlv other otherContent ++ right) : left = right := by
  have first := (reads_generalName [] _ _ ⟨left,false⟩).mpr
    ⟨rfl,_,⟨tag,content,known,small,rfl,rfl⟩,rfl⟩
  have second := (reads_generalName [] _ _ ⟨right,false⟩).mpr
    ⟨rfl,_,⟨other,otherContent,otherKnown,otherSmall,rfl,rfl⟩,rfl⟩
  change readGeneralName [] ⟨tlv tag content ++ left,false⟩ = _ at first
  rw [same] at first
  have agree := (Prod.mk.inj (Option.some.inj (first.symm.trans second))).2
  exact congrArg Rbuf.rest agree

/-- What stands behind good entries of a value that is all good entries starts with one. -/
theorem generalNames_behind {names front : List (UInt8 × Bytes)} {bad : Bytes}
    (known : ∀ name ∈ names, name.1.toNat ∈ generalNameTags)
    (frontKnown : ∀ name ∈ front, name.1.toNat ∈ generalNameTags)
    (short : (names.flatMap fun name => tlv name.1 name.2).length < 65536)
    (same : (names.flatMap fun name => tlv name.1 name.2) =
      (front.flatMap fun name => tlv name.1 name.2) ++ bad) :
    bad = [] ∨ ∃ (tag : UInt8) (content rest : Bytes), tag.toNat ∈ generalNameTags ∧
      bad = tlv tag content ++ rest := by
  induction front generalizing names with
  | nil =>
    rw [flatMap_nil,nil_append] at same
    cases names with
    | nil => exact .inl same.symm
    | cons name names =>
      rw [flatMap_cons] at same
      exact .inr ⟨name.1,name.2,_,known _ mem_cons_self,same.symm⟩
  | cons first front ih =>
    obtain ⟨firstKnown,laterKnown⟩ := forall_mem_cons.mp frontKnown
    have firstLess := tlv_length_lt first.1 first.2
    have length := congrArg List.length same
    simp only [flatMap_cons,length_append] at length
    cases names with
    | nil =>
      rw [flatMap_nil,length_nil] at length
      omega
    | cons name names =>
      obtain ⟨nameKnown,namesKnown⟩ := forall_mem_cons.mp known
      have nameLess := tlv_length_lt name.1 name.2
      simp only [flatMap_cons,length_append,append_assoc] at same length short
      refine ih namesKnown laterKnown (by omega) ?_
      exact generalName_unique nameKnown firstKnown (by omega) (by omega) same

/-- The match of a host name against a subjectAltName: the value is one SEQUENCE filled by entries
of the nine arms, one of them a dNSName that matches.  No name with a NUL matches, nor one with an
asterisk that is not its whole first label, nor a wildcard over another number of labels than one,
and an entry that is not well formed refuses the value whatever stands in front of it. -/
theorem webpkiMatchSan_exact (san host : Bytes) (admitted : webpkiHostnameOk host = true)
    (short : san.length ≤ 65535) :
    (webpkiMatchSan san host = true ↔
      ∃ names body, san = tlv 0x30 body ∧ GeneralNames names body ∧
        ∃ name ∈ names, name.1.toNat = tagDnsName ∧ MatchesHost host name.2) ∧
    (∀ name, matchDnsName name host = true ↔ MatchesHost host name) ∧
    (∀ name, 0x00 ∈ name → matchDnsName name host = false) ∧
    (∀ name, 0x2a ∈ name → (¬ ∃ suffix, name = 0x2a :: 0x2e :: suffix ∧ 0x2a ∉ suffix) →
      matchDnsName name host = false) ∧
    (∀ suffix : Bytes, host.count 0x2e ≠ suffix.count 0x2e + 1 →
      matchDnsName (0x2a :: 0x2e :: suffix) host = false) ∧
    (∀ front frontBody bad, GeneralNames front frontBody → bad ≠ [] →
      (¬ ∃ (tag : UInt8) (content rest : Bytes), tag.toNat ∈ generalNameTags ∧
        bad = tlv tag content ++ rest) →
      san = tlv 0x30 (frontBody ++ bad) → webpkiMatchSan san host = false) := by
  have shape := hostShape_of_ok admitted
  have matched (name : Bytes) : matchDnsName name host = true ↔ MatchesHost host name :=
    matchDnsName_iff.trans (namesHost_iff shape)
  refine ⟨?_,matched,?_,?_,?_,?_⟩
  · rw [webpkiMatchSan_iff]
    constructor
    · rintro ⟨names,known,spelled,-,name,inside,dns,hosted⟩
      exact ⟨names,_,spelled,⟨known,rfl⟩,name,inside,dns,(namesHost_iff shape).mp hosted⟩
    · rintro ⟨names,_,rfl,⟨known,rfl⟩,name,inside,dns,hosted⟩
      have longer := tlv_length_lt 0x30 (names.flatMap fun name => tlv name.1 name.2)
      exact ⟨names,known,rfl,by omega,name,inside,dns,(namesHost_iff shape).mpr hosted⟩
  · intro name nul
    rw [Bool.eq_false_iff]
    intro found
    exact ((matched name).mp found).noNul shape nul
  · intro name starred partialLabel
    rw [Bool.eq_false_iff]
    intro found
    obtain ⟨suffix,spelled,outside,-⟩ := ((matched name).mp found).star shape starred
    exact partialLabel ⟨suffix,spelled,outside⟩
  · intro suffix counts
    rw [Bool.eq_false_iff]
    intro found
    obtain ⟨_,spelled,-,counted⟩ := ((matched _).mp found).star shape mem_cons_self
    cases spelled
    exact counts counted
  · rintro front _ bad ⟨frontKnown,rfl⟩ nonempty malformed spelled
    rw [Bool.eq_false_iff]
    intro found
    obtain ⟨names,known,same,small,-⟩ := webpkiMatchSan_iff.mp found
    have bodies := tlv_content_inj (spelled.symm.trans same)
    rcases generalNames_behind known frontKnown small bodies.symm with empty | entry
    · exact nonempty empty
    · exact malformed entry

/-- A wildcard for the first label of `c.a.b`. -/
theorem webpkiMatchSan_exact_wildcard :
    webpkiMatchSan (tlv 0x30 (tlv 0x82 [0x2a,0x2e,0x61,0x2e,0x42])) [0x63,0x2e,0x61,0x2e,0x62]
      = true := by
  refine (webpkiMatchSan_exact _ _ (by decide) (by decide)).1.mpr
    ⟨[(0x82, [0x2a,0x2e,0x61,0x2e,0x42])],_,rfl,⟨by decide,rfl⟩,_,mem_singleton_self _,rfl,
      .inr ⟨[0x61,0x2e,0x42],[0x63],[0x61,0x2e,0x62],rfl,by decide,rfl,by decide,by decide,
        by decide⟩⟩

/-! ### Public keys -/

inductive WebpkiKeyAlg where
  | rsa | p256 | p384
  deriving DecidableEq, Repr

structure WebpkiSpki where
  alg : WebpkiKeyAlg
  key : Bytes
  deriving DecidableEq, Repr

def keyAlgorithms : List (WebpkiKeyAlg × Bytes) :=
  [(.rsa, [0x30,0x0d,0x06,0x09,0x2a,0x86,0x48,0x86,0xf7,0x0d,0x01,0x01,0x01,0x05,0x00]),
   (.p256, [0x30,0x13,0x06,0x07,0x2a,0x86,0x48,0xce,0x3d,0x02,0x01,0x06,0x08,0x2a,0x86,0x48,0xce,
      0x3d,0x03,0x01,0x07]),
   (.p384, [0x30,0x10,0x06,0x07,0x2a,0x86,0x48,0xce,0x3d,0x02,0x01,0x06,0x05,0x2b,0x81,0x04,0x00,
      0x22])]

/-- The first row of a table whose encoding stands next.  Each comparison starts from
the same buffer. -/
def readFirstExact {κ : Type} : List (κ × Bytes) → DerReader κ
  | [], _ => none
  | (name, der) :: rest, r =>
    match x509ReadExact der r with
    | some (_, r) => some (name, r)
    | none => readFirstExact rest r

/-- `CH_RSA_MODULUS_MAX` of a `CH_TRUST_WEBPKI` build. -/
def webpkiModulusMax : Nat := 512

def webpkiKey (alg : WebpkiKeyAlg) (bits : Bytes) : Option WebpkiSpki :=
  match alg with
  | .rsa => (readRsaKey webpkiModulusMax bits).map (⟨.rsa,·⟩)
  | .p256 => (readEcPoint 32 bits).map (⟨.p256,·⟩)
  | .p384 => (readEcPoint 48 bits).map (⟨.p384,·⟩)

def webpkiReadSpki : DerReader WebpkiSpki := do
  let body ← readElement 0x30
  let (alg, bits) ← readWhole (do
    let alg ← readFirstExact keyAlgorithms
    let bits ← x509ReadBitstring
    pure (alg, bits)) body
  webpkiKey alg bits

/-! ### Signature algorithms -/

inductive WebpkiSigalg where
  | rsaSha256 | rsaSha384 | ecdsaSha256 | ecdsaSha384
  deriving DecidableEq, Repr

def signatureAlgorithms : List (WebpkiSigalg × Bytes) :=
  [(.rsaSha256, [0x30,0x0d,0x06,0x09,0x2a,0x86,0x48,0x86,0xf7,0x0d,0x01,0x01,0x0b,0x05,0x00]),
   (.rsaSha384, [0x30,0x0d,0x06,0x09,0x2a,0x86,0x48,0x86,0xf7,0x0d,0x01,0x01,0x0c,0x05,0x00]),
   (.ecdsaSha256, [0x30,0x0a,0x06,0x08,0x2a,0x86,0x48,0xce,0x3d,0x04,0x03,0x02]),
   (.ecdsaSha384, [0x30,0x0a,0x06,0x08,0x2a,0x86,0x48,0xce,0x3d,0x04,0x03,0x03])]

def webpkiReadSigalg : DerReader WebpkiSigalg := readFirstExact signatureAlgorithms

namespace WebpkiSigalg

/-- `sigalg_is_rsa`; the others are ECDSA. -/
def isRsa : WebpkiSigalg → Bool
  | rsaSha256 | rsaSha384 => true
  | ecdsaSha256 | ecdsaSha384 => false

def digestLen : WebpkiSigalg → Nat
  | rsaSha256 | ecdsaSha256 => sha256Len
  | rsaSha384 | ecdsaSha384 => sha384Len

def signerMatches (sigalg : WebpkiSigalg) (signer : WebpkiSpki) : Bool :=
  if sigalg.isRsa then signer.alg == .rsa
  else (signer.alg == .p256 && signer.key.length == 64) ||
    (signer.alg == .p384 && signer.key.length == 96)

end WebpkiSigalg

end Chapulin
