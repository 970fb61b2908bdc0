/-
Which ClientHellos the server's parser accepts, and with which alert it refuses
the others.

A message is a head and a block of extensions; the walk over the block is
compared with the grammar extension by extension.  The two scans that come
before it read the block by its framing alone, so they are stated over the items
at the block's front, whatever follows them.
-/

import Chapulin.Lib.Once
import Chapulin.Server.Grammar

namespace Chapulin

open Lib Proc Alert List HelloExt Item

/-! ### The scans of the block -/

section Scans

variable {items : List Item} {rest : Bytes}

theorem rbLeft_encode (item : Item) (tail : Bytes) : ¬ rbLeft ⟨item.encode ++ tail,false⟩ = 0 := by
  simp [encode_length]

theorem typeBefore_items (type : Nat) (fits : ∀ item ∈ items, item.Fits) {fuel : Nat}
    (enough : items.length ≤ fuel) :
    typeBefore type fuel ⟨encodeAll items,false⟩ =
      decide (type ∈ items.map Prod.fst) := by
  induction items generalizing fuel with
  | nil => cases fuel <;> rfl
  | cons item items ih =>
    obtain ⟨fuel,rfl⟩ : ∃ less, fuel = less + 1 := ⟨fuel - 1,by simp at enough; omega⟩
    have read := rbItem_encode (fits item mem_cons_self) (encodeAll items)
    have others := @ih (forall_mem_cons.mp fits).2 fuel
      (by simpa using enough)
    rw [encodeAll_cons,typeBefore,if_neg (rbLeft_encode item _),read]
    dsimp only
    by_cases same : item.1 = type
    · simp [same]
    · rw [if_neg same,others]
      simp [Ne.symm same]

/-- The scan counts the items. -/
theorem extOverMaxFrom_items (fits : ∀ item ∈ items, item.Fits) (absent : Absent rest)
    {fuel count : Nat} (within : count ≤ clientHelloExtMax) (enough : items.length ≤ fuel) :
    extOverMaxFrom fuel count ⟨encodeAll items ++ rest,false⟩ =
      decide (clientHelloExtMax < count + items.length) := by
  induction items generalizing fuel count with
  | nil =>
    obtain ⟨type,next,read⟩ := rbItem_absent absent
    have few : ¬ clientHelloExtMax < count := Nat.not_lt.mpr within
    cases fuel with
    | zero => simp [extOverMaxFrom,few]
    | succ fuel =>
      rw [encodeAll_nil,nil_append,extOverMaxFrom,read]
      simp [few]
  | cons item items ih =>
    obtain ⟨fuel,rfl⟩ : ∃ less, fuel = less + 1 := ⟨fuel - 1,by simp at enough; omega⟩
    have read := rbItem_encode (fits item mem_cons_self) (encodeAll items ++ rest)
    have regroup : count + (item :: items).length = count + 1 + items.length := by
      rw [length_cons]
      omega
    rw [encodeAll_cons,append_assoc,extOverMaxFrom,if_neg (rbLeft_encode item _),read,regroup]
    dsimp only
    by_cases past : count + 1 > clientHelloExtMax
    · have total : clientHelloExtMax < count + 1 + items.length := by omega
      rw [if_pos past,decide_eq_true total]
    · rw [if_neg past]
      apply ih (forall_mem_cons.mp fits).2
      · omega
      · simpa using enough

theorem length_le_items (items : List Item) (rest : Bytes) :
    items.length ≤ (encodeAll items ++ rest).length := by
  rw [length_append]
  exact Nat.le_trans (length_le_encodeAll_length items) (Nat.le_add_right ..)

theorem srvExtOverMax_items (fits : ∀ item ∈ items, item.Fits) (absent : Absent rest) :
    srvExtOverMax (encodeAll items ++ rest) = decide (clientHelloExtMax < items.length) := by
  have counted := @extOverMaxFrom_items items rest fits absent _ 0 (Nat.zero_le _)
    (length_le_items items rest)
  rw [Nat.zero_add] at counted
  exact counted

/-- The rescan of the bytes before each item finds the types of `done`, so the
loop answers for the types of all items together. -/
theorem extDuplicateFrom_items {done : List Item} (doneFits : ∀ item ∈ done, item.Fits)
    (distinct : (done.map Prod.fst).Nodup) (fits : ∀ item ∈ items, item.Fits)
    (absent : Absent rest) {fuel : Nat} (enough : items.length ≤ fuel) :
    extDuplicateFrom (encodeAll (done ++ items) ++ rest) fuel (encodeAll done).length
        ⟨encodeAll items ++ rest,false⟩ =
      !decide ((done ++ items).map Prod.fst).Nodup := by
  induction items generalizing done fuel with
  | nil =>
    obtain ⟨type,next,read⟩ := rbItem_absent absent
    rw [append_nil,decide_eq_true distinct]
    cases fuel with
    | zero => rfl
    | succ fuel =>
      rw [encodeAll_nil,nil_append,extDuplicateFrom,read]
      simp
  | cons item items ih =>
    obtain ⟨fuel,rfl⟩ : ∃ less, fuel = less + 1 := ⟨fuel - 1,by simp at enough; omega⟩
    have read := rbItem_encode (fits item mem_cons_self) (encodeAll items ++ rest)
    have before : (encodeAll (done ++ item :: items) ++ rest).take
        (encodeAll done).length = encodeAll done := by
      rw [encodeAll_append,append_assoc,take_left]
    have scanned := typeBefore_items item.1 doneFits (length_le_encodeAll_length done)
    conv_lhs => rw [encodeAll_cons,append_assoc]
    rw [extDuplicateFrom,if_neg (rbLeft_encode item _),read]
    dsimp only
    rw [before,show rbInit (encodeAll done) = ⟨encodeAll done,false⟩ from rfl,scanned]
    have regroup : done ++ item :: items = (done ++ [item]) ++ items := by simp
    have length : (encodeAll done).length + (4 + item.2.length) =
        (encodeAll (done ++ [item])).length := by
      simp [encodeAll_append,encode_length]
    by_cases seen : item.1 ∈ done.map Prod.fst
    · have repeated : ¬ ((done ++ item :: items).map Prod.fst).Nodup := by
        intro nodup
        rw [map_append,map_cons,nodup_append] at nodup
        exact nodup.2.2 _ seen _ mem_cons_self rfl
      rw [if_pos (decide_eq_true seen),decide_eq_false repeated]
      rfl
    · rw [if_neg (by simpa using seen),length,regroup]
      apply ih
      · exact forall_mem_append.mpr ⟨doneFits,forall_mem_singleton.mpr (fits item mem_cons_self)⟩
      · rw [map_append,nodup_append]
        refine ⟨distinct,by simp,?_⟩
        intro type early other last same
        rw [map_singleton,mem_singleton] at last
        rw [same,last] at early
        exact seen early
      · exact (forall_mem_cons.mp fits).2
      · simpa using enough

theorem srvExtDuplicate_items (fits : ∀ item ∈ items, item.Fits) (absent : Absent rest) :
    srvExtDuplicate (encodeAll items ++ rest) = !decide (items.map Prod.fst).Nodup := by
  exact @extDuplicateFrom_items items rest [] (by simp) nodup_nil fits absent _
    (length_le_items items rest)

end Scans

/-! ### The head -/

structure HelloHead where
  version : Nat
  random : Bytes
  sessionId : Bytes
  suites : List Nat
  compression : Bytes
  deriving DecidableEq

/-- The head's syntax; the compression methods are judged by their own rule. -/
def helloHeadFormat : Format HelloHead where
  Form head := head.version < 65536 ∧ head.random.length = 32 ∧ head.sessionId.length ≤ 32 ∧
    (Format.code.list16 2).Form head.suites ∧ head.compression.length < 256
  encode head := be16 head.version ++ (head.random ++ ((Format.vector8 0).encode head.sessionId ++
    ((Format.code.list16 2).encode head.suites ++ (Format.vector8 0).encode head.compression)))

def HelloHead.keep (b : Build) (head : HelloHead) (ch : ClientHello) : ClientHello :=
  { ch with
    random := head.random
    sessionId := head.sessionId
    suites := head.suites.filter (srvSuiteKnown b) }

theorem parseHead_encode {b : Build} {head : HelloHead} (form : helloHeadFormat.Form head)
    (rest : Bytes) (ch : ClientHello) :
    parseHead b ⟨helloHeadFormat.encode head ++ rest,false⟩ ch =
      if head.compression = [0] then .ok (head.keep b ch, ⟨rest,false⟩)
      else .error illegalParameter := by
  obtain ⟨versionForm,randomForm,sessionForm,suitesForm,compressionForm⟩ := form
  have sessionShort : head.sessionId.length < 256 := by omega
  have sessionFits : ¬ head.sessionId.length > 32 := by omega
  have half : 2 * head.suites.length / 2 = head.suites.length := by omega
  have shape : helloHeadFormat.encode head ++ rest =
      be16 head.version ++ (head.random ++ (byte head.sessionId.length :: (head.sessionId ++
        ((Format.code.list16 2).encode head.suites ++
          (byte head.compression.length :: (head.compression ++ rest)))))) := by
    simp [helloHeadFormat,Format.vector8]
  have randoms := rbBytes_append head.random (byte head.sessionId.length :: (head.sessionId ++
    ((Format.code.list16 2).encode head.suites ++
      (byte head.compression.length :: (head.compression ++ rest)))))
  rw [randomForm] at randoms
  unfold parseHead
  rw [shape]
  simp only [rbU16_be16 _ _ versionForm,randoms,rbU8_vector8 sessionShort,rbBytes_append,
    if_neg sessionFits,srvOpenCodePointList_encode suitesForm,half,rbCodes_encodeAll suitesForm.1,
    rbU8_vector8 compressionForm]
  by_cases null : head.compression = [0]
  · simp [null,HelloHead.keep]
  · simp [null]

theorem parseHead_cases (b : Build) (bytes : Bytes) (ch : ClientHello) :
    (∃ head rest, helloHeadFormat.Form head ∧ bytes = helloHeadFormat.encode head ++ rest) ∨
      parseHead b ⟨bytes,false⟩ ch = .error decodeError := by
  unfold parseHead
  rcases rbU16_cases bytes with ⟨version,tail,versionForm,rfl,read⟩ | ⟨_,failed⟩
  · simp only [read]
    rcases rbBytes_cases 32 tail with ⟨random,tail,randomForm,rfl,random_read⟩ | ⟨_,short⟩
    · simp only [random_read]
      rcases vector8_cases tail with ⟨sessionId,tail,_,rfl,length,value⟩ | ⟨_,short⟩
      · simp only [length,value]
        by_cases sessionFits : sessionId.length > 32
        · right
          rw [if_pos sessionFits]
        rw [if_neg sessionFits]
        rcases opened : srvOpenCodePointList ⟨tail,false⟩ with _ | ⟨listLen,after⟩
        · exact .inr rfl
        obtain ⟨suites,tail,suitesForm,rfl,rfl,rfl⟩ := srvOpenCodePointList_some opened
        have half : 2 * suites.length / 2 = suites.length := by omega
        simp only [half,rbCodes_encodeAll suitesForm.1]
        rcases vector8_cases tail with ⟨compression,rest,compressionForm,rfl,length,value⟩ |
          ⟨_,short⟩
        · refine .inl ⟨⟨version,random,sessionId,suites,compression⟩,rest,
            ⟨versionForm,randomForm,Nat.le_of_not_lt sessionFits,suitesForm,compressionForm⟩,?_⟩
          simp [helloHeadFormat,Format.vector8]
        · simp only [short]
          exact .inr trivial
      · simp only [short]
        exact .inr trivial
    · simp only [short]
      exact .inr trivial
  · simp only [rbBytes_failed failed]
    exact .inr trivial

/-! ### What an extension leaves in the record -/

theorem alpnOffered_keeps {ρ : Type} {view : ClientHello → ρ}
    (blind : ∀ ch selected, view { ch with alpnSelected := selected } = view ch)
    (offered : List Bytes) (name : Bytes) (ch : ClientHello) :
    view (alpnOffered offered name ch) = view ch := by
  unfold alpnOffered
  dsimp only
  split
  · exact blind ch _
  · rfl

theorem shareKeep_keeps {ρ : Type} {view : ClientHello → ρ}
    (blind : ∀ ch shares, view { ch with shares := shares } = view ch) (b : Build) (share : Item)
    (ch : ClientHello) : view (shareKeep b share ch) = view ch := by
  unfold shareKeep
  split
  · exact blind ch _
  · rfl

namespace HelloExt

variable {b : Build} {offered : List Bytes} {dataOff : Nat}

theorem keep_seen (ext : HelloExt) (ch : ClientHello) :
    (ext.keep b offered dataOff ch).seen = ch.seen := by
  cases ext with
  | alpn names =>
    exact foldl_keeps fun name _ => alpnOffered_keeps (fun _ _ => rfl) offered name
  | keyShare shares =>
    exact foldl_keeps fun share _ => shareKeep_keeps (fun _ _ => rfl) b share
  | _ => rfl

theorem keep_groups (ext : HelloExt) (ch : ClientHello) (other : ext.type ≠ extSupportedGroups) :
    (ext.keep b offered dataOff ch).groups = ch.groups := by
  cases ext with
  | supportedGroups groups => exact absurd rfl other
  | alpn names =>
    exact foldl_keeps fun name _ => alpnOffered_keeps (fun _ _ => rfl) offered name
  | keyShare shares =>
    exact foldl_keeps fun share _ => shareKeep_keeps (fun _ _ => rfl) b share
  | _ => rfl

/-- The groups of the shares kept are the known ones among those offered. -/
theorem shareKeep_groups (shares : List Item) (ch : ClientHello) (group : Nat) :
    group ∈ (shares.foldl (fun ch share => shareKeep b share ch) ch).shares.map Prod.fst ↔
      group ∈ ch.shares.map Prod.fst ∨
        (srvGroupKnown b group = true ∧ ∃ share ∈ shares, share.1 = group) := by
  induction shares generalizing ch with
  | nil => simp
  | cons share shares ih =>
    have first : group ∈ (shareKeep b share ch).shares.map Prod.fst ↔
        group ∈ ch.shares.map Prod.fst ∨
          (srvGroupKnown b group = true ∧ share.1 = group) := by
      unfold shareKeep
      by_cases known : srvGroupKnown b share.1 = true
      · rcases held : ch.share share.1 with _ | value
        · simp only [known,Option.isNone_none,Bool.and_self,if_true,map_append,map_singleton,
            mem_append,mem_singleton]
          constructor
          · rintro (early | rfl)
            · exact .inl early
            · exact .inr ⟨known,rfl⟩
          · rintro (early | ⟨_,rfl⟩)
            · exact .inl early
            · exact .inr rfl
        · have present : share.1 ∈ ch.shares.map Prod.fst := by
            have found : (share.1, value) ∈ ch.shares := by
              unfold ClientHello.share at held
              rw [lookup_eq_some_iff] at held
              obtain ⟨before,after,whole,_⟩ := held
              rw [whole]
              simp
            exact mem_map.mpr ⟨_,found,rfl⟩
          simp only [Option.isNone_some,Bool.and_false,Bool.false_eq_true,if_false]
          constructor
          · exact .inl
          · rintro (early | ⟨_,rfl⟩)
            · exact early
            · exact present
      · simp only [known,Bool.false_and,Bool.false_eq_true,if_false]
        constructor
        · exact .inl
        · rintro (early | ⟨wrong,rfl⟩)
          · exact early
          · exact absurd wrong known
    rw [foldl_cons,ih,first]
    simp only [mem_cons,exists_eq_or_imp]
    tauto

theorem keep_shares (ext : HelloExt) (ch : ClientHello) (group : Nat) :
    group ∈ (ext.keep b offered dataOff ch).shares.map Prod.fst ↔
      group ∈ ch.shares.map Prod.fst ∨
        (srvGroupKnown b group = true ∧
          ∃ shares, ext = .keyShare shares ∧ ∃ share ∈ shares, share.1 = group) := by
  cases ext with
  | keyShare shares =>
    rw [show (keyShare shares).keep b offered dataOff ch =
      shares.foldl (fun ch share => shareKeep b share ch) ch from rfl,shareKeep_groups]
    simp
  | alpn names =>
    have same : ((alpn names).keep b offered dataOff ch).shares = ch.shares :=
      foldl_keeps fun name _ => alpnOffered_keeps (fun _ _ => rfl) offered name
    rw [same]
    simp
  | _ =>
    change group ∈ ch.shares.map Prod.fst ↔ _
    simp

def item (ext : HelloExt) : Item := (ext.type, ext.data)

/-- What `parse_extension` keeps of an extension whose header starts at `off`. -/
def note (b : Build) (offered : List Bytes) (off : Nat) (ext : HelloExt) (ch : ClientHello) :
    ClientHello :=
  if srvExtKnown ext.type then
    ext.keep b offered (off + 4) { ch with seen := ext.type :: ch.seen }
  else ch

/-- The record after the extensions of a block that starts at `off`. -/
def noteAll (b : Build) (offered : List Bytes) : Nat → List HelloExt → ClientHello → ClientHello
  | _, [], ch => ch
  | off, ext :: exts, ch =>
    noteAll b offered (off + 4 + ext.data.length) exts (ext.note b offered off ch)

def Has (exts : List HelloExt) (type : Nat) : Prop := ∃ ext ∈ exts, ext.type = type

theorem note_saw (off : Nat) (ext : HelloExt) (ch : ClientHello) (type : Nat) :
    (ext.note b offered off ch).saw type = true ↔
      ch.saw type = true ∨ (srvExtKnown type = true ∧ ext.type = type) := by
  unfold note ClientHello.saw
  split
  · rename_i known
    rw [keep_seen]
    simp only [contains_cons,Bool.or_eq_true,beq_iff_eq]
    constructor
    · rintro (rfl | seen)
      · exact .inr ⟨known,rfl⟩
      · exact .inl seen
    · rintro (seen | ⟨_,rfl⟩)
      · exact .inr seen
      · exact .inl rfl
  · rename_i unknown
    constructor
    · exact .inl
    · rintro (seen | ⟨known,rfl⟩)
      · exact seen
      · exact absurd known unknown

theorem note_unfinished {off : Nat} {ext : HelloExt} {ch : ClientHello}
    (unfinished : ch.saw extPreSharedKey = false) (other : ext.type ≠ extPreSharedKey) :
    (ext.note b offered off ch).saw extPreSharedKey = false := by
  rw [Bool.eq_false_iff]
  intro seen
  rcases (note_saw off ext ch extPreSharedKey).mp seen with early | ⟨_,same⟩
  · rw [unfinished] at early
    cases early
  · exact other same

theorem noteAll_saw (off : Nat) (exts : List HelloExt) (ch : ClientHello) (type : Nat) :
    (noteAll b offered off exts ch).saw type = true ↔
      ch.saw type = true ∨ (srvExtKnown type = true ∧ Has exts type) := by
  induction exts generalizing off ch with
  | nil => simp [noteAll,Has]
  | cons ext exts ih =>
    rw [noteAll,ih,note_saw]
    simp only [Has,mem_cons,exists_eq_or_imp]
    tauto

theorem note_groups (off : Nat) (ext : HelloExt) (ch : ClientHello)
    (other : ext.type ≠ extSupportedGroups) : (ext.note b offered off ch).groups = ch.groups := by
  unfold note
  split
  · exact keep_groups ext _ other
  · rfl

theorem noteAll_groups_same (off : Nat) {exts : List HelloExt} (ch : ClientHello)
    (absent : ¬ Has exts extSupportedGroups) :
    (noteAll b offered off exts ch).groups = ch.groups := by
  induction exts generalizing off ch with
  | nil => rfl
  | cons ext exts ih =>
    have first : ext.type ≠ extSupportedGroups := fun same => absent ⟨ext,mem_cons_self,same⟩
    rw [noteAll,ih _ _ fun ⟨later,among,same⟩ => absent ⟨later,mem_cons_of_mem _ among,same⟩,
      note_groups off ext ch first]

/-- With one extension of each type the groups are those it lists and the server
knows. -/
theorem noteAll_groups (off : Nat) {exts : List HelloExt} (ch : ClientHello)
    (distinct : (exts.map type).Nodup) {groups : List Nat}
    (listed : supportedGroups groups ∈ exts) :
    (noteAll b offered off exts ch).groups = groups.filter (srvGroupKnown b) := by
  induction exts generalizing off ch with
  | nil => cases listed
  | cons ext exts ih =>
    rw [map_cons,nodup_cons] at distinct
    rw [noteAll]
    rcases mem_cons.mp listed with rfl | later
    · rw [noteAll_groups_same]
      · rfl
      · rintro ⟨other,among,same⟩
        exact distinct.1 (mem_map.mpr ⟨other,among,same⟩)
    · exact ih _ _ distinct.2 later

/-- A share is kept exactly when its group is one the build knows. -/
theorem noteAll_shares (off : Nat) (exts : List HelloExt) (ch : ClientHello) (group : Nat) :
    group ∈ (noteAll b offered off exts ch).shares.map Prod.fst ↔
      group ∈ ch.shares.map Prod.fst ∨
        (srvGroupKnown b group = true ∧
          ∃ shares, keyShare shares ∈ exts ∧ ∃ share ∈ shares, share.1 = group) := by
  induction exts generalizing off ch with
  | nil => simp [noteAll]
  | cons ext exts ih =>
    have first : group ∈ (ext.note b offered off ch).shares.map Prod.fst ↔
        group ∈ ch.shares.map Prod.fst ∨ (srvGroupKnown b group = true ∧
          ∃ shares, ext = .keyShare shares ∧ ∃ share ∈ shares, share.1 = group) := by
      unfold note
      split
      · exact keep_shares ext _ group
      · rename_i unknown
        constructor
        · exact .inl
        · rintro (early | ⟨_,shares,rfl,_⟩)
          · exact early
          · exact absurd (show srvExtKnown extKeyShare = true by decide) unknown
    rw [noteAll,ih,first]
    constructor
    · rintro ((early | ⟨known,shares,rfl,held⟩) | ⟨known,shares,later,held⟩)
      · exact .inl early
      · exact .inr ⟨known,shares,mem_cons_self,held⟩
      · exact .inr ⟨known,shares,mem_cons_of_mem _ later,held⟩
    · rintro (early | ⟨known,shares,among,held⟩)
      · exact .inl (.inl early)
      · rcases mem_cons.mp among with same | later
        · exact .inl (.inr ⟨known,shares,same.symm,held⟩)
        · exact .inr ⟨known,shares,later,held⟩

end HelloExt

/-! ### The walk over the block -/

section Walk

variable {b : Build} {offered : List Bytes} {off : Nat} {ch : ClientHello}

def HelloExt.Allowed (b : Build) (ext : HelloExt) : Prop := ext.Form ∧ ext.judge b = none

theorem parseExtension_takes {ext : HelloExt} (allowed : ext.Allowed b)
    (unfinished : ch.saw extPreSharedKey = false) :
    parseExtension b offered ext.type ext.data (off, ch) =
      (.ok (), (off + 4 + ext.data.length, ext.note b offered off ch)) := by
  unfold parseExtension note
  dsimp only
  rw [if_neg (by simp [unfinished])]
  by_cases known : srvExtKnown ext.type = true
  · rw [if_neg (by simp [known]),if_pos known,srvReadExtension_takes allowed.1 known allowed.2]
    rfl
  · rw [if_pos (by simpa using known),if_neg known]

theorem parseExtension_late (type : Nat) (data : Bytes) (late : ch.saw extPreSharedKey = true) :
    (parseExtension b offered type data (off, ch)).1 = .error illegalParameter := by
  unfold parseExtension
  dsimp only
  rw [if_pos late]

theorem HelloExt.Breaks.known {type alert : Nat} {data : Bytes}
    (breaks : Breaks b type data alert) : srvExtKnown type = true := by
  cases breaks with
  | malformed _ unspelled =>
    by_contra unknown
    exact unspelled (.other type data) rfl (by simpa [Form] using unknown) rfl
  | judged judged =>
    cases judged with
    | share _ => decide
    | @value ext _ rest form judgment =>
      cases ext with
      | other type data => cases judgment
      | _ => rfl

/-- Whatever breaks a rule is refused with the alert of the rule. -/
theorem parseExtension_breaks {type alert : Nat} {data : Bytes}
    (unfinished : ch.saw extPreSharedKey = false) (breaks : Breaks b type data alert) :
    (parseExtension b offered type data (off, ch)).1 = .error alert := by
  have known := breaks.known
  unfold parseExtension
  dsimp only
  rw [if_neg (by simp [unfinished]),if_neg (by simp [known])]
  rcases ran : srvReadExtension b offered type (off + 4) (rbInit data)
    { ch with seen := type :: ch.seen } with ⟨reason | next,after⟩
  · dsimp only
    cases breaks with
    | judged judged =>
      have stopped := @srvReadExtension_judged b offered (off + 4) _ _ _ judged
        { ch with seen := type :: ch.seen }
      rw [ran] at stopped
      cases stopped
      rfl
    | malformed unjudged _ =>
      rcases srvReadExtension_refused known (congrArg Prod.fst ran) with rfl | judged
      · rfl
      · exact absurd judged (unjudged reason)
  · cases breaks with
    | judged judged =>
      have stopped := @srvReadExtension_judged b offered (off + 4) _ _ _ judged
        { ch with seen := type :: ch.seen }
      rw [ran] at stopped
      cases stopped
    | malformed _ unspelled =>
      dsimp only
      by_cases filled : (next.err || rbLeft next != 0) = true
      · rw [if_pos filled]
      · simp only [Bool.or_eq_true,bne_iff_ne,not_or,Bool.not_eq_true,ne_eq,
          Decidable.not_not] at filled
        obtain ⟨ext,sameType,form,_,sameData⟩ :=
          srvReadExtension_taken known (congrArg Prod.fst ran) filled.1 filled.2
        exact absurd sameData (unspelled ext sameType form)

/-- `pre_shared_key` is the last extension where it occurs. -/
def HelloExt.PskLast (exts : List HelloExt) : Prop :=
  ∀ before ext after, exts = before ++ ext :: after → ext.type = extPreSharedKey → after = []

theorem HelloExt.PskLast.cons {ext : HelloExt} {exts : List HelloExt} (last : PskLast exts)
    (other : ext.type ≠ extPreSharedKey) : PskLast (ext :: exts) := by
  intro before found after whole psk
  cases before with
  | nil =>
    simp only [nil_append,cons.injEq] at whole
    obtain ⟨rfl,_⟩ := whole
    exact absurd psk other
  | cons head tail =>
    simp only [cons_append,cons.injEq] at whole
    exact last tail found after whole.2 psk

theorem HelloExt.not_has_cons {ext : HelloExt} {exts : List HelloExt} {type : Nat}
    (other : ext.type ≠ type) (absent : ¬ Has exts type) : ¬ Has (ext :: exts) type := by
  rintro ⟨found,among,same⟩
  rcases mem_cons.mp among with rfl | later
  · exact other same
  · exact absent ⟨found,later,same⟩

theorem HelloExt.not_has_nil (type : Nat) : ¬ Has [] type := by
  rintro ⟨_,among,_⟩
  cases among

theorem HelloExt.PskLast.of_absent {exts : List HelloExt} (absent : ¬ Has exts extPreSharedKey) :
    PskLast exts := by
  rintro before ext after rfl psk
  exact absurd ⟨ext,by simp,psk⟩ absent

theorem HelloExt.PskLast.snoc {exts : List HelloExt} (absent : ¬ Has exts extPreSharedKey)
    (psk : HelloExt) : PskLast (exts ++ [psk]) := by
  intro before ext after whole found
  rcases eq_nil_or_concat after with rfl | ⟨others,final,rfl⟩
  · rfl
  · rw [concat_eq_append,← cons_append,← append_assoc] at whole
    obtain ⟨rfl,_⟩ := append_inj' whole rfl
    exact absurd ⟨ext,by simp,found⟩ absent

/-- The extensions of a block are allowed and none follows `pre_shared_key`, or
one is the first that does, or one is the first that breaks a rule. -/
theorem HelloExt.items_cases (b : Build) (items : List Item) :
    (∃ exts, exts.map item = items ∧ (∀ ext ∈ exts, ext.Allowed b) ∧ PskLast exts) ∨
      (∃ exts psk after, items = (exts ++ [psk]).map item ++ after ∧ after ≠ [] ∧
        (∀ ext ∈ exts ++ [psk], ext.Allowed b) ∧ ¬ Has exts extPreSharedKey ∧
        psk.type = extPreSharedKey) ∨
      ∃ exts wrong after alert, items = exts.map item ++ wrong :: after ∧
        (∀ ext ∈ exts, ext.Allowed b) ∧ ¬ Has exts extPreSharedKey ∧
        Breaks b wrong.1 wrong.2 alert := by
  induction items with
  | nil => exact .inl ⟨[],rfl,by simp,.of_absent (not_has_nil _)⟩
  | cons first items ih =>
    by_cases wrong : ∀ ext : HelloExt, ext.item = first → ¬ ext.Allowed b
    · obtain ⟨alert,breaks⟩ := @breaks_of_wrong b first.1 first.2 fun ext type data form judgment =>
        wrong ext (by rw [item,type,data]) ⟨form,judgment⟩
      exact .inr (.inr ⟨[],first,items,alert,rfl,by simp,not_has_nil _,breaks⟩)
    push Not at wrong
    obtain ⟨ext,rfl,allowed⟩ := wrong
    by_cases psk : ext.type = extPreSharedKey
    · rcases eq_or_ne items [] with rfl | more
      · exact .inl ⟨[ext],rfl,by simpa using allowed,.snoc (not_has_nil _) ext⟩
      · exact .inr (.inl ⟨[],ext,items,rfl,more,by simpa using allowed,not_has_nil _,psk⟩)
    · rcases ih with ⟨exts,rfl,all,last⟩ | ⟨exts,found,after,rfl,more,all,absent,same⟩ |
        ⟨exts,bad,after,alert,rfl,all,absent,breaks⟩
      · exact .inl ⟨ext :: exts,rfl,forall_mem_cons.mpr ⟨allowed,all⟩,last.cons psk⟩
      · exact .inr (.inl ⟨ext :: exts,found,after,rfl,more,forall_mem_cons.mpr ⟨allowed,all⟩,
          not_has_cons psk absent,same⟩)
      · exact .inr (.inr ⟨ext :: exts,bad,after,alert,rfl,forall_mem_cons.mpr ⟨allowed,all⟩,
          not_has_cons psk absent,breaks⟩)

/-- The walk takes the allowed extensions and goes on behind them. -/
theorem runItems_allowed {exts : List HelloExt} (unfinished : ch.saw extPreSharedKey = false)
    (allowed : ∀ ext ∈ exts, ext.Allowed b) (last : PskLast exts) (more : List Item) :
    ∃ next, runItems (parseExtension b offered) (exts.map item ++ more) (off, ch) =
      runItems (parseExtension b offered) more (next, noteAll b offered off exts ch) := by
  induction exts generalizing off ch with
  | nil => exact ⟨off,rfl⟩
  | cons ext exts ih =>
    have step := @parseExtension_takes b offered off ch ext (allowed ext mem_cons_self)
      unfinished
    have rest : runItems (parseExtension b offered) ((ext :: exts).map item ++ more)
        (off, ch) = runItems (parseExtension b offered) (exts.map item ++ more)
          (off + 4 + ext.data.length, ext.note b offered off ch) := bind_of_ok step
    rw [rest]
    by_cases psk : ext.type = extPreSharedKey
    · have ended : exts = [] := last [] ext exts rfl psk
      subst ended
      exact ⟨_,rfl⟩
    · apply ih
      · exact note_unfinished unfinished psk
      · exact (forall_mem_cons.mp allowed).2
      · intro before found after whole same
        exact last (ext :: before) found after (by rw [whole]; rfl) same

end Walk

/-! ### What the whole message must hold -/

namespace HelloExt

structure Required (b : Build) (exts : List HelloExt) : Prop where
  versions : Has exts extSupportedVersions
  modes : Has exts extPreSharedKey → Has exts extPskModes
  certificate : ¬ Has exts extPreSharedKey →
    Has exts extSignatureAlgorithms ∧ Has exts extSupportedGroups
  halves : Has exts extSupportedGroups ↔ Has exts extKeyShare
  listed : ∀ shares, .keyShare shares ∈ exts → ∀ share ∈ shares, srvGroupKnown b share.1 = true →
    ∃ groups, .supportedGroups groups ∈ exts ∧ share.1 ∈ groups

/-- The first rule on the extensions together that they break, in the order in
which `check_required` looks at them. -/
inductive Lacks (b : Build) (exts : List HelloExt) : Nat → Prop
  | versions (missing : ¬ Has exts extSupportedVersions) : Lacks b exts protocolVersion
  | modes (versions : Has exts extSupportedVersions) (psk : Has exts extPreSharedKey)
      (missing : ¬ Has exts extPskModes) : Lacks b exts illegalParameter
  | certificate (versions : Has exts extSupportedVersions) (absent : ¬ Has exts extPreSharedKey)
      (half : ¬ (Has exts extSignatureAlgorithms ∧ Has exts extSupportedGroups)) :
      Lacks b exts missingExtension
  | halves (versions : Has exts extSupportedVersions)
      (modes : Has exts extPreSharedKey → Has exts extPskModes)
      (certificate : ¬ Has exts extPreSharedKey →
        Has exts extSignatureAlgorithms ∧ Has exts extSupportedGroups)
      (apart : ¬ (Has exts extSupportedGroups ↔ Has exts extKeyShare)) :
      Lacks b exts missingExtension
  | listed (versions : Has exts extSupportedVersions)
      (modes : Has exts extPreSharedKey → Has exts extPskModes)
      (certificate : ¬ Has exts extPreSharedKey →
        Has exts extSignatureAlgorithms ∧ Has exts extSupportedGroups)
      (halves : Has exts extSupportedGroups ↔ Has exts extKeyShare) (shares : List Item)
      (share : Item) (present : .keyShare shares ∈ exts) (among : share ∈ shares)
      (known : srvGroupKnown b share.1 = true)
      (missing : ∀ groups, .supportedGroups groups ∈ exts → share.1 ∉ groups) :
      Lacks b exts illegalParameter

variable {b : Build} {exts : List HelloExt}

theorem Lacks.not_required {alert : Nat} (lacks : Lacks b exts alert) : ¬ Required b exts := by
  intro required
  cases lacks with
  | versions missing => exact missing required.versions
  | modes _ psk missing => exact missing (required.modes psk)
  | certificate _ absent half => exact half (required.certificate absent)
  | halves _ _ _ apart => exact apart required.halves
  | listed _ _ _ _ shares share present among known missing =>
    obtain ⟨groups,listed,held⟩ := required.listed shares present share among known
    exact missing groups listed held

theorem Lacks.unique {one two : Nat} (first : Lacks b exts one) (second : Lacks b exts two) :
    one = two := by
  cases first <;> cases second <;> first | rfl | tauto

/-- A kept share stands for an entry of `key_share`, and a kept group for one
`supported_groups` lists. -/
structure Recorded (b : Build) (exts : List HelloExt) (ch : ClientHello) : Prop where
  saw : ∀ type, srvExtKnown type = true → (ch.saw type = true ↔ Has exts type)
  shares : ∀ group, group ∈ ch.shares.map Prod.fst ↔ srvGroupKnown b group = true ∧
    ∃ shares, .keyShare shares ∈ exts ∧ ∃ share ∈ shares, share.1 = group
  groups : ∀ group, group ∈ ch.groups ↔ srvGroupKnown b group = true ∧
    ∃ groups, .supportedGroups groups ∈ exts ∧ group ∈ groups

theorem supportedGroups_of_type {ext : HelloExt} (form : ext.Form)
    (same : ext.type = extSupportedGroups) : ∃ groups, ext = .supportedGroups groups := by
  cases ext with
  | supportedGroups groups => exact ⟨groups,rfl⟩
  | other type data =>
    have unknown : srvExtKnown type = false := form
    rw [show type = extSupportedGroups from same] at unknown
    exact absurd unknown (by decide)
  | _ => exact absurd same (Nat.ne_of_beq_eq_false rfl)

theorem recorded_noteAll (offered : List Bytes) (off : Nat) {ch : ClientHello}
    (fresh : ch.seen = [] ∧ ch.shares = [] ∧ ch.groups = []) (distinct : (exts.map type).Nodup)
    (formed : ∀ ext ∈ exts, ext.Form) : Recorded b exts (noteAll b offered off exts ch) where
  saw type known := by
    rw [noteAll_saw]
    simp [ClientHello.saw,fresh.1,known]
  shares group := by
    rw [noteAll_shares,fresh.2.1]
    simp
  groups group := by
    by_cases present : Has exts extSupportedGroups
    · obtain ⟨ext,among,same⟩ := present
      obtain ⟨groups,rfl⟩ := supportedGroups_of_type (formed ext among) same
      rw [noteAll_groups off ch distinct among,mem_filter]
      constructor
      · rintro ⟨held,known⟩
        exact ⟨known,groups,among,held⟩
      · rintro ⟨known,others,listed,held⟩
        have one := @noteAll_groups b offered off exts ch distinct groups among
        have two := @noteAll_groups b offered off exts ch distinct others listed
        have inBoth : group ∈ others.filter (srvGroupKnown b) := mem_filter.mpr ⟨held,known⟩
        rw [← two,one] at inBoth
        exact mem_filter.mp inBoth
    · rw [noteAll_groups_same off ch present,fresh.2.2]
      constructor
      · intro wrong
        cases wrong
      · rintro ⟨_,groups,listed,_⟩
        exact absurd ⟨_,listed,rfl⟩ present

theorem Recorded.stray {ch : ClientHello} (recorded : Recorded b exts ch) :
    (ch.shares.any fun share => !ch.groups.contains share.1) = true ↔
      ∃ shares, .keyShare shares ∈ exts ∧ ∃ share ∈ shares, srvGroupKnown b share.1 = true ∧
        ∀ groups, .supportedGroups groups ∈ exts → share.1 ∉ groups := by
  rw [any_eq_true]
  constructor
  · rintro ⟨share,among,missing⟩
    obtain ⟨known,shares,present,entry,entryAmong,same⟩ :=
      (recorded.shares share.1).mp (mem_map.mpr ⟨share,among,rfl⟩)
    refine ⟨shares,present,entry,entryAmong,same ▸ known,fun list listed held => ?_⟩
    have kept := (recorded.groups share.1).mpr ⟨known,list,listed,same ▸ held⟩
    simp [kept] at missing
  · rintro ⟨shares,present,share,among,known,missing⟩
    have held := (recorded.shares share.1).mpr ⟨known,shares,present,share,among,rfl⟩
    obtain ⟨kept,keptAmong,same⟩ := mem_map.mp held
    refine ⟨kept,keptAmong,?_⟩
    rw [same,Bool.not_eq_true',contains_eq_mem,decide_eq_false_iff_not,recorded.groups]
    rintro ⟨_,groups,listed,inside⟩
    exact missing groups listed inside

/-- The check names the alert of the first rule that is broken. -/
theorem checkRequired_recorded {ch : ClientHello} (recorded : Recorded b exts ch) :
    (checkRequired ch = none ∧ Required b exts) ∨
      ∃ alert, checkRequired ch = some alert ∧ Lacks b exts alert := by
  have versions := recorded.saw extSupportedVersions rfl
  have psk := recorded.saw extPreSharedKey rfl
  have modes := recorded.saw extPskModes rfl
  have sigalgs := recorded.saw extSignatureAlgorithms rfl
  have groups := recorded.saw extSupportedGroups rfl
  have keyShare := recorded.saw extKeyShare rfl
  have halves : (ch.saw extSupportedGroups != ch.saw extKeyShare) = true ↔
      ¬ (Has exts extSupportedGroups ↔ Has exts extKeyShare) := by
    rw [bne_iff_ne,ne_eq,Bool.eq_iff_iff,groups,keyShare]
  classical
  unfold checkRequired
  simp only [Bool.and_eq_true,Bool.not_eq_true',← Bool.not_eq_true,versions,psk,modes,sigalgs,
    groups,halves,recorded.stray]
  -- What each test leaves is what the later rules assume.
  split_ifs with versions noModes noAuth halves stray
  · exact .inr ⟨_,rfl,.modes versions noModes.1 noModes.2⟩
  · exact .inr ⟨_,rfl,.certificate versions noAuth.1 noAuth.2⟩
  · obtain ⟨shares,present,share,among,known,missing⟩ := stray
    exact .inr ⟨_,rfl,.listed versions (not_and_not_right.mp noModes) (not_and_not_right.mp noAuth)
      halves shares share present among known missing⟩
  · refine .inl ⟨rfl,versions,not_and_not_right.mp noModes,not_and_not_right.mp noAuth,halves,?_⟩
    intro shares present share among known
    by_contra missing
    exact stray ⟨shares,present,share,among,known,
      fun groups listed held => missing ⟨groups,listed,held⟩⟩
  · exact .inr ⟨_,rfl,.halves versions (not_and_not_right.mp noModes) (not_and_not_right.mp noAuth)
      halves⟩
  · exact .inr ⟨_,rfl,.versions versions⟩

end HelloExt

/-! ### Acceptance -/

def helloBytes (head : HelloHead) (block : Bytes) : Bytes :=
  helloHeadFormat.encode head ++ (be16 block.length ++ block)

structure HelloAccepted (b : Build) (body : Bytes) (head : HelloHead) (exts : List HelloExt) :
    Prop where
  form : helloHeadFormat.Form head
  null : head.compression = [0]
  spelled : body = helloBytes head (encodeAll (exts.map item))
  fits : ∀ ext ∈ exts, ext.item.Fits
  length : (encodeAll (exts.map item)).length < 65536
  count : exts.length ≤ clientHelloExtMax
  distinct : (exts.map type).Nodup
  allowed : ∀ ext ∈ exts, ext.Allowed b
  last : PskLast exts
  required : Required b exts

structure HelloFramed (body : Bytes) (head : HelloHead) (items : List Item) (rest : Bytes) :
    Prop where
  form : helloHeadFormat.Form head
  null : head.compression = [0]
  spelled : body = helloBytes head (encodeAll items ++ rest)
  fits : ∀ item ∈ items, item.Fits
  absent : Absent rest
  length : (encodeAll items ++ rest).length < 65536

structure Scanned (items : List Item) : Prop where
  count : items.length ≤ clientHelloExtMax
  distinct : (items.map Prod.fst).Nodup

/-- The rule that a ClientHello breaks, with the alert documented for it.  A rule
is judged where the message has followed those before it, so that there is one. -/
inductive HelloRefused (b : Build) (body : Bytes) : Nat → Prop
  /-- The fields before the extensions are malformed. -/
  | head (unspelled : ∀ head rest, helloHeadFormat.Form head →
        body ≠ helloHeadFormat.encode head ++ rest) :
      HelloRefused b body decodeError
  /-- The compression methods are not the null method alone. -/
  | compression (head : HelloHead) (rest : Bytes) (form : helloHeadFormat.Form head)
      (spelled : body = helloHeadFormat.encode head ++ rest) (other : head.compression ≠ [0]) :
      HelloRefused b body illegalParameter
  /-- The message ends before the extensions. -/
  | ended (head : HelloHead) (form : helloHeadFormat.Form head)
      (spelled : body = helloHeadFormat.encode head) (null : head.compression = [0]) :
      HelloRefused b body protocolVersion
  /-- The block's length is not that of what follows. -/
  | block (head : HelloHead) (rest : Bytes) (form : helloHeadFormat.Form head)
      (spelled : body = helloHeadFormat.encode head ++ rest) (null : head.compression = [0])
      (more : rest ≠ [])
      (unframed : ∀ block : Bytes, block.length < 65536 → rest ≠ be16 block.length ++ block) :
      HelloRefused b body decodeError
  /-- The block starts with more extensions than the parser takes. -/
  | many {head : HelloHead} {items : List Item} {rest : Bytes}
      (framed : HelloFramed body head items rest) (many : clientHelloExtMax < items.length) :
      HelloRefused b body illegalParameter
  /-- Two of the extensions at the block's front have one type. -/
  | twice {head : HelloHead} {items : List Item} {rest : Bytes}
      (framed : HelloFramed body head items rest) (count : items.length ≤ clientHelloExtMax)
      (repeated : ¬ (items.map Prod.fst).Nodup) : HelloRefused b body illegalParameter
  /-- Something follows `pre_shared_key`. -/
  | late {head : HelloHead} {items : List Item} {rest : Bytes}
      (framed : HelloFramed body head items rest) (scanned : Scanned items)
      (exts : List HelloExt) (psk : HelloExt) (after : List Item)
      (spelled : items = (exts ++ [psk]).map item ++ after)
      (allowed : ∀ ext ∈ exts ++ [psk], ext.Allowed b) (first : ¬ Has exts extPreSharedKey)
      (found : psk.type = extPreSharedKey) (more : after ≠ [] ∨ rest ≠ []) :
      HelloRefused b body illegalParameter
  /-- The block ends inside an extension. -/
  | short {head : HelloHead} {items : List Item} {rest : Bytes}
      (framed : HelloFramed body head items rest) (scanned : Scanned items)
      (exts : List HelloExt) (spelled : exts.map item = items)
      (allowed : ∀ ext ∈ exts, ext.Allowed b) (first : ¬ Has exts extPreSharedKey)
      (more : rest ≠ []) : HelloRefused b body decodeError
  /-- An extension breaks a rule of its own, and those before it do not. -/
  | extension {head : HelloHead} {items : List Item} {rest : Bytes}
      (framed : HelloFramed body head items rest) (scanned : Scanned items)
      (exts : List HelloExt) (item : Item) (after : List Item) (alert : Nat)
      (spelled : items = exts.map HelloExt.item ++ item :: after)
      (allowed : ∀ ext ∈ exts, ext.Allowed b) (first : ¬ Has exts extPreSharedKey)
      (breaks : Breaks b item.1 item.2 alert) : HelloRefused b body alert
  /-- All extensions are allowed, and together they lack something. -/
  | lacks {head : HelloHead} {items : List Item} (framed : HelloFramed body head items [])
      (scanned : Scanned items) (exts : List HelloExt) (alert : Nat)
      (spelled : exts.map item = items) (allowed : ∀ ext ∈ exts, ext.Allowed b)
      (last : PskLast exts) (lacking : Lacks b exts alert) :
      HelloRefused b body alert

section Verdict

variable {c : Crypto} {b : Build} {offered : List Bytes}

theorem map_item_types (exts : List HelloExt) : (exts.map item).map Prod.fst = exts.map type := by
  rw [map_map]
  rfl

def walkBlock (b : Build) (offered : List Bytes) (block : Bytes) :
    Proc (Nat × ClientHello) Nat Unit :=
  rbForItems shortExtension (parseExtension b offered) block.length ⟨block,false⟩

section Block

variable {head block : Bytes} {ch : ClientHello}

theorem parseExtensions_scanned (held : (srvExtOverMax block || srvExtDuplicate block) = true) :
    parseExtensions c b offered head ⟨block,false⟩ ch = .error illegalParameter := by
  unfold parseExtensions
  dsimp only
  rw [if_pos held]

theorem parseExtensions_stopped (clear : (srvExtOverMax block || srvExtDuplicate block) = false)
    {alert : Nat} (stopped : (walkBlock b offered block (head.length + 2, ch)).1 = .error alert) :
    parseExtensions c b offered head ⟨block,false⟩ ch = .error alert := by
  unfold parseExtensions
  dsimp only
  rw [if_neg (by simp [clear]),rbLeft_live]
  unfold walkBlock at stopped
  rcases ran : rbForItems shortExtension (parseExtension b offered) block.length ⟨block,false⟩
    (head.length + 2, ch) with ⟨result,state⟩
  rw [ran] at stopped
  cases stopped
  rfl

theorem parseExtensions_walked (clear : (srvExtOverMax block || srvExtDuplicate block) = false)
    {state : Nat × ClientHello}
    (ran : walkBlock b offered block (head.length + 2, ch) = (.ok (), state)) :
    ∃ frozen, parseExtensions c b offered head ⟨block,false⟩ ch =
      (checkRequired state.2).elim (.ok { state.2 with frozen := frozen }) .error := by
  unfold parseExtensions
  dsimp only
  unfold walkBlock at ran
  rw [if_neg (by simp [clear]),rbLeft_live,ran]
  have same : ∀ frozen, checkRequired { state.2 with frozen := frozen } = checkRequired state.2 :=
    fun _ => rfl
  simp only [same]
  cases checkRequired state.2 with
  | none => exact ⟨_,rfl⟩
  | some alert => exact ⟨[],rfl⟩

end Block

theorem parseHead_spelled {body rest : Bytes} {front : HelloHead}
    (form : helloHeadFormat.Form front) (spelled : body = helloHeadFormat.encode front ++ rest) :
    parseHead b (rbInit body) ClientHello.zero =
      if front.compression = [0] then .ok (front.keep b ClientHello.zero, ⟨rest,false⟩)
      else .error illegalParameter := by
  rw [spelled]
  exact parseHead_encode form rest ClientHello.zero

theorem srvParseClientHello_of_head {front : HelloHead} (form : helloHeadFormat.Form front)
    (null : front.compression = [0]) {block : Bytes} (length : block.length < 65536) :
    srvParseClientHello c b (helloBytes front block) offered =
      parseExtensions c b offered
        ((helloBytes front block).take ((helloBytes front block).length - (block.length + 2)))
        ⟨block,false⟩ (front.keep b ClientHello.zero) := by
  unfold srvParseClientHello
  rw [@parseHead_spelled b (helloBytes front block) _ front form rfl,if_pos null]
  have more : ¬ rbLeft ⟨be16 block.length ++ block,false⟩ = 0 := by simp
  have left : rbLeft ⟨be16 block.length ++ block,false⟩ = block.length + 2 := by
    simp [Nat.add_comm]
  have read := rbU16_be16 block.length block length
  dsimp only
  rw [if_neg more,read,left]
  simp

theorem HelloHead.keep_fresh (front : HelloHead) :
    (front.keep b ClientHello.zero).seen = [] ∧ (front.keep b ClientHello.zero).shares = [] ∧
      (front.keep b ClientHello.zero).groups = [] := ⟨rfl,rfl,rfl⟩

section Framed

variable {body : Bytes} {front : HelloHead} {items : List Item} {rest : Bytes}
  (framed : HelloFramed body front items rest)

include framed

theorem HelloFramed.parsed : ∃ head, srvParseClientHello c b body offered =
    parseExtensions c b offered head ⟨encodeAll items ++ rest,false⟩
      (front.keep b ClientHello.zero) := by
  obtain ⟨form,null,rfl,_,_,length⟩ := framed
  exact ⟨_,srvParseClientHello_of_head form null length⟩

theorem HelloFramed.clear (scanned : Scanned items) :
    (srvExtOverMax (encodeAll items ++ rest) ||
      srvExtDuplicate (encodeAll items ++ rest)) = false := by
  simp [srvExtOverMax_items framed.fits framed.absent,
    srvExtDuplicate_items framed.fits framed.absent,scanned.distinct,Nat.not_lt.mpr scanned.count]

theorem HelloFramed.walked (state : Nat × ClientHello) :
    walkBlock b offered (encodeAll items ++ rest) state =
      (do runItems (parseExtension b offered) items
          if rest = [] then Proc.ret () else shortExtension) state :=
  congrFun (rbForItems_split _ _ framed.fits framed.absent (Nat.le_refl _)) state

/-- The walk passes over extensions that are allowed, so that the message is
stopped where what follows them is. -/
theorem HelloFramed.stopped (scanned : Scanned items) {exts : List HelloExt} {after : List Item}
    {alert : Nat} (spelled : exts.map item ++ after = items)
    (allowed : ∀ ext ∈ exts, ext.Allowed b) (last : PskLast exts)
    (stops : ∀ off ch, (ch.saw extPreSharedKey = true ↔ Has exts extPreSharedKey) → ((do
      runItems (parseExtension b offered) after
      if rest = [] then Proc.ret () else shortExtension) (off, ch)).1 = .error alert) :
    srvParseClientHello c b body offered = .error alert := by
  obtain ⟨head,parsed⟩ := @HelloFramed.parsed c b offered _ _ _ _ framed
  obtain ⟨next,ran⟩ := @runItems_allowed b offered (head.length + 2)
    (front.keep b ClientHello.zero) exts rfl allowed last after
  rw [parsed]
  refine parseExtensions_stopped (framed.clear scanned) ?_
  rw [framed.walked,← spelled,Proc.bind_apply,ran]
  refine stops next _ ((noteAll_saw ..).trans ?_)
  simp [show (front.keep b ClientHello.zero).saw extPreSharedKey = false from rfl,
    show srvExtKnown extPreSharedKey = true from rfl]

omit framed in
/-- Where the extensions are allowed and stand to the end of the block, they
are judged together. -/
theorem HelloFramed.judged {exts : List HelloExt}
    (framed : HelloFramed body front (exts.map item) [])
    (scanned : Scanned (exts.map item)) (allowed : ∀ ext ∈ exts, ext.Allowed b)
    (last : PskLast exts) :
    (Required b exts ∧ ∃ off frozen, srvParseClientHello c b body offered =
      .ok { noteAll b offered off exts (front.keep b ClientHello.zero) with
        frozen := frozen }) ∨
    ∃ alert, Lacks b exts alert ∧ srvParseClientHello c b body offered = .error alert := by
  obtain ⟨head,parsed⟩ := @HelloFramed.parsed c b offered _ _ _ _ framed
  obtain ⟨next,ran⟩ := @runItems_allowed b offered (head.length + 2)
    (front.keep b ClientHello.zero) exts rfl allowed last []
  rw [append_nil] at ran
  obtain ⟨frozen,ended⟩ := parseExtensions_walked (framed.clear scanned)
    ((framed.walked _).trans (bind_of_ok ran))
  rw [parsed,ended]
  rcases checkRequired_recorded (recorded_noteAll offered (head.length + 2)
    (@HelloHead.keep_fresh b front) (map_item_types exts ▸ scanned.distinct)
    fun ext among => (allowed ext among).1) with ⟨whole,required⟩ | ⟨alert,refused,lacks⟩
  · rw [whole]
    exact .inl ⟨required,_,frozen,rfl⟩
  · rw [refused]
    exact .inr ⟨alert,lacks,rfl⟩

end Framed

theorem HelloAccepted.framed {body : Bytes} {front : HelloHead} {exts : List HelloExt}
    (accepted : HelloAccepted b body front exts) :
    HelloFramed body front (exts.map item) [] ∧ Scanned (exts.map item) := by
  obtain ⟨form,null,spelled,fits,length,count,distinct,_,_,_⟩ := accepted
  refine ⟨⟨form,null,by rw [append_nil,spelled],?_,absent_nil,by rw [append_nil]; exact length⟩,
    by rw [length_map]; exact count,by rw [map_item_types]; exact distinct⟩
  intro item among
  obtain ⟨ext,present,rfl⟩ := mem_map.mp among
  exact fits ext present

/-- A message that follows every rule is parsed, and what is kept of it is what
its extensions leave. -/
theorem HelloAccepted.parsed {body : Bytes} {front : HelloHead} {exts : List HelloExt}
    (accepted : HelloAccepted b body front exts) :
    ∃ off frozen, srvParseClientHello c b body offered =
      .ok { noteAll b offered off exts (front.keep b ClientHello.zero) with
        frozen := frozen } := by
  obtain ⟨framed,scanned⟩ := accepted.framed
  rcases framed.judged scanned accepted.allowed accepted.last with ⟨_,parsed⟩ | ⟨_,lacking,_⟩
  · exact parsed
  · exact absurd accepted.required lacking.not_required

/-- A message that breaks a rule is refused with the alert of the rule. -/
theorem HelloRefused.answered {body : Bytes} {alert : Nat} (refused : HelloRefused b body alert) :
    srvParseClientHello c b body offered = .error alert := by
  cases refused with
  | head unspelled =>
    rcases parseHead_cases b body ClientHello.zero with ⟨head,rest,form,same⟩ | malformed
    · exact absurd same (unspelled head rest form)
    · unfold srvParseClientHello
      rw [show parseHead b (rbInit body) ClientHello.zero = _ from malformed]
  | compression head rest form spelled other =>
    unfold srvParseClientHello
    rw [parseHead_spelled form spelled,if_neg other]
  | ended head form spelled null =>
    unfold srvParseClientHello
    rw [parseHead_spelled form (spelled.trans (append_nil _).symm),if_pos null]
    rfl
  | block head rest form spelled null more unframed =>
    have left : ¬ rbLeft ⟨rest,false⟩ = 0 := fun ended => more (length_eq_zero_iff.mp ended)
    unfold srvParseClientHello
    rw [parseHead_spelled form spelled,if_pos null]
    dsimp only
    rw [if_neg left]
    rcases rbU16_cases rest with ⟨number,tail,bounded,rfl,read⟩ | ⟨_,failed⟩
    · have other : number ≠ tail.length := by
        rintro rfl
        exact unframed tail bounded rfl
      rw [read]
      simp [other]
    · simp [failed]
  | many framed many =>
    obtain ⟨head,parsed⟩ := @HelloFramed.parsed c b offered _ _ _ _ framed
    rw [parsed]
    exact parseExtensions_scanned (by simp [srvExtOverMax_items framed.fits framed.absent,many])
  | twice framed _ repeated =>
    obtain ⟨head,parsed⟩ := @HelloFramed.parsed c b offered _ _ _ _ framed
    rw [parsed]
    exact parseExtensions_scanned
      (by simp [srvExtDuplicate_items framed.fits framed.absent,repeated])
  | @late _ _ rest framed scanned exts psk after spelled allowed first found more =>
    refine framed.stopped scanned spelled.symm allowed (.snoc first psk) fun off ch saw => ?_
    have late : ch.saw extPreSharedKey = true := saw.mpr ⟨psk,by simp,found⟩
    cases after with
    | nil =>
      have left : rest ≠ [] := more.resolve_left fun missing => missing rfl
      simp [runItems,bind_apply,left,shortExtension,late]
    | cons second others =>
      exact stopped_bind (stopped_bind (parseExtension_late second.1 second.2 late))
  | short framed scanned exts spelled allowed first more =>
    refine framed.stopped scanned ((append_nil _).trans spelled) allowed (.of_absent first)
      fun off ch saw => ?_
    simp [runItems,bind_apply,more,shortExtension,saw.not.mpr first]
  | extension framed scanned exts item after alert spelled allowed first breaks =>
    refine framed.stopped scanned spelled.symm allowed (.of_absent first) fun off ch saw => ?_
    exact stopped_bind (stopped_bind
      (parseExtension_breaks (Bool.eq_false_iff.mpr (saw.not.mpr first)) breaks))
  | lacks framed scanned exts alert spelled allowed last lacking =>
    subst spelled
    rcases framed.judged scanned allowed last with ⟨required,_⟩ | ⟨reason,lacks,refused⟩
    · exact absurd required lacking.not_required
    · rw [refused,lacks.unique lacking]

/-- Every message is of the grammar and follows its rules, or breaks one. -/
theorem hello_cases (b : Build) (body : Bytes) :
    (∃ head exts, HelloAccepted b body head exts) ∨ ∃ alert, HelloRefused b body alert := by
  by_cases headed : ∃ head rest, helloHeadFormat.Form head ∧
      body = helloHeadFormat.encode head ++ rest
  swap
  · exact .inr ⟨_,.head fun head rest form same => headed ⟨head,rest,form,same⟩⟩
  obtain ⟨head,rest,form,rfl⟩ := headed
  by_cases null : head.compression = [0]
  swap
  · exact .inr ⟨_,.compression head rest form rfl null⟩
  rcases eq_or_ne rest [] with rfl | more
  · exact .inr ⟨_,.ended head form (append_nil _) null⟩
  by_cases blocked : ∃ block : Bytes, block.length < 65536 ∧ rest = be16 block.length ++ block
  swap
  · exact .inr ⟨_,.block head rest form rfl null more fun block length same =>
      blocked ⟨block,length,same⟩⟩
  obtain ⟨block,length,rfl⟩ := blocked
  obtain ⟨items,tail,fits,absent,rfl⟩ := exists_split block
  have framed : HelloFramed (helloBytes head (encodeAll items ++ tail)) head items tail :=
    ⟨form,null,rfl,fits,absent,length⟩
  change (∃ front exts, HelloAccepted b (helloBytes head (encodeAll items ++ tail)) front exts) ∨
    ∃ alert, HelloRefused b (helloBytes head (encodeAll items ++ tail)) alert
  by_cases many : clientHelloExtMax < items.length
  · exact .inr ⟨_,.many framed many⟩
  by_cases distinct : (items.map Prod.fst).Nodup
  swap
  · exact .inr ⟨_,.twice framed (Nat.le_of_not_lt many) distinct⟩
  have scanned : Scanned items := ⟨Nat.le_of_not_lt many,distinct⟩
  rcases items_cases b items with ⟨exts,spelled,allowed,last⟩ |
    ⟨exts,psk,after,spelled,more,allowed,first,found⟩ |
    ⟨exts,item,after,alert,spelled,allowed,first,breaks⟩
  · have count := scanned.count
    rw [← spelled,length_map] at count
    have types : (exts.map type).Nodup := by
      rw [← map_item_types,spelled]
      exact distinct
    rcases eq_or_ne tail [] with rfl | left
    · rcases checkRequired_recorded (recorded_noteAll [] 0
        (@HelloHead.keep_fresh b head) types fun ext among => (allowed ext among).1) with
        ⟨_,required⟩ | ⟨alert,_,lacking⟩
      · rw [append_nil] at length
        refine .inl ⟨head,exts,form,null,by rw [spelled,append_nil],?_,?_,count,types,allowed,last,
          required⟩
        · exact fun ext among => fits ext.item (spelled ▸ mem_map_of_mem among)
        · rw [spelled]
          exact length
      · exact .inr ⟨alert,.lacks framed scanned exts alert spelled allowed last lacking⟩
    by_cases psk : Has exts extPreSharedKey
    · obtain ⟨found,among,same⟩ := psk
      obtain ⟨before,after,rfl⟩ := append_of_mem among
      cases last before found after rfl same
      have first : ¬ Has before extPreSharedKey := by
        rintro ⟨other,inside,psk⟩
        obtain ⟨early,late,rfl⟩ := append_of_mem inside
        exact absurd (last early other (late ++ [found]) (by simp) psk) (by simp)
      exact .inr ⟨_,.late framed scanned before found [] (by rw [spelled,append_nil]) allowed first
        same (.inr left)⟩
    · exact .inr ⟨_,.short framed scanned exts spelled allowed psk left⟩
  · exact .inr ⟨_,.late framed scanned exts psk after spelled allowed first found (.inl more)⟩
  · exact .inr ⟨alert,.extension framed scanned exts item after alert spelled allowed first breaks⟩

theorem accepted_of_parsed {body : Bytes} {out : ClientHello}
    (parsed : srvParseClientHello c b body offered = .ok out) :
    ∃ head exts, HelloAccepted b body head exts := by
  rcases hello_cases b body with accepted | ⟨alert,refused⟩
  · exact accepted
  · cases parsed.symm.trans refused.answered

/-- The parser accepts exactly the messages of the grammar that follow every
rule, and answers each other one with the alert of the rule it breaks, which is
no other. -/
theorem srvParseClientHello_exact (c : Crypto) (b : Build) (body : Bytes) (offered : List Bytes) :
    ((∃ out, srvParseClientHello c b body offered = .ok out) ↔
        ∃ head exts, HelloAccepted b body head exts) ∧
      ∀ alert, srvParseClientHello c b body offered = .error alert ↔ HelloRefused b body alert := by
  have accepts : (∃ head exts, HelloAccepted b body head exts) →
      ∃ out, srvParseClientHello c b body offered = .ok out := by
    rintro ⟨head,exts,accepted⟩
    obtain ⟨_,_,parsed⟩ := @HelloAccepted.parsed c b offered body head exts accepted
    exact ⟨_,parsed⟩
  refine ⟨⟨?_,accepts⟩,fun alert => ⟨fun stopped => ?_,HelloRefused.answered⟩⟩
  · rintro ⟨out,parsed⟩
    exact accepted_of_parsed parsed
  · rcases hello_cases b body with accepted | ⟨reason,refused⟩
    · obtain ⟨out,parsed⟩ := accepts accepted
      cases stopped.symm.trans parsed
    · cases stopped.symm.trans refused.answered
      exact refused

end Verdict

def sampleHelloHead : HelloHead where
  version := 0x0303
  random := zeros 32
  sessionId := []
  suites := [suiteChacha20Poly1305Sha256]
  compression := [0]

def sampleHelloExts : List HelloExt :=
  [.supportedVersions [tls13],.supportedGroups [groupX25519],
    .keyShare [(groupX25519, zeros 32),(groupX25519, zeros 32)],.pskModes [1],
    .preSharedKey [([7], zeros 4)] [zeros 32,zeros 32]]

def sampleSpareHello : Bytes :=
  helloBytes sampleHelloHead (encodeAll (sampleHelloExts.map item))

/-- The parser compares neither the number of binders with that of identities nor
the groups of the shares with each other. -/
theorem srvParseClientHello_spare_binder :
    (srvParseClientHello Crypto.sample (.plain .tcpBlocking .server) sampleSpareHello []).isOk =
        true ∧
      .preSharedKey [([7], zeros 4)] [zeros 32,zeros 32] ∈ sampleHelloExts ∧
      .keyShare [(groupX25519, zeros 32),(groupX25519, zeros 32)] ∈ sampleHelloExts := by
  decide +kernel

end Chapulin
