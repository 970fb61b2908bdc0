/-
What a second ClientHello must repeat: the digest of the frozen fields.

`add_frozen_extensions` sorts the covered extensions without storing them.  Each
pass of `next_covered` reads the block again for the least type above the last
one.  The bytes it hands to the digest say which extensions the block holds, and
nothing of their order.
-/

import Chapulin.Lib.Selection
import Chapulin.Server.Accept

namespace Chapulin

open Lib List Item

variable {body : Bytes} {hello : ClientHello} {offered : List Bytes}

/-! ### The passes over the block -/

def Item.covered (items : List Item) : List Item := items.filter fun item => frozenCovers item.1

section Passes

variable {items : List Item} {lowest : Nat}

theorem takesCovered_eq (found : Option Item) (item : Item) :
    takesCovered lowest found item =
      (frozenCovers item.1 && Selection.takes Prod.fst lowest found item) := rfl

theorem nextCoveredFrom_items (fits : ∀ item ∈ items, item.Fits) {fuel : Nat}
    (enough : items.length ≤ fuel) (found : Option Item) :
    nextCoveredFrom lowest fuel found ⟨encodeAll items,false⟩ =
      Selection.leastFrom Prod.fst lowest found (Item.covered items) := by
  induction items generalizing fuel found with
  | nil => cases fuel <;> rfl
  | cons item items ih =>
    obtain ⟨fuel,rfl⟩ : ∃ less, fuel = less + 1 := ⟨fuel - 1,by simp at enough; omega⟩
    have read := rbItem_encode (fits item mem_cons_self) (encodeAll items)
    have others := @ih (forall_mem_cons.mp fits).2 fuel
      (by simpa using enough)
    rw [encodeAll_cons,nextCoveredFrom,if_neg (rbLeft_encode item _),read]
    dsimp only
    rw [others,takesCovered_eq,Item.covered,Item.covered,filter_cons]
    by_cases covers : frozenCovers item.1 = true
    · rw [if_pos covers,Selection.leastFrom_cons,covers,Bool.true_and]
    · rw [if_neg covers,Bool.not_eq_true _ |>.mp covers,Bool.false_and]
      rfl

theorem addFrozenExtensions_items (fits : ∀ item ∈ items, item.Fits) (passes : Nat) :
    addFrozenExtensions (encodeAll items) passes lowest =
      (Selection.ascending Prod.fst (Item.covered items) passes lowest).map
        fun found => found.map encode := by
  induction passes generalizing lowest with
  | zero => rfl
  | succ passes ih =>
    have pass : nextCoveredFrom lowest (encodeAll items).length none
        (rbInit (encodeAll items)) = Selection.least Prod.fst lowest (Item.covered items) :=
      nextCoveredFrom_items fits (length_le_encodeAll_length items) none
    rw [addFrozenExtensions,Selection.ascending,pass]
    cases Selection.least Prod.fst lowest (Item.covered items) with
    | none => rfl
    | some item =>
      dsimp only [Option.elim_some]
      rw [ih,Option.map_map,Option.map_map]
      rfl

/-- The passes end and list the covered extensions by ascending type. -/
theorem addFrozenExtensions_ends (fits : ∀ item ∈ items, item.Fits)
    (distinct : (items.map Prod.fst).Nodup) :
    ∃ found : List Item, found.Perm (Item.covered items) ∧
      found.Pairwise (fun first second => first.1 < second.1) ∧
      ∀ passes, items.length < passes →
        addFrozenExtensions (encodeAll items) passes 0 = some (found.map encode) := by
  have kept : ((Item.covered items).map Prod.fst).Nodup :=
    distinct.sublist (filter_sublist.map Prod.fst)
  have all : ((Item.covered items).filter fun item => 0 ≤ item.1) = Item.covered items := by
    simp
  have few : (Item.covered items).length ≤ items.length := length_filter_le _ _
  have sorts : ∀ passes, items.length < passes → ∃ found,
      Selection.ascending Prod.fst (Item.covered items) passes 0 = some found ∧
        found.Perm (Item.covered items) ∧
        found.Pairwise fun first second => first.1 < second.1 := by
    intro passes enough
    have sorted := @Selection.ascending_sorts _ Prod.fst 0 _ kept passes (by rw [all]; omega)
    rw [all] at sorted
    exact sorted
  obtain ⟨found,ended,perm,ordered⟩ := sorts (items.length + 1) (Nat.lt_succ_self _)
  refine ⟨found,perm,ordered,fun passes enough => ?_⟩
  obtain ⟨again,endedAgain,permAgain,orderedAgain⟩ := sorts passes enough
  rw [addFrozenExtensions_items fits,endedAgain,
    Selection.eq_of_sorted_perm orderedAgain ordered (permAgain.trans perm.symm)]
  rfl

end Passes

/-! ### What the digest tells apart -/

/-- A head can be told from what follows it. -/
theorem helloHeadFormat_delimited : helloHeadFormat.Delimited := by
  intro first second left right firstForm secondForm same
  obtain ⟨versions,randoms,sessions,suites,compressions⟩ := firstForm
  obtain ⟨versions',randoms',sessions',suites',compressions'⟩ := secondForm
  have sessionShort : first.sessionId.length < 256 := by omega
  have sessionShort' : second.sessionId.length < 256 := by omega
  simp only [helloHeadFormat,append_assoc] at same
  obtain ⟨version,afterVersion⟩ := Format.delimited_code versions versions' same
  obtain ⟨random,afterRandom⟩ := append_inj afterVersion (randoms.trans randoms'.symm)
  obtain ⟨sessionId,afterSession⟩ := Format.delimited_vector8 0 ⟨Nat.zero_le _,sessionShort⟩
    ⟨Nat.zero_le _,sessionShort'⟩ afterRandom
  obtain ⟨suite,afterSuites⟩ := Format.delimited_code.list16 (fun _ => cons_ne_nil _ _) 2
    suites suites' afterSession
  obtain ⟨compression,rests⟩ := Format.delimited_vector8 0 ⟨Nat.zero_le _,compressions⟩
    ⟨Nat.zero_le _,compressions'⟩ afterSuites
  refine ⟨?_,rests⟩
  cases first
  cases second
  simp only [HelloHead.mk.injEq]
  exact ⟨version,random,sessionId,suite,compression⟩

structure FrozenUpdates (c : Crypto) (body : Bytes) (hello : ClientHello) (head : HelloHead)
    (items : List Item) (updates : List Bytes) : Prop where
  framed : HelloFramed body head items []
  /-- The passes end, and more of them would add nothing. -/
  ended : ∀ passes, items.length < passes →
    addFrozenExtensions (encodeAll items) passes 0 = some updates
  /-- Each covered extension is one update. -/
  once : updates.Perm ((Item.covered items).map encode)
  distinct : (items.map Prod.fst).Nodup
  digest : hello.frozen = c.hash sha256Len (helloHeadFormat.encode head ++ updates.flatten)

section Digest

variable {c : Crypto} {b : Build}

theorem parseExtensions_frozen {head block : Bytes} {ch out : ClientHello}
    (parsed : parseExtensions c b offered head ⟨block,false⟩ ch = .ok out) :
    out.frozen = c.hash sha256Len (head ++
      ((addFrozenExtensions block (block.length + 1) 0).getD []).flatten) := by
  unfold parseExtensions at parsed
  dsimp only at parsed
  split at parsed
  · cases parsed
  · split at parsed
    · cases parsed
    · split at parsed
      · cases parsed
      · cases parsed
        rfl

theorem helloBytes_head (head : HelloHead) (block : Bytes) :
    (helloBytes head block).take ((helloBytes head block).length - (block.length + 2)) =
      helloHeadFormat.encode head := by
  have rest : (helloBytes head block).length - (block.length + 2) =
      (helloHeadFormat.encode head).length := by
    simp only [helloBytes,length_append,be16_length]
    omega
  rw [rest,helloBytes,take_left]

theorem HelloFramed.frozenUpdates
    {head : HelloHead} {items : List Item} (framed : HelloFramed body head items [])
    (distinct : (items.map Prod.fst).Nodup)
    (parsed : srvParseClientHello c b body offered = .ok hello) :
    ∃ updates, FrozenUpdates c body hello head items updates := by
  obtain ⟨found,perm,_,ended⟩ := addFrozenExtensions_ends framed.fits distinct
  refine ⟨found.map encode,framed,ended,perm.map _,distinct,?_⟩
  have spelled := framed.spelled
  have length := framed.length
  rw [append_nil] at spelled length
  rw [spelled,srvParseClientHello_of_head framed.form framed.null length,helloBytes_head] at parsed
  rw [parseExtensions_frozen parsed,
    ended _ (Nat.lt_succ_of_le (length_le_encodeAll_length items)),Option.getD_some]

theorem frozenUpdates_of_parsed (parsed : srvParseClientHello c b body offered = .ok hello) :
    ∃ head items updates, FrozenUpdates c body hello head items updates := by
  obtain ⟨head,exts,accepted⟩ := accepted_of_parsed parsed
  obtain ⟨framed,scanned⟩ := accepted.framed
  exact ⟨head,_,framed.frozenUpdates scanned.distinct parsed⟩

theorem FrozenUpdates.sorted {head : HelloHead} {items : List Item} {updates : List Bytes}
    (frozen : FrozenUpdates c body hello head items updates) :
    ∃ found : List Item, found.Perm (Item.covered items) ∧
      found.Pairwise (fun first second => first.1 < second.1) ∧
      updates = found.map encode := by
  obtain ⟨found,perm,ordered,ended⟩ :=
    addFrozenExtensions_ends frozen.framed.fits frozen.distinct
  have same := (frozen.ended _ (Nat.lt_succ_self _)).symm.trans (ended _ (Nat.lt_succ_self _))
  exact ⟨found,perm,ordered,Option.some.inj same⟩

theorem encodeAll_injective {left right : List Item} (leftFits : ∀ item ∈ left, item.Fits)
    (rightFits : ∀ item ∈ right, item.Fits)
    (same : encodeAll left = encodeAll right) : left = right := by
  have whole : encodeAll left ++ [] = encodeAll right ++ [] := by rw [same]
  exact (split_unique leftFits rightFits absent_nil absent_nil whole).1

/-- For accepted messages the digest takes each covered extension once, whatever
their order, and its input tells the messages' frozen parts apart. -/
theorem frozenInput_eq_iff {left right : Bytes} {leftOffered rightOffered : List Bytes}
    {leftHello rightHello : ClientHello}
    (leftParsed : srvParseClientHello c b left leftOffered = .ok leftHello)
    (rightParsed : srvParseClientHello c b right rightOffered = .ok rightHello) :
    (∃ head items updates, FrozenUpdates c left leftHello head items updates) ∧
      (∃ head items updates, FrozenUpdates c right rightHello head items updates) ∧
      ∀ leftHead leftItems leftUpdates rightHead rightItems rightUpdates,
        FrozenUpdates c left leftHello leftHead leftItems leftUpdates →
        FrozenUpdates c right rightHello rightHead rightItems rightUpdates →
        (helloHeadFormat.encode leftHead ++ leftUpdates.flatten =
            helloHeadFormat.encode rightHead ++ rightUpdates.flatten ↔
          leftHead = rightHead ∧
            ∀ item, item ∈ Item.covered leftItems ↔ item ∈ Item.covered rightItems) := by
  refine ⟨frozenUpdates_of_parsed leftParsed,frozenUpdates_of_parsed rightParsed,?_⟩
  intro leftHead leftItems leftUpdates rightHead rightItems rightUpdates leftFrozen rightFrozen
  obtain ⟨leftFound,leftPerm,leftOrdered,rfl⟩ := leftFrozen.sorted
  obtain ⟨rightFound,rightPerm,rightOrdered,rfl⟩ := rightFrozen.sorted
  constructor
  · intro same
    obtain ⟨heads,extensions⟩ :=
      helloHeadFormat_delimited leftFrozen.framed.form rightFrozen.framed.form same
    have leftFits : ∀ item ∈ leftFound, item.Fits := fun item among =>
      leftFrozen.framed.fits item (mem_of_mem_filter (leftPerm.mem_iff.mp among))
    have rightFits : ∀ item ∈ rightFound, item.Fits := fun item among =>
      rightFrozen.framed.fits item (mem_of_mem_filter (rightPerm.mem_iff.mp among))
    have found := encodeAll_injective leftFits rightFits extensions
    refine ⟨heads,?_⟩
    intro item
    rw [← leftPerm.mem_iff,← rightPerm.mem_iff,found]
  · rintro ⟨rfl,sets⟩
    have leftNodup : (Item.covered leftItems).Nodup :=
      (Nodup.of_map _ leftFrozen.distinct).filter _
    have rightNodup : (Item.covered rightItems).Nodup :=
      (Nodup.of_map _ rightFrozen.distinct).filter _
    have perm := (perm_ext_iff_of_nodup leftNodup rightNodup).mpr sets
    rw [Selection.eq_of_sorted_perm leftOrdered rightOrdered
      ((leftPerm.trans perm).trans rightPerm.symm)]

end Digest

/-- A body is one ClientHello at most. -/
theorem HelloFramed.unique {body : Bytes} {head other : HelloHead} {items others : List Item}
    (first : HelloFramed body head items []) (second : HelloFramed body other others []) :
    head = other ∧ items = others := by
  have same := first.spelled.symm.trans second.spelled
  rw [append_nil,append_nil] at same
  obtain ⟨heads,blocks⟩ := helloHeadFormat_delimited first.form second.form same
  exact ⟨heads,encodeAll_injective first.fits second.fits (append_inj blocks rfl).2⟩

def sampleOffer : List HelloExt :=
  [.supportedVersions [tls13],.signatureAlgorithms [sigalgEcdsaP256Sha256],
    .supportedGroups [groupX25519],.keyShare [(groupX25519, zeros 32)]]

def sampleOfferHello (exts : List HelloExt) : Bytes :=
  helloBytes sampleHelloHead (encodeAll (exts.map HelloExt.item))

theorem sampleOfferHello_parsed (exts : List HelloExt)
    (accepted : exts = sampleOffer ∨ exts = sampleOffer.reverse) :
    ∃ hello, srvParseClientHello Crypto.sample (.plain .tcpBlocking .server) (sampleOfferHello exts)
      [] = .ok hello := by
  have isOk : (srvParseClientHello Crypto.sample (.plain .tcpBlocking .server)
      (sampleOfferHello exts) []).isOk = true := by
    rcases accepted with rfl | rfl <;> decide +kernel
  cases parsed : srvParseClientHello Crypto.sample (.plain .tcpBlocking .server)
      (sampleOfferHello exts) [] with
  | ok hello => exact ⟨hello,rfl⟩
  | error alert =>
    rw [parsed] at isOk
    cases isOk

/-- The reversed block gives the digest of the block. -/
theorem frozenInput_eq_iff_reversed :
    ∃ hello again,
      srvParseClientHello Crypto.sample (.plain .tcpBlocking .server) (sampleOfferHello sampleOffer)
          [] = .ok hello ∧
        srvParseClientHello Crypto.sample (.plain .tcpBlocking .server)
          (sampleOfferHello sampleOffer.reverse) [] = .ok again ∧
        hello.frozen = again.frozen := by
  obtain ⟨hello,parsed⟩ := sampleOfferHello_parsed sampleOffer (.inl rfl)
  obtain ⟨again,reparsed⟩ := sampleOfferHello_parsed sampleOffer.reverse (.inr rfl)
  refine ⟨hello,again,parsed,reparsed,?_⟩
  obtain ⟨⟨head,items,updates,frozen⟩,⟨head',items',updates',frozen'⟩,told⟩ :=
    frozenInput_eq_iff parsed reparsed
  have form : helloHeadFormat.Form sampleHelloHead := by
    unfold helloHeadFormat Format.list16 Format.code
    decide +kernel
  have fits : ∀ item ∈ sampleOffer.map HelloExt.item, item.Fits := by
    unfold Fits
    decide +kernel
  obtain ⟨rfl,rfl⟩ := frozen.framed.unique
    ⟨form,rfl,by rw [append_nil]; rfl,fits,absent_nil,by decide +kernel⟩
  obtain ⟨rfl,rfl⟩ := frozen'.framed.unique
    ⟨form,rfl,by rw [append_nil]; rfl,fun item among => fits item (by simpa using among),
      absent_nil,by decide +kernel⟩
  have inputs := (told _ _ _ _ _ _ frozen frozen').mpr ⟨rfl,by simp [Item.covered]⟩
  rw [frozen.digest,frozen'.digest,inputs]

end Chapulin
