/-
The certificate files an operator provisions: a server's chain and a client's
trust anchors (`pem_files.c`).

Both calls read CERTIFICATE blocks into one room until the text ends; they
differ in when they are full and in what they keep of a certificate.  `CertFile`
says which texts they accept, and the calls are settled against it in both
directions.
-/

import Chapulin.Pem.SubjectKey

namespace Chapulin

open Lib List

variable {pem : Bytes} {certs : List CertificateOuter} {derLen : Nat}

/-- What a call leaves in its caller's rooms: its result, the count it reports, the entries it
filled and the DER. -/
structure PemCall (ε : Type) where
  ret : Except Rc Unit
  count : Nat
  entries : List ε
  der : Wbuf

section Loop

variable {ε : Type} (full : Nat → Bool) (entry : DerRange → Bytes → Option ε)

/-- The loop of both calls; every round that goes on takes a block, so the length of the text
bounds the rounds. -/
def certLoop : (rounds : Nat) → PemBlocks → Wbuf → List ε → Bool × List ε × Wbuf
  | 0, _, w, entries => (false, entries, w)
  | rounds + 1, blocks, w, entries =>
    match pemBlocksNext .certificate blocks w with
    | (.atEnd, _, w) => (true, entries, w)
    | (.refused, _, w) => (false, entries, w)
    | (.read block, blocks, w) =>
      if full entries.length then (false, entries, w)
      else
        match entry block (block.read w.out) with
        | none => (false, entries, w)
        | some e => certLoop rounds blocks w (entries ++ [e])

def certificatesFromPem (pem : Bytes) (derLen : Nat) : PemCall ε :=
  match certLoop full entry (pem.length + 1) (pemBlocksInit pem) (wbInit derLen) [] with
  | (false, entries, w) => { ret := .error .einval, count := 0, entries := entries, der := w }
  | (true, entries, w) =>
    if entries.length = 0 then
      { ret := .error .einval, count := 0, entries := entries, der := w }
    else { ret := .ok (), count := entries.length, entries := entries, der := w }

end Loop

/-- A chain's entry: the block, when it reads as a certificate (`is_certificate`). -/
def chainEntry (block : DerRange) (cert : Bytes) : Option DerRange :=
  (x509PemReadSubjectKey cert).map fun _ => block

def anchorEntry (block : DerRange) (cert : Bytes) : Option SubjectKey :=
  (x509PemReadSubjectKey cert).map (SubjectKey.shift block.off)

def chChainFromPem (pem : Bytes) (derLen chainMax : Nat) : PemCall DerRange :=
  let call := certificatesFromPem (fun count => count == chainMax || count == 255) chainEntry pem
    derLen
  -- `chain_count` is one octet
  { call with count := call.count % 256 }

def chAnchorsFromPem (pem : Bytes) (derLen anchorMax : Nat) : PemCall SubjectKey :=
  certificatesFromPem (fun count => count == anchorMax) anchorEntry pem derLen

/-! ### What the loop accepts -/

section Loop

variable {ε : Type} {full : Nat → Bool} {entry : DerRange → Bytes → Option ε}

/-- The entries of blocks that stand one behind the other from `off` on. -/
def entriesFrom (entry : DerRange → Bytes → Option ε) : Nat → List Bytes → Option (List ε)
  | _, [] => some []
  | off, der :: more =>
    match entry ⟨off,der.length⟩ der, entriesFrom entry (off + der.length) more with
    | some e, some rest => some (e :: rest)
    | _, _ => none

/-- The blocks a text may hold behind `done` entries for the loop to reach its end. -/
structure Loaded (full : Nat → Bool) (entry : DerRange → Bytes → Option ε) (started : Bool)
    (text : Bytes) (w : Wbuf) (done : Nat) (ders : List Bytes) (entries : List ε) : Prop where
  text : RestBlocks started text (ders.map fun der => (.certificate, der))
  admitted : ∀ k, k < ders.length → full (done + k) = false
  room : w.Holds ders.flatten.length
  entries : entriesFrom entry w.out.length ders = some entries

theorem entriesFrom_cons {off : Nat} {der : Bytes} {more : List Bytes} {all : List ε} :
    entriesFrom entry off (der :: more) = some all ↔
      ∃ e rest, entry ⟨off,der.length⟩ der = some e ∧
        entriesFrom entry (off + der.length) more = some rest ∧ all = e :: rest := by
  rw [entriesFrom]
  constructor
  · intro found
    split at found
    · rename_i e rest hasEntry hasRest
      cases found
      exact ⟨e,rest,hasEntry,hasRest,rfl⟩
    · cases found
  · rintro ⟨e,rest,hasEntry,hasRest,rfl⟩
    rw [hasEntry,hasRest]

theorem loaded_cons {started : Bool} {text rest der : Bytes} {w : Wbuf} {done : Nat}
    {ders : List Bytes} {entries : List ε} (same : ∀ blocks, RestBlocks started text blocks ↔
      ∃ more, blocks = (.certificate, der) :: more ∧ RestBlocks true rest more) :
    Loaded full entry started text w done ders entries ↔
      ∃ more e others, ders = der :: more ∧ entries = e :: others ∧ full done = false ∧
        entry ⟨w.out.length,der.length⟩ der = some e ∧
        Loaded full entry true rest (w.append der) (done + 1) more others := by
  constructor
  · intro loaded
    obtain ⟨blocks,split,behind⟩ := (same _).mp loaded.text
    cases ders with
    | nil => cases split
    | cons first more =>
      obtain ⟨⟨-,rfl⟩,rfl⟩ := (List.cons.inj split).imp_left Prod.mk.inj
      obtain ⟨e,others,hasEntry,hasOthers,rfl⟩ := entriesFrom_cons.mp loaded.entries
      refine ⟨more,e,others,rfl,rfl,loaded.admitted 0 (Nat.succ_pos _),hasEntry,behind,?_,?_,?_⟩
      · intro k inside
        have admitted := loaded.admitted (k + 1) (Nat.succ_lt_succ inside)
        rwa [Nat.add_comm k 1,← Nat.add_assoc] at admitted
      · have room := loaded.room
        rw [flatten_cons,length_append] at room
        exact Wbuf.holds_append.mpr room
      · simpa [Wbuf.append] using hasOthers
  · rintro ⟨more,e,others,rfl,rfl,notFull,hasEntry,loaded⟩
    refine ⟨(same _).mpr ⟨_,rfl,loaded.text⟩,?_,?_,?_⟩
    · intro k inside
      cases k with
      | zero => exact notFull
      | succ k =>
        rw [Nat.add_comm k 1,← Nat.add_assoc]
        exact loaded.admitted k (Nat.lt_of_succ_lt_succ inside)
    · rw [flatten_cons,length_append]
      exact Wbuf.holds_append.mp loaded.room
    · refine entriesFrom_cons.mpr ⟨e,others,hasEntry,?_,rfl⟩
      simpa [Wbuf.append] using loaded.entries

/-- The loop reaches its end exactly when what is left of the text holds blocks it can take, and
it then has taken them all. -/
theorem certLoop_eq_true {rounds : Nat} {started : Bool} {text : Bytes} {w last : Wbuf}
    {before all : List ε} (live : w.Live) (enough : text.length < rounds) :
    certLoop full entry rounds ⟨⟨text,false⟩,started⟩ w before = (true, all, last) ↔
      ∃ ders entries, Loaded full entry started text w before.length ders entries ∧
        all = before ++ entries ∧ last = w.append ders.flatten := by
  induction rounds generalizing started text w before with
  | zero => exact absurd enough (Nat.not_lt_zero _)
  | succ rounds ih =>
    rw [certLoop]
    rcases pemBlocksNext_cases .certificate started text live with
      ⟨⟨after,next⟩,blocks⟩ | ⟨⟨after,written,next⟩,blocks⟩ | ⟨der,rest,next,room,shorter,same⟩
    · rw [next]
      constructor
      · intro returned
        cases returned
        exact ⟨[],[],⟨(blocks []).mpr rfl,fun k inside => absurd inside (Nat.not_lt_zero k),
          live.inside,rfl⟩,(append_nil _).symm,(Wbuf.append_nil _).symm⟩
      · rintro ⟨ders,entries,loaded,rfl,rfl⟩
        have absent : ders = [] := map_eq_nil_iff.mp ((blocks _).mp loaded.text)
        subst absent
        cases loaded.entries
        rw [append_nil,flatten_nil,Wbuf.append_nil]
    · rw [next]
      constructor
      · intro returned
        cases returned
      · rintro ⟨ders,entries,loaded,-,-⟩
        obtain ⟨label,der,more,split,unfit⟩ := blocks _ loaded.text
        cases ders with
        | nil => cases split
        | cons first others =>
          obtain ⟨⟨rfl,rfl⟩,-⟩ := (List.cons.inj split).imp_left Prod.mk.inj
          refine absurd ⟨rfl,loaded.room.mono ?_⟩ unfit
          rw [flatten_cons,length_append]
          exact Nat.le_add_right _ _
    · rw [next]
      dsimp only
      simp only [loaded_cons same]
      have read : (⟨w.out.length,der.length⟩ : DerRange).read (w.append der).out = der := by
        have piece := DerRange.read_piece w.out der []
        rwa [append_nil] at piece
      rw [read]
      -- a room that is full or a block that does not read ends the loop
      cases isFull : full before.length with
      | true => simp
      | false =>
        rw [if_neg Bool.false_ne_true]
        rcases hasEntry : entry ⟨w.out.length,der.length⟩ der with _ | e
        · simp
        · dsimp only
          rw [ih (live.append room) (by omega),length_append,length_singleton]
          constructor
          · rintro ⟨ders,others,loaded,rfl,rfl⟩
            exact ⟨der :: ders,e :: others,⟨ders,e,others,rfl,rfl,rfl,rfl,loaded⟩,
              (append_cons ..).symm,Wbuf.append_append ..⟩
          · rintro ⟨_,_,⟨ders,found,others,rfl,rfl,-,same,loaded⟩,rfl,rfl⟩
            cases same
            exact ⟨ders,others,loaded,append_cons ..,(Wbuf.append_append ..).symm⟩

end Loop

/-! ### Certificates -/

/-- The text of a file of certificates the calls accept, with room for `derLen` octets and `limit`
entries. -/
structure CertFile (pem : Bytes) (derLen limit : Nat) (certs : List CertificateOuter) : Prop where
  /-- Every `-----BEGIN ` of the text opens one of the blocks, at the start of a line. -/
  text : PemText pem (certs.map fun f => (.certificate, f.encode))
  nonempty : certs ≠ []
  within : certs.length ≤ limit
  room : (certs.map CertificateOuter.encode).flatten.length ≤ derLen
  outer : ∀ f ∈ certs, f.Fits

/-- What a call keeps of certificates that stand one behind the other from `off` on. -/
def keptFrom {ε : Type} (keep : DerRange → SubjectKey → ε) : Nat → List CertificateOuter → List ε
  | _, [] => []
  | off, f :: more =>
    keep ⟨off,f.encode.length⟩ f.subjectKey :: keptFrom keep (off + f.encode.length) more

def chainOf (certs : List CertificateOuter) : List DerRange :=
  keptFrom (fun block _ => block) 0 certs

def anchorsOf (certs : List CertificateOuter) : List SubjectKey :=
  keptFrom (fun block key => key.shift block.off) 0 certs

section Kept

variable {ε : Type} {keep : DerRange → SubjectKey → ε}

theorem keptFrom_length (off : Nat) (certs : List CertificateOuter) :
    (keptFrom keep off certs).length = certs.length := by
  induction certs generalizing off with
  | nil => rfl
  | cons f more ih => rw [keptFrom,length_cons,length_cons,ih]

theorem entriesFrom_eq_some {off : Nat} {ders : List Bytes} {all : List ε} :
    entriesFrom (fun block cert => (x509PemReadSubjectKey cert).map (keep block)) off ders =
        some all ↔
      ∃ certs, ders = certs.map CertificateOuter.encode ∧ (∀ f ∈ certs, f.Fits) ∧
        all = keptFrom keep off certs := by
  induction ders generalizing off all with
  | nil =>
    constructor
    · intro found
      cases found
      exact ⟨[],rfl,fun _ among => absurd among not_mem_nil,rfl⟩
    · rintro ⟨certs,same,-,rfl⟩
      rw [map_eq_nil_iff.mp same.symm]
      rfl
  | cons der more ih =>
    rw [entriesFrom_cons]
    constructor
    · rintro ⟨e,rest,hasEntry,hasRest,rfl⟩
      obtain ⟨key,read,rfl⟩ := Option.map_eq_some_iff.mp hasEntry
      obtain ⟨f,fits,rfl,rfl⟩ := x509PemReadSubjectKey_eq_some.mp read
      obtain ⟨certs,rfl,allFit,rfl⟩ := ih.mp hasRest
      exact ⟨f :: certs,rfl,forall_mem_cons.mpr ⟨fits,allFit⟩,rfl⟩
    · rintro ⟨certs,same,allFit,rfl⟩
      cases certs with
      | nil => cases same
      | cons f certs =>
        obtain ⟨rfl,rfl⟩ := List.cons.inj same
        obtain ⟨fits,restFit⟩ := forall_mem_cons.mp allFit
        refine ⟨_,_,?_,ih.mpr ⟨certs,rfl,restFit,rfl⟩,rfl⟩
        rw [x509PemReadSubjectKey_encode fits]
        rfl

variable {full : Nat → Bool} {limit : Nat}

/-- The loop loads exactly the files that fit the buffer and the table. -/
theorem certLoop_file (below : ∀ k, k < limit → full k = false) (reached : full limit = true)
    {all : List ε} {last : Wbuf} :
    certLoop full (fun block cert => (x509PemReadSubjectKey cert).map (keep block))
        (pem.length + 1) (pemBlocksInit pem) (wbInit derLen) [] = (true, all, last) ∧ all ≠ [] ↔
      ∃ certs, CertFile pem derLen limit certs ∧ all = keptFrom keep 0 certs ∧
        last = ⟨(certs.map CertificateOuter.encode).flatten,derLen,false⟩ := by
  have live : (wbInit derLen).Live := ⟨rfl,Nat.zero_le _⟩
  have ran := @certLoop_eq_true ε full
    (fun block cert => (x509PemReadSubjectKey cert).map (keep block)) (pem.length + 1) false pem
    (wbInit derLen) last [] all live (Nat.lt_succ_self _)
  rw [pemBlocksInit,rbInit,ran]
  constructor
  · rintro ⟨⟨ders,entries,loaded,rfl,rfl⟩,nonempty⟩
    obtain ⟨certs,rfl,allFit,rfl⟩ := entriesFrom_eq_some.mp loaded.entries
    refine ⟨certs,⟨?_,?_,?_,?_,allFit⟩,rfl,rfl⟩
    · have text := loaded.text.2
      rwa [map_map] at text
    · rintro rfl
      exact nonempty rfl
    · by_contra beyond
      have inside : limit < (certs.map CertificateOuter.encode).length := by
        rw [length_map]
        omega
      have notFull := loaded.admitted limit inside
      rw [length_nil,Nat.zero_add,reached] at notFull
      cases notFull
    · have room := loaded.room
      rwa [Wbuf.Holds,wbInit,length_nil,Nat.zero_add] at room
  · rintro ⟨certs,file,rfl,rfl⟩
    refine ⟨⟨certs.map CertificateOuter.encode,keptFrom keep 0 certs,⟨⟨?_,?_⟩,?_,?_,?_⟩,rfl,rfl⟩,?_⟩
    · intro impossible
      cases impossible
    · rw [map_map]
      exact file.text
    · intro k inside
      rw [length_map] at inside
      rw [length_nil,Nat.zero_add]
      exact below k (Nat.lt_of_lt_of_le inside file.within)
    · rw [Wbuf.Holds,wbInit,length_nil,Nat.zero_add]
      exact file.room
    · exact entriesFrom_eq_some.mpr ⟨certs,rfl,file.outer,rfl⟩
    · intro empty
      have count := @keptFrom_length ε keep 0 certs
      rw [empty] at count
      exact file.nonempty (length_eq_zero_iff.mp count.symm)

def loadedCall (derLen : Nat) (certs : List CertificateOuter) (entries : List ε) : PemCall ε :=
  { ret := .ok ()
    count := certs.length
    entries := entries
    der := ⟨(certs.map CertificateOuter.encode).flatten,derLen,false⟩ }

theorem certificatesFromPem_loaded (keep : DerRange → SubjectKey → ε)
    (below : ∀ k, k < limit → full k = false)
    (reached : full limit = true) (file : CertFile pem derLen limit certs) :
    certificatesFromPem full (fun block cert => (x509PemReadSubjectKey cert).map (keep block)) pem
      derLen = loadedCall derLen certs (keptFrom keep 0 certs) := by
  obtain ⟨ran,nonempty⟩ := (certLoop_file below reached).mpr ⟨certs,file,rfl,rfl⟩
  rw [certificatesFromPem,ran]
  dsimp only
  rw [if_neg (fun empty => nonempty (length_eq_zero_iff.mp empty)),keptFrom_length,loadedCall]

/-- A text that is no certificate file yields nothing. -/
theorem certificatesFromPem_refused (keep : DerRange → SubjectKey → ε)
    (below : ∀ k, k < limit → full k = false)
    (reached : full limit = true) (absent : ∀ certs, ¬ CertFile pem derLen limit certs) :
    (certificatesFromPem full (fun block cert => (x509PemReadSubjectKey cert).map (keep block)) pem
        derLen).ret = .error .einval ∧
      (certificatesFromPem full (fun block cert =>
        (x509PemReadSubjectKey cert).map (keep block)) pem
        derLen).count = 0 := by
  rcases ran : certLoop full (fun block cert => (x509PemReadSubjectKey cert).map (keep block))
    (pem.length + 1) (pemBlocksInit pem) (wbInit derLen) [] with ⟨_ | _,all,last⟩
  · rw [certificatesFromPem,ran]
    exact ⟨rfl,rfl⟩
  · rw [certificatesFromPem,ran]
    dsimp only
    by_cases empty : all.length = 0
    · rw [if_pos empty]
      exact ⟨rfl,rfl⟩
    · have nonempty : all ≠ [] := fun same => empty (length_eq_zero_iff.mpr same)
      obtain ⟨certs,file,-⟩ := (certLoop_file below reached).mp ⟨ran,nonempty⟩
      exact absurd file (absent certs)

end Kept

/-! ### The two calls -/

private theorem chain_below (chainMax k : Nat) (less : k < min chainMax 255) :
    (k == chainMax || k == 255) = false := by
  simp only [Bool.or_eq_false_iff,beq_eq_false_iff_ne]
  omega

private theorem chain_reached (chainMax : Nat) :
    (min chainMax 255 == chainMax || min chainMax 255 == 255) = true := by
  simp only [Bool.or_eq_true,beq_iff_eq]
  omega

theorem chChainFromPem_loaded {chainMax : Nat}
    (file : CertFile pem derLen (min chainMax 255) certs) :
    chChainFromPem pem derLen chainMax = loadedCall derLen certs (chainOf certs) := by
  have small : certs.length % 256 = certs.length :=
    Nat.mod_eq_of_lt (by have within := file.within; omega)
  have call := certificatesFromPem_loaded (fun block _ => block) (chain_below chainMax)
    (chain_reached chainMax) file
  have keeps : chainEntry = fun block cert =>
      (x509PemReadSubjectKey cert).map ((fun block _ => block) block) := rfl
  rw [chChainFromPem,keeps,call]
  simp only [loadedCall,small]
  rfl

theorem chChainFromPem_refused {chainMax : Nat}
    (absent : ∀ certs, ¬ CertFile pem derLen (min chainMax 255) certs) :
    (chChainFromPem pem derLen chainMax).ret = .error .einval ∧
      (chChainFromPem pem derLen chainMax).count = 0 := by
  obtain ⟨ret,count⟩ := certificatesFromPem_refused (fun block _ => block) (chain_below chainMax)
    (chain_reached chainMax) absent
  refine ⟨ret,?_⟩
  change (certificatesFromPem _ chainEntry pem derLen).count % 256 = 0
  rw [show (certificatesFromPem _ chainEntry pem derLen).count = 0 from count]

theorem chAnchorsFromPem_loaded {anchorMax : Nat} (file : CertFile pem derLen anchorMax certs) :
    chAnchorsFromPem pem derLen anchorMax = loadedCall derLen certs (anchorsOf certs) :=
  certificatesFromPem_loaded (fun block key => key.shift block.off)
    (fun _ less => beq_false_of_ne (Nat.ne_of_lt less)) (beq_self_eq_true anchorMax) file

theorem chAnchorsFromPem_refused {anchorMax : Nat}
    (absent : ∀ certs, ¬ CertFile pem derLen anchorMax certs) :
    (chAnchorsFromPem pem derLen anchorMax).ret = .error .einval ∧
      (chAnchorsFromPem pem derLen anchorMax).count = 0 :=
  certificatesFromPem_refused (fun block key => key.shift block.off)
    (fun _ less => beq_false_of_ne (Nat.ne_of_lt less)) (beq_self_eq_true anchorMax) absent

/-- What the caller may read: the entries and the DER behind a result other than `CH_OK` are not
among it. -/
def PemCall.reported {ε : Type} (call : PemCall ε) :
    Except Rc Unit × Nat × Option (List ε × Bytes) :=
  (call.ret, call.count,
    match call.ret with
    | .ok _ => some (call.entries, call.der.out)
    | .error _ => none)

/-- A call succeeds on exactly the files of certificates, with the entries those give, and reports
no entry on any other text. -/
structure ReadsFile {ε : Type} (call : PemCall ε) (pem : Bytes) (derLen limit : Nat)
    (entries : List CertificateOuter → List ε) : Prop where
  ok : call.ret = .ok () ↔ ∃ certs, CertFile pem derLen limit certs
  filled : ∀ certs, CertFile pem derLen limit certs → call = loadedCall derLen certs (entries certs)
  refused : call.ret ≠ .ok () → call.ret = .error .einval ∧ call.count = 0

theorem readsFile_of {ε : Type} {call : PemCall ε} {limit : Nat}
    {entries : List CertificateOuter → List ε} (filled : ∀ certs, CertFile pem derLen limit certs →
      call = loadedCall derLen certs (entries certs))
    (refused : (∀ certs, ¬ CertFile pem derLen limit certs) →
      call.ret = .error .einval ∧ call.count = 0) : ReadsFile call pem derLen limit entries := by
  have ok : call.ret = .ok () ↔ ∃ certs, CertFile pem derLen limit certs := by
    constructor
    · intro succeeded
      by_contra none
      rw [(refused fun certs file => none ⟨certs,file⟩).1] at succeeded
      cases succeeded
    · rintro ⟨certs,file⟩
      rw [filled certs file]
      rfl
  exact ⟨ok,filled,fun failed => refused fun certs file => failed (ok.mpr ⟨certs,file⟩)⟩

theorem ReadsFile.reported_eq {ε : Type} {call again : PemCall ε} {other : Bytes}
    {limit : Nat} {entries : List CertificateOuter → List ε}
    (reads : ReadsFile call pem derLen limit entries)
    (readsOther : ReadsFile again other derLen limit entries)
    {blocks : List (PemLabel × Bytes)} (holds : PemText pem blocks) (same : PemText other blocks) :
    call.reported = again.reported := by
  have moved : ∀ {left right : Bytes}, PemText left blocks → PemText right blocks →
      ∀ certs, CertFile left derLen limit certs → CertFile right derLen limit certs := by
    intro left right holdsLeft holdsRight certs file
    refine ⟨?_,file.nonempty,file.within,file.room,file.outer⟩
    rw [file.text.unique holdsLeft]
    exact holdsRight
  by_cases accepted : ∃ certs, CertFile pem derLen limit certs
  · obtain ⟨certs,file⟩ := accepted
    rw [reads.filled certs file,readsOther.filled certs (moved holds same certs file)]
  · have failed := reads.refused fun ok => accepted (reads.ok.mp ok)
    have failedOther := readsOther.refused fun ok => accepted <| by
      obtain ⟨certs,file⟩ := readsOther.ok.mp ok
      exact ⟨certs,moved same holds certs file⟩
    simp only [PemCall.reported,failed,failedOther]

/-! ### The rooms -/

theorem chain_read (front : Bytes) (certs : List CertificateOuter) :
    List.Forall₂ (fun range f =>
        range.read (front ++ (certs.map CertificateOuter.encode).flatten) = f.encode)
      (keptFrom (fun block _ => block) front.length certs) certs := by
  induction certs generalizing front with
  | nil => exact .nil
  | cons f more ih =>
    rw [map_cons,flatten_cons,keptFrom]
    refine .cons (DerRange.read_piece ..) ?_
    have behind := ih (front ++ f.encode)
    rwa [length_append,append_assoc] at behind

theorem anchors_read (front : Bytes) (certs : List CertificateOuter) :
    List.Forall₂ (fun key f =>
        key.name.read (front ++ (certs.map CertificateOuter.encode).flatten) = f.tbs.name ∧
          key.spki.read (front ++ (certs.map CertificateOuter.encode).flatten) = f.tbs.spki)
      (keptFrom (fun block key => key.shift block.off) front.length certs) certs := by
  induction certs generalizing front with
  | nil => exact .nil
  | cons f more ih =>
    rw [map_cons,flatten_cons,keptFrom]
    refine .cons (subjectKey_read f front _) ?_
    have behind := ih (front ++ f.encode)
    rwa [length_append,append_assoc] at behind

/-- A chain and a file of trust anchors: which texts the two calls accept, what they then leave,
and that nothing but the blocks of a text decides it. -/
theorem certificates_from_pem (pem : Bytes) (derLen limit : Nat) :
    ReadsFile (chChainFromPem pem derLen limit) pem derLen (min limit 255) chainOf ∧
      ReadsFile (chAnchorsFromPem pem derLen limit) pem derLen limit anchorsOf ∧
      (∀ certs : List CertificateOuter,
        List.Forall₂ (fun range f =>
            range.read (certs.map CertificateOuter.encode).flatten = f.encode)
          (chainOf certs) certs ∧
        List.Forall₂ (fun key f =>
            key.name.read (certs.map CertificateOuter.encode).flatten = f.tbs.name ∧
              key.spki.read (certs.map CertificateOuter.encode).flatten = f.tbs.spki)
          (anchorsOf certs) certs) ∧
      ∀ other blocks, PemText pem blocks → PemText other blocks →
        (chChainFromPem pem derLen limit).reported = (chChainFromPem other derLen limit).reported ∧
          (chAnchorsFromPem pem derLen limit).reported =
            (chAnchorsFromPem other derLen limit).reported := by
  have chain : ∀ text, ReadsFile (chChainFromPem text derLen limit) text derLen (min limit 255)
      chainOf := fun _ =>
    readsFile_of (fun _ file => chChainFromPem_loaded file)
      (fun absent => chChainFromPem_refused absent)
  have anchors : ∀ text, ReadsFile (chAnchorsFromPem text derLen limit) text derLen limit
      anchorsOf := fun _ =>
    readsFile_of (fun _ file => chAnchorsFromPem_loaded file)
      (fun absent => chAnchorsFromPem_refused absent)
  refine ⟨chain pem,anchors pem,fun certs => ⟨chain_read [] certs,anchors_read [] certs⟩,?_⟩
  intro other blocks holds same
  exact ⟨(chain pem).reported_eq (chain other) holds same,
    (anchors pem).reported_eq (anchors other) holds same⟩

/-! ### A chain longer than the count can say -/

def sampleCert : CertificateOuter :=
  { tbs :=
      { version := none, serialNumber := [], signature := [], issuer := [], validity := []
        subject := [], subjectPublicKeyInfo := [], issuerUniqueId := none
        subjectUniqueId := none, extensions := none }
    signatureAlgorithm := []
    signatureValue := [] }

def sampleBlock : Bytes :=
  boundaryLine beginMarker .certificate ++ ([charLf] ++ (Base64.encode sampleCert.encode ++
    boundaryLine endMarker .certificate))

def sampleChain : Nat → Bytes
  | 0 => []
  | n + 1 => sampleBlock ++ ([charLf] ++ sampleChain n)

theorem sampleBlock_block : PemBlock .certificate sampleBlock sampleCert.encode :=
  ⟨[charLf],Base64.encode sampleCert.encode,.inl rfl,⟨by decide,by decide⟩,rfl⟩

theorem sampleChain_text (n : Nat) :
    PemText (sampleChain n) ((replicate n sampleCert).map fun f => (.certificate, f.encode)) := by
  induction n with
  | zero => exact textBlocks_nil.mpr rfl
  | succ n ih =>
    rw [sampleChain,replicate_succ,map_cons]
    refine (textBlocks_block sampleBlock_block).mpr ⟨_,rfl,lineEnded_break (.inl rfl) _,?_⟩
    exact (textBlocks_break (.inl rfl) false _ _).mpr ih

theorem sampleCert_fits : sampleCert.Fits where
  tbs :=
    { version := fieldFits_none, serialNumber := by decide, signature := by decide
      issuer := by decide, validity := by decide, subject := by decide
      subjectPublicKeyInfo := by decide, issuerUniqueId := fieldFits_none
      subjectUniqueId := fieldFits_none, extensions := fieldFits_none }
  content := by decide
  signatureAlgorithm := by decide
  signatureValue := by decide
  body := by decide

theorem sampleChain_file {n limit : Nat} (positive : n ≠ 0) (within : n ≤ limit)
    (room : n * 20 ≤ derLen) : CertFile (sampleChain n) derLen limit (replicate n sampleCert) := by
  refine ⟨sampleChain_text n,?_,?_,?_,?_⟩
  · simpa using positive
  · simpa using within
  · have length : sampleCert.encode.length = 20 := rfl
    simpa [length_flatten,length] using room
  · intro f among
    rw [eq_of_mem_replicate among]
    exact sampleCert_fits

/-- 256 certificates within the caller's limit are refused. -/
theorem chChainFromPem_past_octet :
    CertFile (sampleChain 256) 5120 300 (replicate 256 sampleCert) ∧
      (chChainFromPem (sampleChain 256) 5120 300).ret = .error .einval := by
  refine ⟨sampleChain_file (by decide) (by decide) (by decide),?_⟩
  refine (chChainFromPem_refused fun certs file => ?_).1
  have same := congrArg List.length (file.text.unique (sampleChain_text 256))
  rw [length_map,length_map,length_replicate] at same
  have within := file.within
  omega

end Chapulin
