/-
A run of blocks and the text around them (`pem_blocks.c`).

What a text holds is said by positions: `PemText` goes through every occurrence
of `-----BEGIN ` in text order, and each one stands at the start of a line and
opens a block whose END line ends its line.  The reader goes through the text a
byte at a time; `pemBlocksNext_cases` says what one call finds in those terms.
-/

import Chapulin.Pem.Block
import Mathlib.Data.List.Forall2
import Mathlib.Tactic.IntervalCases

namespace Chapulin

open Lib List

variable {flag : Bool} {back block der eol rest : Bytes} {label : PemLabel} {c : UInt8}

/-! ### The reader -/

inductive NextText where
  | block | atEnd | refused
  deriving DecidableEq, Repr

/-- The end of an END line's line: the input ends there, or LF or CR LF follows. -/
def lineEnds (r : Rbuf) : Bool × Rbuf :=
  if rbLeft r = 0 then (true, r)
  else
    match rbU8 r with
    | (c, r) =>
      if c = charCr.toNat then
        match rbU8 r with
        | (c, r) => (!r.err && c == charLf.toNat, r)
      else (!r.err && c == charLf.toNat, r)

/-- The loop of `next_text` over the octets that are left. -/
def scanText (lineStart : Bool) : Bytes → NextText × Bytes
  | [] => (.atEnd, [])
  | c :: rest =>
    if pemBeginsBoundary ⟨c :: rest,false⟩ then
      (if lineStart then .block else .refused, c :: rest)
    else scanText (c == charLf) rest

def scanFrom (r : Rbuf) : NextText × Rbuf :=
  if r.err then (.atEnd, r)
  else
    match scanText true r.rest with
    | (next, rest) => (next, { r with rest := rest })

def nextText (r : Rbuf) (started : Bool) : NextText × Rbuf :=
  if started then
    match lineEnds r with
    | (false, r) => (.refused, r)
    | (true, r) => scanFrom r
  else scanFrom r

structure PemBlocks where
  text : Rbuf
  started : Bool
  deriving DecidableEq, Repr

def pemBlocksInit (pem : Bytes) : PemBlocks := { text := rbInit pem, started := false }

structure DerRange where
  off : Nat
  len : Nat
  deriving DecidableEq, Repr

def DerRange.read (range : DerRange) (room : Bytes) : Bytes := (room.drop range.off).take range.len

theorem DerRange.read_piece (front piece rest : Bytes) :
    (⟨front.length,piece.length⟩ : DerRange).read (front ++ (piece ++ rest)) = piece := by
  simp [DerRange.read]

/-- What `pem_blocks_next` found; a block it read is named by its range of the room. -/
inductive PemNext where
  | atEnd | refused
  | read (block : DerRange)
  deriving DecidableEq, Repr

def pemBlocksNext (label : PemLabel) (b : PemBlocks) (w : Wbuf) : PemNext × PemBlocks × Wbuf :=
  match nextText b.text b.started with
  | (.atEnd, text) => (.atEnd, { b with text := text }, w)
  | (.refused, text) => (.refused, { b with text := text }, w)
  | (.block, text) =>
    match pemReadBlock label ⟨text,w⟩ with
    | (.error _, io) => (.refused, { b with text := io.text }, io.der)
    | (.ok _, io) =>
      (.read ⟨w.out.length,io.der.out.length - w.out.length⟩,
        { text := io.text, started := true }, io.der)

/-! ### What a text holds -/

def markerPositions (text : Bytes) : List Nat :=
  (range text.length).filter fun i => beginMarker.isPrefixOf (text.drop i)

/-- Whether what follows `before` starts a line; `flag` says it for an empty one. -/
def startsLine (flag : Bool) (before : Bytes) : Bool :=
  (before.getLast?.map (· == charLf)).getD flag

def LineEnded (rest : Bytes) : Prop := rest = [] ∨ ∃ eol after, LineBreak eol ∧ rest = eol ++ after

def HasBlock (text : Bytes) (block : PemLabel × Bytes) : Prop :=
  ∃ armored rest, PemBlock block.1 armored block.2 ∧ LineEnded rest ∧ text = armored ++ rest

structure Opens (flag : Bool) (text : Bytes) (i : Nat) (block : PemLabel × Bytes) : Prop where
  atLineStart : startsLine flag (text.take i) = true
  opened : HasBlock (text.drop i) block

/-- Every marker of the text opens a block at the start of a line, and these are the blocks in
text order. -/
def TextBlocks (flag : Bool) (text : Bytes) (blocks : List (PemLabel × Bytes)) : Prop :=
  List.Forall₂ (Opens flag text) (markerPositions text) blocks

abbrev PemText (text : Bytes) (blocks : List (PemLabel × Bytes)) : Prop :=
  TextBlocks true text blocks

/-! ### Going through a text -/

theorem markerPositions_cons (c : UInt8) (rest : Bytes) :
    markerPositions (c :: rest) =
      (if beginMarker.isPrefixOf (c :: rest) then [0] else []) ++
        (markerPositions rest).map (· + 1) := by
  have tail : ((range rest.length).map Nat.succ).filter
      (fun i => beginMarker.isPrefixOf ((c :: rest).drop i)) =
      (markerPositions rest).map (· + 1) := by
    rw [List.filter_map]
    rfl
  rw [markerPositions,length_cons,range_succ_eq_map,filter_cons,tail,drop_zero]
  split
  · rfl
  · rfl

theorem startsLine_cons (flag : Bool) (c : UInt8) (rest : Bytes) :
    startsLine flag (c :: rest) = startsLine (c == charLf) rest := by
  rw [startsLine,startsLine,getLast?_cons]
  rcases rest.getLast? with _ | last
  · rfl
  · rfl

theorem opens_succ {i : Nat} {block : PemLabel × Bytes} :
    Opens flag (c :: rest) (i + 1) block ↔ Opens (c == charLf) rest i block := by
  constructor
  · intro opens
    refine ⟨?_,opens.opened⟩
    rw [← startsLine_cons flag]
    exact opens.atLineStart
  · intro opens
    refine ⟨?_,opens.opened⟩
    rw [take_succ_cons,startsLine_cons]
    exact opens.atLineStart

variable {blocks : List (PemLabel × Bytes)}

theorem textBlocks_nil :
    TextBlocks flag [] blocks ↔ blocks = [] := List.forall₂_nil_left_iff

theorem forall₂_opens_succ :
    List.Forall₂ (Opens flag (c :: rest)) ((markerPositions rest).map (· + 1)) blocks ↔
      TextBlocks (c == charLf) rest blocks := by
  rw [List.forall₂_map_left_iff,TextBlocks]
  simp only [opens_succ]

theorem textBlocks_skip (quiet : beginMarker.isPrefixOf (c :: rest) = false) :
    TextBlocks flag (c :: rest) blocks ↔ TextBlocks (c == charLf) rest blocks := by
  rw [TextBlocks,markerPositions_cons,quiet]
  exact forall₂_opens_succ

theorem textBlocks_marker (marker : beginMarker.isPrefixOf (c :: rest) = true) :
    TextBlocks flag (c :: rest) blocks ↔ ∃ block more, blocks = block :: more ∧ flag = true ∧
      HasBlock (c :: rest) block ∧ TextBlocks (c == charLf) rest more := by
  rw [TextBlocks,markerPositions_cons,marker,if_pos rfl,singleton_append,List.forall₂_cons_left_iff]
  constructor
  · rintro ⟨block,more,opens,behind,rfl⟩
    exact ⟨block,more,rfl,opens.atLineStart,opens.opened,forall₂_opens_succ.mp behind⟩
  · rintro ⟨block,more,rfl,lineStart,opened,behind⟩
    exact ⟨block,more,⟨lineStart,opened⟩,forall₂_opens_succ.mpr behind,rfl⟩

def Quiet (front back : Bytes) : Prop :=
  ∀ i, i < front.length → beginMarker.isPrefixOf ((front ++ back).drop i) = false

theorem quiet_append {left right : Bytes} (quietLeft : Quiet left (right ++ back))
    (quietRight : Quiet right back) : Quiet (left ++ right) back := by
  intro i inside
  by_cases early : i < left.length
  · rw [append_assoc]
    exact quietLeft i early
  · have late := quietRight (i - left.length) (by rw [length_append] at inside; omega)
    rw [append_assoc,drop_append,drop_eq_nil_of_le (by omega),nil_append]
    exact late

theorem textBlocks_quiet {front : Bytes} (quiet : Quiet front back) (flag : Bool)
    (blocks : List (PemLabel × Bytes)) :
    TextBlocks flag (front ++ back) blocks ↔ TextBlocks (startsLine flag front) back blocks := by
  induction front generalizing flag with
  | nil => rfl
  | cons c front ih =>
    have first : beginMarker.isPrefixOf (c :: (front ++ back)) = false :=
      quiet 0 (by simp)
    rw [cons_append,textBlocks_skip first,startsLine_cons]
    exact ih (fun i inside => quiet (i + 1) (by simpa using inside)) _

/-! ### No marker starts inside a block -/

theorem quiet_of_no_dash {front : Bytes} (free : charDash ∉ front) : Quiet front back := by
  intro i inside
  rw [drop_append_of_le_length (Nat.le_of_lt inside),drop_eq_getElem_cons inside]
  have other : front[i] ≠ charDash := fun same => free (same ▸ getElem_mem inside)
  have differs : (charDash == front[i]) = false := beq_false_of_ne other.symm
  change (charDash == front[i] && _) = false
  rw [differs]
  rfl

theorem quiet_dashes (ended : LineEnded back) : Quiet boundaryDashes back := by
  intro i inside
  change i < 5 at inside
  rcases ended with rfl | ⟨eol,after,rfl | rfl,rfl⟩
  all_goals
    interval_cases i <;> rfl

theorem quiet_marker_tail (back : Bytes) : Quiet beginMarker.tail back := by
  intro i inside
  change i < 10 at inside
  interval_cases i <;> rfl

theorem quiet_endMarker (back : Bytes) : Quiet endMarker back := by
  intro i inside
  change i < 9 at inside
  interval_cases i <;> rfl

theorem PemLabel.no_dash (label : PemLabel) : charDash ∉ label.bytes := by
  cases label <;> decide

theorem lineEnded_break (breaks : LineBreak eol) (after : Bytes) :
    LineEnded (eol ++ after) := .inr ⟨eol,after,breaks,rfl⟩

theorem LineBreak.no_dash (breaks : LineBreak eol) : charDash ∉ eol := by
  rcases breaks with rfl | rfl <;> decide

theorem PemBlock.quiet (inBlock : PemBlock label block der)
    (ended : LineEnded rest) : Quiet block.tail rest := by
  obtain ⟨eol,body,breaks,inBody,rfl⟩ := inBlock
  have split : (boundaryLine beginMarker label ++
      (eol ++ (body ++ boundaryLine endMarker label))).tail = beginMarker.tail ++ (label.bytes ++
        (boundaryDashes ++ (eol ++ (body ++ (endMarker ++ (label.bytes ++ boundaryDashes)))))) := by
    simp [boundaryLine,beginMarker,boundaryDashes]
  rw [split]
  refine quiet_append (quiet_marker_tail _) (quiet_append (quiet_of_no_dash label.no_dash)
    (quiet_append ?_ (quiet_append (quiet_of_no_dash breaks.no_dash)
      (quiet_append (quiet_of_no_dash inBody.no_dash) (quiet_append (quiet_endMarker _)
        (quiet_append (quiet_of_no_dash label.no_dash) (quiet_dashes ended)))))))
  rw [append_assoc]
  exact quiet_dashes (lineEnded_break breaks _)

theorem PemBlock.marker (inBlock : PemBlock label block der)
    (rest : Bytes) : beginMarker.isPrefixOf (block ++ rest) = true := by
  obtain ⟨eol,body,_,_,rfl⟩ := inBlock
  refine isPrefixOf_iff_prefix.mpr
    ⟨(label.bytes ++ boundaryDashes) ++ ((eol ++ (body ++ boundaryLine endMarker label)) ++
    rest),?_⟩
  simp only [boundaryLine,append_assoc]

theorem PemBlock.length_pos (inBlock : PemBlock label block der) : 0 < block.length := by
  obtain ⟨eol,body,_,_,rfl⟩ := inBlock
  exact Nat.succ_pos _

theorem PemBlock.startsLine_false
    (inBlock : PemBlock label block der) (flag : Bool) : startsLine flag block = false := by
  obtain ⟨eol,body,_,_,rfl⟩ := inBlock
  have last : (boundaryLine beginMarker label ++
      (eol ++ (body ++ boundaryLine endMarker label))).getLast? = some charDash := by
    simp only [boundaryLine,getLast?_append]
    rfl
  rw [startsLine,last]
  rfl

private theorem label_unique {left right : PemLabel} {afterLeft afterRight : Bytes}
    (same : left.bytes ++ (boundaryDashes ++ afterLeft) =
      right.bytes ++ (boundaryDashes ++ afterRight)) : left = right := by
  cases left <;> cases right <;>
    first
    | rfl
    | simp [PemLabel.bytes,boundaryDashes,charDash] at same

/-- Two blocks at the front of one text are the same. -/
theorem PemBlock.unique {left right : PemLabel} {block other der otherDer rest otherRest : Bytes}
    (inBlock : PemBlock left block der) (inOther : PemBlock right other otherDer)
    (same : block ++ rest = other ++ otherRest) :
    left = right ∧ der = otherDer ∧ rest = otherRest := by
  have labels : left = right := by
    obtain ⟨eol,body,-,-,rfl⟩ := inBlock
    obtain ⟨otherEol,otherBody,-,-,rfl⟩ := inOther
    simp only [boundaryLine,append_assoc] at same
    exact label_unique (append_cancel_left same)
  subst labels
  -- both are what the reader returns with room enough for either
  let w : Wbuf := wbInit (der.length + otherDer.length)
  have live : w.Live := ⟨rfl,Nat.zero_le _⟩
  have read := (pemReadBlock_takes left _ w ⟨⟨rest,false⟩,w.append der⟩ live).mpr
    ⟨block,der,rest,inBlock,rfl,by simp [Wbuf.Holds,w,wbInit],rfl⟩
  have readOther := (pemReadBlock_takes left _ w ⟨⟨otherRest,false⟩,w.append otherDer⟩ live).mpr
    ⟨other,otherDer,otherRest,inOther,same,by simp [Wbuf.Holds,w,wbInit],rfl⟩
  have equal := (Prod.mk.inj (read.symm.trans readOther)).2
  have texts := congrArg (fun io : PemIo => io.text.rest) equal
  have ders := congrArg (fun io : PemIo => io.der.out) equal
  exact ⟨rfl,append_cancel_left ders,texts⟩

/-- A block at a line start is the first of the text. -/
theorem textBlocks_block (inBlock : PemBlock label block der) :
    TextBlocks true (block ++ rest) blocks ↔
      ∃ more, blocks = (label, der) :: more ∧ LineEnded rest ∧ TextBlocks false rest more := by
  obtain ⟨c,tail,whole⟩ : ∃ c tail, block = c :: tail := by
    obtain ⟨eol,body,-,-,rfl⟩ := inBlock
    exact ⟨_,_,rfl⟩
  have marker := inBlock.marker rest
  have behind : ∀ more, LineEnded rest →
      (TextBlocks (c == charLf) (tail ++ rest) more ↔ TextBlocks false rest more) := by
    intro more ended
    have quiet := inBlock.quiet ended
    rw [whole,tail_cons] at quiet
    rw [textBlocks_quiet quiet,← startsLine_cons true c tail,← whole,inBlock.startsLine_false]
  rw [whole,cons_append] at marker ⊢
  rw [textBlocks_marker marker]
  constructor
  · rintro ⟨⟨found,foundDer⟩,more,rfl,-,⟨armored,after,inArmored,ended,same⟩,blocks⟩
    rw [← cons_append,← whole] at same
    obtain ⟨rfl,rfl,rfl⟩ := inBlock.unique inArmored same
    exact ⟨more,rfl,ended,(behind more ended).mp blocks⟩
  · rintro ⟨more,rfl,ended,blocks⟩
    refine ⟨(label, der),more,rfl,rfl,⟨block,rest,inBlock,ended,?_⟩,(behind more ended).mpr blocks⟩
    rw [whole]
    rfl

/-- A text has one list of blocks. -/
theorem TextBlocks.unique {flag : Bool} {text : Bytes} {blocks others : List (PemLabel × Bytes)}
    (holds : TextBlocks flag text blocks) (holdsOthers : TextBlocks flag text others) :
    blocks = others := by
  unfold TextBlocks at holds holdsOthers
  generalize markerPositions text = positions at holds holdsOthers
  induction holds generalizing others with
  | nil => exact (List.forall₂_nil_left_iff.mp holdsOthers).symm
  | cons opens _ ih =>
    obtain ⟨other,rest,opensOther,behind,rfl⟩ := List.forall₂_cons_left_iff.mp holdsOthers
    obtain ⟨armored,after,inBlock,_,split⟩ := opens.opened
    obtain ⟨_,_,inOther,_,splitOther⟩ := opensOther.opened
    obtain ⟨labels,ders,_⟩ := inBlock.unique inOther (split.symm.trans splitOther)
    rw [Prod.ext labels ders,ih behind]

/-! ### One call -/

/-- The blocks of what is left of a text, behind a block or at its beginning. -/
def RestBlocks (started : Bool) (text : Bytes) (blocks : List (PemLabel × Bytes)) : Prop :=
  (started = true → LineEnded text) ∧ TextBlocks (!started) text blocks

theorem pemBeginsBoundary_eq (text : Bytes) :
    pemBeginsBoundary ⟨text,false⟩ = beginMarker.isPrefixOf text := by
  refine Bool.eq_iff_iff.mpr (Iff.trans ?_ isPrefixOf_iff_prefix.symm)
  rcases rbBytes_cases beginMarker.length text with ⟨taken,rest,length,rfl,read⟩ | ⟨short,read⟩
  · simp only [pemBeginsBoundary,read,beq_iff_eq,Option.some.injEq]
    constructor
    · rintro rfl
      exact prefix_append ..
    · intro isPrefix
      exact (prefix_of_prefix_length_le isPrefix (prefix_append ..)
        (Nat.le_of_eq length.symm)).eq_of_length length.symm |>.symm
  · simp only [pemBeginsBoundary,read]
    constructor
    · intro impossible
      cases impossible
    · intro isPrefix
      exact absurd isPrefix.length_le (Nat.not_le.mpr short)

theorem scanText_cases (flag : Bool) (text : Bytes) :
    ((∃ rest, scanText flag text = (.atEnd, rest)) ∧
        ∀ blocks, TextBlocks flag text blocks ↔ blocks = []) ∨
      ((∃ rest, scanText flag text = (.refused, rest)) ∧
        ∀ blocks, ¬ TextBlocks flag text blocks) ∨
      ∃ rest, scanText flag text = (.block, rest) ∧ rest.length ≤ text.length ∧
        beginMarker.isPrefixOf rest = true ∧
        ∀ blocks, TextBlocks flag text blocks ↔ TextBlocks true rest blocks := by
  induction text generalizing flag with
  | nil => exact .inl ⟨⟨[],rfl⟩,fun _ => textBlocks_nil⟩
  | cons c text ih =>
    rw [scanText,pemBeginsBoundary_eq]
    cases marker : beginMarker.isPrefixOf (c :: text) with
    | true =>
      rw [if_pos rfl]
      cases flag with
      | true => exact .inr (.inr ⟨c :: text,rfl,Nat.le_refl _,marker,fun _ => Iff.rfl⟩)
      | false =>
        refine .inr (.inl ⟨⟨c :: text,rfl⟩,fun blocks opened => ?_⟩)
        obtain ⟨_,_,_,impossible,_⟩ := (textBlocks_marker marker).mp opened
        cases impossible
    | false =>
      rw [if_neg Bool.false_ne_true]
      simp only [textBlocks_skip marker,length_cons]
      rcases ih (c == charLf) with atEnd | refused | ⟨rest,scanned,shorter,found,same⟩
      · exact .inl atEnd
      · exact .inr (.inl refused)
      · exact .inr (.inr ⟨rest,scanned,Nat.le_succ_of_le shorter,found,same⟩)

theorem textBlocks_break (breaks : LineBreak eol) (flag : Bool) (after : Bytes)
    (blocks : List (PemLabel × Bytes)) :
    TextBlocks flag (eol ++ after) blocks ↔ TextBlocks true after blocks := by
  rw [textBlocks_quiet (quiet_of_no_dash breaks.no_dash)]
  rcases breaks with rfl | rfl
  · rfl
  · rfl

theorem lineEnded_cons :
    LineEnded (c :: rest) ↔ c = charLf ∨ c = charCr ∧ ∃ after, rest = charLf :: after := by
  constructor
  · rintro (impossible | ⟨eol,after,rfl | rfl,same⟩)
    · cases impossible
    · exact .inl (List.cons.inj same).1
    · exact .inr ⟨(List.cons.inj same).1,after,(List.cons.inj same).2⟩
  · rintro (rfl | ⟨rfl,after,rfl⟩)
    · exact .inr ⟨[charLf],rest,.inl rfl,rfl⟩
    · exact .inr ⟨[charCr,charLf],after,.inr rfl,rfl⟩

theorem lineEnds_cases (text : Bytes) :
    (∃ rest, lineEnds ⟨text,false⟩ = (true, ⟨rest,false⟩) ∧ rest.length ≤ text.length ∧
        LineEnded text ∧ ∀ blocks, TextBlocks false text blocks ↔ TextBlocks true rest blocks) ∨
      (∃ r, lineEnds ⟨text,false⟩ = (false, r)) ∧ ¬ LineEnded text := by
  have value : ∀ {c d : UInt8}, c ≠ d → c.toNat ≠ d.toNat := fun differ same =>
    differ (UInt8.toNat_inj.mp same)
  rcases text with _ | ⟨c,rest⟩
  · exact .inl ⟨[],rfl,Nat.le_refl _,.inl rfl,fun _ => textBlocks_nil.trans textBlocks_nil.symm⟩
  by_cases isLf : c = charLf
  · subst isLf
    exact .inl ⟨rest,rfl,Nat.le_succ _,lineEnded_cons.mpr (.inl rfl),
      textBlocks_break (.inl rfl) false rest⟩
  by_cases isCr : c = charCr
  · subst isCr
    rcases rest with _ | ⟨d,rest⟩
    · refine .inr ⟨⟨_,rfl⟩,fun ended => ?_⟩
      rcases lineEnded_cons.mp ended with same | ⟨_,after,same⟩
      · exact isLf same
      · cases same
    by_cases second : d = charLf
    · subst second
      exact .inl ⟨rest,rfl,Nat.le_add_right _ 2,lineEnded_cons.mpr (.inr ⟨rfl,rest,rfl⟩),
        textBlocks_break (.inr rfl) false rest⟩
    · have read : lineEnds ⟨charCr :: d :: rest,false⟩ =
          (d.toNat == charLf.toNat, ⟨rest,false⟩) := rfl
      rw [beq_false_of_ne (value second)] at read
      refine .inr ⟨⟨_,read⟩,fun ended => ?_⟩
      rcases lineEnded_cons.mp ended with same | ⟨_,after,same⟩
      · exact isLf same
      · exact second (List.cons.inj same).1
  · have read : lineEnds ⟨c :: rest,false⟩ = (c.toNat == charLf.toNat, ⟨rest,false⟩) := by
      change (if c.toNat = charCr.toNat then _ else _) = _
      rw [if_neg (value isCr)]
      rfl
    rw [beq_false_of_ne (value isLf)] at read
    refine .inr ⟨⟨_,read⟩,fun ended => ?_⟩
    rcases lineEnded_cons.mp ended with same | ⟨same,_⟩
    · exact isLf same
    · exact isCr same

/-- What the scan found and left, against the blocks of the text it went over. -/
def Finds (next : NextText × Rbuf) (text : Bytes) (holds : List (PemLabel × Bytes) → Prop) : Prop :=
  (next.1 = .atEnd ∧ ∀ blocks, holds blocks ↔ blocks = []) ∨
    (next.1 = .refused ∧ ∀ blocks, ¬ holds blocks) ∨
    ∃ rest, next = (.block, ⟨rest,false⟩) ∧ rest.length ≤ text.length ∧
      beginMarker.isPrefixOf rest = true ∧ ∀ blocks, holds blocks ↔ TextBlocks true rest blocks

theorem scanFrom_finds (text : Bytes) :
    Finds (scanFrom ⟨text,false⟩) text (TextBlocks true text) := by
  rcases scanText_cases true text with ⟨⟨rest,scan⟩,blocks⟩ | ⟨⟨rest,scan⟩,blocks⟩ |
    ⟨rest,scan,less,marker,blocks⟩
  · exact .inl ⟨by simp [scanFrom,scan],blocks⟩
  · exact .inr (.inl ⟨by simp [scanFrom,scan],blocks⟩)
  · exact .inr (.inr ⟨rest,by simp [scanFrom,scan],less,marker,blocks⟩)

theorem nextText_finds (started : Bool) (text : Bytes) :
    Finds (nextText ⟨text,false⟩ started) text (RestBlocks started text) := by
  cases started with
  | false =>
    have same : RestBlocks false text = TextBlocks true text := by
      funext blocks
      simp [RestBlocks]
    rw [same]
    exact scanFrom_finds text
  | true =>
    rcases lineEnds_cases text with ⟨rest,ends,shorter,ended,behind⟩ | ⟨⟨r,ends⟩,endless⟩
    · have same : RestBlocks true text = TextBlocks true rest := by
        funext blocks
        simp [RestBlocks,ended,behind]
      have next : nextText ⟨text,false⟩ true = scanFrom ⟨rest,false⟩ := by
        simp only [nextText,ends,if_true]
      rw [same,next]
      rcases scanFrom_finds rest with atEnd | refused | ⟨left,scanned,less,marker,blocks⟩
      · exact .inl atEnd
      · exact .inr (.inl refused)
      · exact .inr (.inr ⟨left,scanned,Nat.le_trans less shorter,marker,blocks⟩)
    · refine .inr (.inl ⟨by simp only [nextText,ends,if_true],fun blocks holds => ?_⟩)
      exact endless (holds.1 rfl)

theorem hasBlock_of_marker {text : Bytes}
    (marker : beginMarker.isPrefixOf text = true) (holds : TextBlocks true text blocks) :
    ∃ block more, blocks = block :: more ∧ HasBlock text block := by
  cases text with
  | nil => cases marker
  | cons c rest =>
    obtain ⟨block,more,same,_,opened,_⟩ := (textBlocks_marker marker).mp holds
    exact ⟨block,more,same,opened⟩

/-- A call ends the text, refuses it or takes the next block of the list. -/
theorem pemBlocksNext_cases (label : PemLabel) (started : Bool) (text : Bytes) {w : Wbuf}
    (live : w.Live) :
    ((∃ after, pemBlocksNext label ⟨⟨text,false⟩,started⟩ w = (.atEnd, after, w)) ∧
        ∀ blocks, RestBlocks started text blocks ↔ blocks = []) ∨
      ((∃ after written,
          pemBlocksNext label ⟨⟨text,false⟩,started⟩ w = (.refused, after, written)) ∧
        ∀ blocks, RestBlocks started text blocks →
          ∃ found der more, blocks = (found, der) :: more ∧
            ¬ (found = label ∧ w.Holds der.length)) ∨
      ∃ der rest, pemBlocksNext label ⟨⟨text,false⟩,started⟩ w =
          (.read ⟨w.out.length,der.length⟩, ⟨⟨rest,false⟩,true⟩, w.append der) ∧
        w.Holds der.length ∧ rest.length < text.length ∧
        ∀ blocks, RestBlocks started text blocks ↔
          ∃ more, blocks = (label, der) :: more ∧ RestBlocks true rest more := by
  rcases nextText_finds started text with ⟨atEnd,blocks⟩ | ⟨refused,blocks⟩ |
    ⟨rest,next,shorter,marker,same⟩
  · refine .inl ⟨⟨⟨(nextText ⟨text,false⟩ started).2,started⟩,?_⟩,blocks⟩
    rcases scanned : nextText ⟨text,false⟩ started with ⟨_,r⟩
    rw [scanned] at atEnd
    cases atEnd
    simp only [pemBlocksNext,scanned]
  · refine .inr (.inl ⟨⟨⟨(nextText ⟨text,false⟩ started).2,started⟩,w,?_⟩,
      fun found holds => absurd holds (blocks found)⟩)
    rcases scanned : nextText ⟨text,false⟩ started with ⟨_,r⟩
    rw [scanned] at refused
    cases refused
    simp only [pemBlocksNext,scanned]
  · rcases read : pemReadBlock label ⟨⟨rest,false⟩,w⟩ with ⟨_ | _,io⟩
    · refine .inr (.inl ⟨⟨⟨io.text,started⟩,io.der,by simp only [pemBlocksNext,next,read]⟩,
        fun blocks holds => ?_⟩)
      obtain ⟨⟨found,der⟩,more,rfl,armored,after,inArmored,_,rfl⟩ :=
        hasBlock_of_marker marker ((same blocks).mp holds)
      refine ⟨found,der,more,rfl,?_⟩
      rintro ⟨rfl,room⟩
      rw [(pemReadBlock_takes found _ w ⟨⟨after,false⟩,w.append der⟩ live).mpr
        ⟨armored,der,after,inArmored,rfl,room,rfl⟩] at read
      cases read
    · obtain ⟨front,der,after,inBlock,rfl,room,rfl⟩ :=
        (pemReadBlock_takes label _ _ _ live).mp read
      refine .inr (.inr ⟨der,after,?_,room,?_,fun blocks => ?_⟩)
      · simp only [pemBlocksNext,next,read]
        simp [Wbuf.append]
      · have nonempty := inBlock.length_pos
        rw [length_append] at shorter
        omega
      · rw [same,textBlocks_block inBlock]
        simp [RestBlocks]

end Chapulin
