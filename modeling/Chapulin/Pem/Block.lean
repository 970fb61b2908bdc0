/-
One block of a PEM text, decode side (`base64.c`, `pem.c`).

A reader of the source answers 1 or 0 and leaves the text and the writer where
it stopped.  Here it returns or stops, over both.  `PemTakes step grammar` says
which strings a step accepts and what it appends to the writer for each; the
grammar of a block is `PemBlock`.
-/

import Chapulin.Buf
import Chapulin.Lib.Base64

namespace Chapulin

open Lib Proc List Base64

variable {chars der : Bytes} {c : UInt8} {written : Wbuf}

/-! ### The alphabet -/

def base64Pad : UInt8 := 64

def base64Cr : UInt8 := 65

def base64Lf : UInt8 := 66

def base64Dash : UInt8 := 67

def base64Invalid : UInt8 := 68

/-- All ones when `lo ≤ c ≤ hi` and zero otherwise, for a byte widened to 32 bits. -/
def rangeMask (c lo hi : UInt32) : UInt32 := (((c - lo) ||| (hi - c)) >>> 31) - 1

def base64Class (c : UInt8) : UInt8 :=
  let x := c.toUInt32
  let upper := rangeMask x 0x41 0x5a
  let lower := rangeMask x 0x61 0x7a
  let digit := rangeMask x 0x30 0x39
  let plus := rangeMask x 0x2b 0x2b
  let slash := rangeMask x 0x2f 0x2f
  let pad := rangeMask x 0x3d 0x3d
  let cr := rangeMask x 0x0d 0x0d
  let lf := rangeMask x 0x0a 0x0a
  let dash := rangeMask x 0x2d 0x2d
  let value := (upper &&& (x - 0x41)) ||| (lower &&& (x - 0x61 + 26)) |||
    (digit &&& (x - 0x30 + 52)) ||| (plus &&& 62) ||| (slash &&& 63)
  let other := (pad &&& base64Pad.toUInt32) ||| (cr &&& base64Cr.toUInt32) |||
    (lf &&& base64Lf.toUInt32) ||| (dash &&& base64Dash.toUInt32)
  let known := upper ||| lower ||| digit ||| plus ||| slash ||| pad ||| cr ||| lf ||| dash
  let invalid := ~~~known &&& base64Invalid.toUInt32
  (value ||| other ||| invalid).toUInt8

/-! ### The boundary lines -/

def charCr : UInt8 := 0x0d

def charLf : UInt8 := 0x0a

def charDash : UInt8 := 0x2d

inductive PemLabel where
  | certificate | privateKey | ecPrivateKey | ecParameters
  deriving DecidableEq, Repr

def PemLabel.bytes : PemLabel → Bytes
  | certificate => [0x43,0x45,0x52,0x54,0x49,0x46,0x49,0x43,0x41,0x54,0x45]
  | privateKey => [0x50,0x52,0x49,0x56,0x41,0x54,0x45,0x20,0x4b,0x45,0x59]
  | ecPrivateKey =>
    [0x45,0x43,0x20,0x50,0x52,0x49,0x56,0x41,0x54,0x45,0x20,0x4b,0x45,0x59]
  | ecParameters => [0x45,0x43,0x20,0x50,0x41,0x52,0x41,0x4d,0x45,0x54,0x45,0x52,0x53]

def boundaryDashes : Bytes := [charDash,charDash,charDash,charDash,charDash]

def beginMarker : Bytes := boundaryDashes ++ [0x42,0x45,0x47,0x49,0x4e,0x20]

def endMarker : Bytes := boundaryDashes ++ [0x45,0x4e,0x44,0x20]

structure PemIo where
  text : Rbuf
  der : Wbuf
  deriving DecidableEq, Repr

abbrev PemProc (α : Type) : Type := Proc PemIo Unit α

def pemRefuse {α : Type} : PemProc α := Proc.stop ()

def pemBytes (n : Nat) : PemProc (Option Bytes) := fun s =>
  match rbBytes n s.text with
  | (got, text) => (.ok got, { s with text := text })

/-- `rb_u8` over the text, and the check of its error. -/
def pemU8 : PemProc UInt8 := fun s =>
  match rbU8 s.text with
  | (c, text) => (if text.err then .error () else .ok (byte c), { s with text := text })

def matchBytes (want : Bytes) : PemProc Unit := do
  let got ← pemBytes want.length
  if got = some want then pure () else pemRefuse

def matchLine (lead : Bytes) (label : PemLabel) : PemProc Unit := do
  matchBytes lead
  matchBytes label.bytes
  matchBytes boundaryDashes

def readEol : PemProc Unit := do
  let c ← pemU8
  if c = charCr then
    let c ← pemU8
    if c = charLf then pure () else pemRefuse
  else if c = charLf then pure () else pemRefuse

/-! ### The body -/

structure Base64State where
  /-- The bits not yet emitted, in the low `nbits`; 32 bits wide. -/
  acc : Nat
  nbits : Nat
  /-- Body characters so far, modulo 4. -/
  pos : Nat
  npad : Nat
  seen : Bool
  deriving DecidableEq, Repr

variable {s : Base64State}

def base64Start : Base64State := { acc := 0, nbits := 0, pos := 0, npad := 0, seen := false }

def padOk (s : Base64State) : Bool := decide (s.npad < 2) && (s.pos == 2 || s.pos == 3)

/-- `base64_step` with the class of a character that is no dash and no line break. -/
def base64Step (v : UInt8) (s : Base64State) (w : Wbuf) : Option (Base64State × Wbuf) :=
  if v = base64Pad then
    if padOk s then some ({ s with npad := s.npad + 1, pos := (s.pos + 1) % 4 }, w) else none
  else if v ≥ base64Pad ∨ s.npad ≠ 0 then none
  else
    let acc := (s.acc * 64 + v.toNat) % 4294967296
    let pos := (s.pos + 1) % 4
    if s.nbits + 6 ≥ 8 then
      let nbits := s.nbits + 6 - 8
      some ({ s with acc := acc, nbits := nbits, pos := pos, seen := true },
        wbU8 (acc / 2 ^ nbits % 256) w)
    else some ({ s with acc := acc, nbits := s.nbits + 6, pos := pos, seen := true }, w)

def bodyOk (w : Wbuf) (s : Base64State) : Bool :=
  s.seen && s.pos == 0 && s.acc % 2 ^ s.nbits == 0 && !w.err

/-- What the body loop leaves: whether it met the dash, the state, the writer and the text. -/
structure BodyLoop where
  atDash : Bool
  state : Base64State
  der : Wbuf
  rest : Bytes
  deriving DecidableEq, Repr

def bodyLoop (s : Base64State) (w : Wbuf) : Bytes → BodyLoop
  | [] => { atDash := false, state := s, der := w, rest := [] }
  | c :: rest =>
    let v := base64Class c
    if v = base64Dash then { atDash := true, state := s, der := w, rest := rest }
    else if v = base64Cr ∨ v = base64Lf then bodyLoop s w rest
    else
      match base64Step v s w with
      | none => { atDash := false, state := s, der := w, rest := rest }
      | some (s, w) => bodyLoop s w rest

def decodeBody : PemProc Unit := fun io =>
  if io.text.err then (.error (), io)
  else
    let ran := bodyLoop base64Start io.der io.text.rest
    let io : PemIo := { text := { io.text with rest := ran.rest }, der := ran.der }
    (if ran.atDash && bodyOk ran.der ran.state then .ok () else .error (), io)

def pemReadBlock (label : PemLabel) : PemProc Unit := do
  matchLine beginMarker label
  readEol
  decodeBody
  -- the body's reader took the END line's first dash
  matchLine endMarker.tail label

def pemBeginsBoundary (r : Rbuf) : Bool :=
  match rbBytes beginMarker.length r with
  | (got, _) => got == some beginMarker

/-! ### The classes of a body's characters -/

def CharClass (c : UInt8) : Prop :=
  (∃ v, v < 64 ∧ c = symbol v ∧ base64Class c = byte v) ∨
    (c = pad ∧ base64Class c = base64Pad) ∨ (c = charCr ∧ base64Class c = base64Cr) ∨
    (c = charLf ∧ base64Class c = base64Lf) ∨ (c = charDash ∧ base64Class c = base64Dash) ∨
    base64Class c = base64Invalid

instance (c : UInt8) : Decidable (CharClass c) := by
  unfold CharClass
  infer_instance

private theorem charClass_ofNat : ∀ n, n < 256 → CharClass (UInt8.ofNat n) := by
  decide +kernel

theorem charClass_holds (c : UInt8) : CharClass c := by
  have held := charClass_ofNat c.toNat c.toNat_lt
  rwa [UInt8.ofNat_toNat] at held

theorem base64Class_symbol : ∀ v, v < 64 → base64Class (symbol v) = byte v := by
  decide +kernel

/-! ### The characters of a body, one step each -/

/-- `base64_step` over a string of characters. -/
def base64Steps : Bytes → Base64State → Wbuf → Option (Base64State × Wbuf)
  | [], s, w => some (s, w)
  | c :: rest, s, w =>
    match base64Step (base64Class c) s w with
    | none => none
    | some (s, w) => base64Steps rest s w

variable {w : Wbuf}

theorem base64Steps_cons {next : Base64State}
    (stepped : base64Step (base64Class c) s w = some (next, written)) (rest : Bytes) :
    base64Steps (c :: rest) s w = base64Steps rest next written := by
  rw [base64Steps,stepped]

theorem base64Steps_refused (refused : base64Step (base64Class c) s w = none) (rest : Bytes) :
    base64Steps (c :: rest) s w = none := by
  rw [base64Steps,refused]

section Quantum

variable {acc : Nat} {first second third fourth : Nat} {seen : Bool} {w : Wbuf}

private theorem byte_not_pad {v : Nat} (small : v < 64) :
    byte v ≠ base64Pad ∧ ¬ byte v ≥ base64Pad := by
  have value : (byte v).toNat = v := by rw [byte_toNat]; omega
  constructor
  · intro same
    have numbers := congrArg UInt8.toNat same
    rw [value] at numbers
    exact absurd numbers (Nat.ne_of_lt small)
  · intro above
    have numbers := UInt8.le_iff_toNat_le.mp above
    rw [value] at numbers
    exact absurd small (Nat.not_lt.mpr numbers)

theorem base64Step_first (small : first < 64) :
    base64Step (base64Class (symbol first)) ⟨acc,0,0,0,seen⟩ w =
      some (⟨(acc * 64 + first) % 4294967296,6,1,0,true⟩, w) := by
  have value : (byte first).toNat = first := by rw [byte_toNat]; omega
  obtain ⟨notPad,notAbove⟩ := byte_not_pad small
  rw [base64Class_symbol first small,base64Step,if_neg notPad,
    if_neg (not_or.mpr ⟨notAbove,not_not.mpr rfl⟩),value]
  rfl

theorem base64Step_emits {v : Nat} (small : v < 64) (acc left pos : Nat) (seen : Bool) (w : Wbuf) :
    base64Step (base64Class (symbol v)) ⟨acc,left + 2,pos,0,seen⟩ w =
      some (⟨(acc * 64 + v) % 4294967296,left,(pos + 1) % 4,0,true⟩,
        wbU8 ((acc * 64 + v) % 4294967296 / 2 ^ left % 256) w) := by
  have value : (byte v).toNat = v := by rw [byte_toNat]; omega
  obtain ⟨notPad,notAbove⟩ := byte_not_pad small
  rw [base64Class_symbol v small,base64Step,if_neg notPad,
    if_neg (not_or.mpr ⟨notAbove,not_not.mpr rfl⟩),value]
  have bits : left + 2 + 6 - 8 = left := by omega
  dsimp only
  rw [if_pos (by omega),bits]

theorem base64Step_second (small : second < 64) (carry : acc % 64 = first) :
    base64Step (base64Class (symbol second)) ⟨acc,6,1,0,seen⟩ w =
      some (⟨(acc * 64 + second) % 4294967296,4,2,0,true⟩,
        wbBytes [octet1 first second] w) := by
  have octet : byte ((acc * 64 + second) % 4294967296 / 2 ^ 4 % 256) =
      octet1 first second := byte_congr (by omega)
  rw [← octet]
  exact base64Step_emits small acc 4 1 seen w

theorem base64Step_third (small : third < 64) (carry : acc % 16 = second % 16) :
    base64Step (base64Class (symbol third)) ⟨acc,4,2,0,seen⟩ w =
      some (⟨(acc * 64 + third) % 4294967296,2,3,0,true⟩,
        wbBytes [octet2 second third] w) := by
  have octet : byte ((acc * 64 + third) % 4294967296 / 2 ^ 2 % 256) =
      octet2 second third := byte_congr (by omega)
  rw [← octet]
  exact base64Step_emits small acc 2 2 seen w

theorem base64Step_fourth (small : fourth < 64) (carry : acc % 4 = third % 4) :
    base64Step (base64Class (symbol fourth)) ⟨acc,2,3,0,seen⟩ w =
      some (⟨(acc * 64 + fourth) % 4294967296,0,0,0,true⟩,
        wbBytes [octet3 third fourth] w) := by
  have octet : byte ((acc * 64 + fourth) % 4294967296 / 2 ^ 0 % 256) =
      octet3 third fourth := byte_congr (by omega)
  rw [← octet]
  exact base64Step_emits small acc 0 3 seen w

theorem base64Step_padThird {nbits : Nat} :
    base64Step (base64Class pad) ⟨acc,nbits,2,0,seen⟩ w =
      some (⟨acc,nbits,3,1,seen⟩, w) := rfl

theorem base64Step_padFourth {nbits npad : Nat} (few : npad < 2) :
    base64Step (base64Class pad) ⟨acc,nbits,3,npad,seen⟩ w =
      some (⟨acc,nbits,0,npad + 1,seen⟩, w) := by
  change base64Step base64Pad _ w = _
  simp [base64Step,padOk,few]

/-- A character outside the alphabet is refused, a pad character where none may stand too. -/
theorem base64Step_other
    (outside : ∀ v, v < 64 → c ≠ symbol v) (unpadded : c = pad → padOk s = false) :
    base64Step (base64Class c) s w = none := by
  have above : ∀ v : UInt8, v ≠ base64Pad → v ≥ base64Pad → base64Step v s w = none := by
    intro v notPad high
    rw [base64Step,if_neg notPad,if_pos (.inl high)]
  rcases charClass_holds c with ⟨v,small,same,_⟩ | ⟨same,found⟩ | ⟨_,found⟩ | ⟨_,found⟩ |
    ⟨_,found⟩ | found
  · exact absurd same (outside v small)
  · rw [found,base64Step,if_pos rfl,unpadded same]
    rfl
  all_goals
    rw [found]
    exact above _ (by decide) (by decide)

private theorem symbol_or (c : UInt8) :
    (∃ v, v < 64 ∧ c = symbol v) ∨ ∀ v, v < 64 → c ≠ symbol v := by
  by_cases inside : ∃ v, v < 64 ∧ c = symbol v
  · exact .inl inside
  · exact .inr fun v small same => inside ⟨v,small,same⟩

theorem base64Step_padded (padded : s.npad ≠ 0)
    (unpadded : c = pad → padOk s = false) : base64Step (base64Class c) s w = none := by
  rcases symbol_or c with ⟨v,small,rfl⟩ | outside
  · rw [base64Class_symbol v small,base64Step,if_neg (byte_not_pad small).1,if_pos (.inr padded)]
  · exact base64Step_other outside unpadded

theorem base64Steps_closed {last : Base64State} (start : s.pos = 0) (padded : s.npad ≠ 0)
    (ran : base64Steps chars s w = some (last, written)) : chars = [] ∧ last = s := by
  cases chars with
  | nil =>
    cases ran
    exact ⟨rfl,rfl⟩
  | cons c rest =>
    have refused : padOk s = false := by simp [padOk,start]
    rw [base64Steps_refused (base64Step_padded padded fun _ => refused)] at ran
    cases ran

end Quantum

def wbEach (octets : Bytes) : Writer := wbAll (octets.map fun octet => wbBytes [octet])

theorem writes_each (octets : Bytes) : Writes (wbEach octets) octets := by
  have each : List.Forall₂ Writes (octets.map fun octet => wbBytes [octet])
      (octets.map fun octet => [octet]) := by
    induction octets with
    | nil => exact .nil
    | cons octet rest ih => exact .cons (writes_bytes [octet]) ih
  have together := writes_all each
  rwa [← flatMap_def,flatMap_singleton'] at together

structure Base64State.Ended (s : Base64State) : Prop where
  complete : s.pos = 0
  unused : s.acc % 2 ^ s.nbits = 0

/-- The decoder writes the octets of every well-formed encoding. -/
theorem base64Steps_encodes {octets : Bytes} (encodes : Encodes chars octets)
    (acc : Nat) (seen : Bool) (w : Wbuf) :
    ∃ s, base64Steps chars ⟨acc,0,0,0,seen⟩ w = some (s, wbEach octets w) ∧ s.Ended ∧
      (s.seen = true ↔ seen = true ∨ octets ≠ []) := by
  induction encodes generalizing acc seen w with
  | done => exact ⟨_,rfl,⟨rfl,Nat.mod_one _⟩,by simp⟩
  | @one first second firstSmall secondSmall unused =>
    have carry : (acc * 64 + first) % 4294967296 % 64 = first := by omega
    rw [base64Steps_cons (base64Step_first firstSmall),
      base64Steps_cons (base64Step_second secondSmall carry),base64Steps_cons base64Step_padThird,
      base64Steps_cons (base64Step_padFourth (by decide))]
    refine ⟨_,rfl,⟨rfl,?_⟩,by simp⟩
    dsimp only
    omega
  | @two first second third firstSmall secondSmall thirdSmall unused =>
    have carry : (acc * 64 + first) % 4294967296 % 64 = first := by omega
    have lower : ((acc * 64 + first) % 4294967296 * 64 + second) % 4294967296 % 16 =
        second % 16 := by omega
    rw [base64Steps_cons (base64Step_first firstSmall),
      base64Steps_cons (base64Step_second secondSmall carry),
      base64Steps_cons (base64Step_third thirdSmall lower),
      base64Steps_cons (base64Step_padFourth (by decide))]
    refine ⟨_,rfl,⟨rfl,?_⟩,by simp⟩
    dsimp only
    omega
  | @full first second third fourth chars octets firstSmall secondSmall thirdSmall fourthSmall
      _ ih =>
    have carry : (acc * 64 + first) % 4294967296 % 64 = first := by omega
    have lower : ((acc * 64 + first) % 4294967296 * 64 + second) % 4294967296 % 16 =
        second % 16 := by omega
    have lowest : (((acc * 64 + first) % 4294967296 * 64 + second) % 4294967296 * 64 + third) %
        4294967296 % 4 = third % 4 := by omega
    rw [base64Steps_cons (base64Step_first firstSmall),
      base64Steps_cons (base64Step_second secondSmall carry),
      base64Steps_cons (base64Step_third thirdSmall lower),
      base64Steps_cons (base64Step_fourth fourthSmall lowest)]
    obtain ⟨s,ran,ended,sawIt⟩ := ih _ true _
    refine ⟨s,ran,ended,?_⟩
    rw [sawIt]
    simp

/-- Characters the decoder takes to an end are a well-formed encoding. -/
theorem encodes_of_base64Steps {acc : Nat} {seen : Bool}
    (ran : base64Steps chars ⟨acc,0,0,0,seen⟩ w = some (s, written))
    (ended : s.Ended) : ∃ octets, Encodes chars octets := by
  -- by quanta: each character is one of the alphabet, a pad in the third or fourth
  -- place, or refused
  induction len : chars.length using Nat.strong_induction_on generalizing chars acc seen w with
  | _ n ih =>
  rcases chars with _ | ⟨c1,rest⟩
  · exact ⟨[],.done⟩
  rcases symbol_or c1 with ⟨first,firstSmall,rfl⟩ | outside
  swap
  · rw [base64Steps_refused (base64Step_other outside fun _ => rfl)] at ran
    cases ran
  rw [base64Steps_cons (base64Step_first firstSmall)] at ran
  rcases rest with _ | ⟨c2,rest⟩
  · cases ran
    exact absurd ended.complete Nat.one_ne_zero
  rcases symbol_or c2 with ⟨second,secondSmall,rfl⟩ | outside
  swap
  · rw [base64Steps_refused (base64Step_other outside fun _ => rfl)] at ran
    cases ran
  rw [base64Steps_cons (base64Step_second secondSmall rfl)] at ran
  rcases rest with _ | ⟨c3,rest⟩
  · cases ran
    exact absurd ended.complete (Nat.succ_ne_zero 1)
  rcases symbol_or c3 with ⟨third,thirdSmall,rfl⟩ | outside
  · rw [base64Steps_cons (base64Step_third thirdSmall rfl)] at ran
    rcases rest with _ | ⟨c4,rest⟩
    · cases ran
      exact absurd ended.complete (Nat.succ_ne_zero 2)
    rcases symbol_or c4 with ⟨fourth,fourthSmall,rfl⟩ | outside
    · rw [base64Steps_cons (base64Step_fourth fourthSmall rfl)] at ran
      have shorter : rest.length < n := by
        rw [← len]
        simp only [length_cons]
        omega
      obtain ⟨octets,encodes⟩ := ih rest.length shorter ran rfl
      exact ⟨_,.full firstSmall secondSmall thirdSmall fourthSmall encodes⟩
    · by_cases padded : c4 = pad
      · subst padded
        rw [base64Steps_cons (base64Step_padFourth (by decide))] at ran
        obtain ⟨rfl,rfl⟩ := base64Steps_closed rfl Nat.one_ne_zero ran
        have unused := ended.unused
        dsimp only at unused
        exact ⟨_,.two firstSmall secondSmall thirdSmall (by omega)⟩
      · rw [base64Steps_refused (base64Step_other outside fun same => absurd same padded)] at ran
        cases ran
  · by_cases padded : c3 = pad
    swap
    · rw [base64Steps_refused (base64Step_other outside fun same => absurd same padded)] at ran
      cases ran
    subst padded
    rw [base64Steps_cons base64Step_padThird] at ran
    rcases rest with _ | ⟨c4,rest⟩
    · cases ran
      exact absurd ended.complete (Nat.succ_ne_zero 2)
    by_cases padded : c4 = pad
    · subst padded
      rw [base64Steps_cons (base64Step_padFourth (by decide))] at ran
      obtain ⟨rfl,rfl⟩ := base64Steps_closed rfl (Nat.succ_ne_zero 1) ran
      have unused := ended.unused
      dsimp only at unused
      exact ⟨_,.one firstSmall secondSmall (by omega)⟩
    · rw [base64Steps_refused
        (base64Step_padded Nat.one_ne_zero fun same => absurd same padded)] at ran
      cases ran

/-! ### The loop over a body -/

def isBreak (c : UInt8) : Bool := c == charCr || c == charLf

def unwrapped (body : Bytes) : Bytes := body.filter fun c => !isBreak c

/-- A body and what it decodes to: line breaks anywhere, and without them the
encoding of a string that is not empty. -/
def Base64Body (body der : Bytes) : Prop := der ≠ [] ∧ unwrapped body = encode der

private theorem class_breaks_ofNat : ∀ n, n < 256 →
    (base64Class (UInt8.ofNat n) = base64Dash ↔ UInt8.ofNat n = charDash) ∧
      (base64Class (UInt8.ofNat n) = base64Cr ∨ base64Class (UInt8.ofNat n) = base64Lf ↔
        isBreak (UInt8.ofNat n) = true) := by
  decide +kernel

theorem class_dash_iff : base64Class c = base64Dash ↔ c = charDash := by
  have held := (class_breaks_ofNat c.toNat c.toNat_lt).1
  rwa [UInt8.ofNat_toNat] at held

theorem class_break_iff :
    base64Class c = base64Cr ∨ base64Class c = base64Lf ↔ isBreak c = true := by
  have held := (class_breaks_ofNat c.toNat c.toNat_lt).2
  rwa [UInt8.ofNat_toNat] at held

/-- What stands before the first dash of a text, by its first character. -/
theorem beforeDash_cons {c : UInt8} {text rest : Bytes} {holds : Bytes → Prop} :
    (∃ body, c :: text = body ++ charDash :: rest ∧ charDash ∉ body ∧ holds body) ↔
      c = charDash ∧ text = rest ∧ holds [] ∨
        c ≠ charDash ∧ ∃ body, text = body ++ charDash :: rest ∧ charDash ∉ body ∧
          holds (c :: body) := by
  constructor
  · rintro ⟨_ | ⟨head,body⟩,split,free,held⟩
    · obtain ⟨rfl,rfl⟩ := List.cons.inj split
      exact .inl ⟨rfl,rfl,held⟩
    · obtain ⟨rfl,rfl⟩ := List.cons.inj split
      rw [mem_cons,not_or] at free
      exact .inr ⟨Ne.symm free.1,body,rfl,free.2,held⟩
  · rintro (⟨rfl,rfl,held⟩ | ⟨other,body,rfl,free,held⟩)
    · exact ⟨[],rfl,not_mem_nil,held⟩
    · exact ⟨c :: body,rfl,by rw [mem_cons,not_or]; exact ⟨Ne.symm other,free⟩,held⟩

/-- The body ends at its first dash. -/
theorem bodyLoop_atDash {text : Bytes} {last : Base64State} {rest : Bytes} :
    bodyLoop s w text = ⟨true,last,written,rest⟩ ↔
      ∃ body, text = body ++ charDash :: rest ∧ charDash ∉ body ∧
        base64Steps (unwrapped body) s w = some (last, written) := by
  induction text generalizing s w with
  | nil =>
    constructor
    · intro ran
      cases ran
    · rintro ⟨body,same,-,-⟩
      simp at same
  | cons c text ih =>
    rw [beforeDash_cons]
    by_cases atDash : c = charDash
    · subst atDash
      rw [bodyLoop,if_pos (class_dash_iff.mpr rfl)]
      constructor
      · intro ran
        cases ran
        exact .inl ⟨rfl,rfl,rfl⟩
      · rintro (⟨-,rfl,ran⟩ | ⟨other,-⟩)
        · cases ran
          rfl
        · exact absurd rfl other
    rw [bodyLoop,if_neg fun found => atDash (class_dash_iff.mp found)]
    simp only [atDash,false_and,false_or,ne_eq,not_false_eq_true,true_and]
    cases breaks : isBreak c with
    | true =>
      have skipped : ∀ body, unwrapped (c :: body) = unwrapped body := fun body =>
        filter_cons_of_neg (by simp [breaks])
      rw [if_pos (class_break_iff.mpr breaks),ih]
      simp only [skipped]
    | false =>
      have kept : ∀ body, unwrapped (c :: body) = c :: unwrapped body := fun body =>
        filter_cons_of_pos (by simp [breaks])
      have notBreak : ¬ (base64Class c = base64Cr ∨ base64Class c = base64Lf) := fun found =>
        Bool.false_ne_true (breaks.symm.trans (class_break_iff.mp found))
      rw [if_neg notBreak]
      simp only [kept]
      rcases stepped : base64Step (base64Class c) s w with _ | ⟨next,after⟩
      · simp [base64Steps_refused stepped]
      · simp only [base64Steps_cons stepped]
        exact ih

/-! ### What a step accepts -/

structure Wbuf.Live (w : Wbuf) : Prop where
  noError : w.err = false
  inside : w.out.length ≤ w.cap

def Wbuf.append (w : Wbuf) (bytes : Bytes) : Wbuf := { w with out := w.out ++ bytes }

def Wbuf.Holds (w : Wbuf) (n : Nat) : Prop := w.out.length + n ≤ w.cap

/-- From a text and a writer without error the step returns exactly when the grammar has a
string in front of what it leaves and the octets it gives that string fit, and it then has
appended those octets. -/
def PemTakes (step : PemProc Unit) (grammar : Bytes → Bytes → Prop) : Prop :=
  ∀ text w next, w.Live → (step ⟨⟨text,false⟩,w⟩ = (.ok (), next) ↔
    ∃ front der rest, grammar front der ∧ text = front ++ rest ∧ w.Holds der.length ∧
      next = ⟨⟨rest,false⟩,w.append der⟩)

theorem Wbuf.append_nil (w : Wbuf) : w.append [] = w := by
  simp [Wbuf.append]

theorem Wbuf.append_append (w : Wbuf) (left right : Bytes) :
    (w.append left).append right = w.append (left ++ right) := by
  simp [Wbuf.append]

theorem Wbuf.Live.append (live : w.Live) (room : w.Holds der.length) : (w.append der).Live := by
  refine ⟨live.noError,?_⟩
  simp only [Wbuf.append,length_append]
  exact room

theorem Wbuf.holds_append {left : Bytes} {n : Nat} :
    (w.append left).Holds n ↔ w.Holds (left.length + n) := by
  simp only [Wbuf.Holds,Wbuf.append,length_append,Nat.add_assoc]

theorem Wbuf.Holds.mono {n m : Nat} (room : w.Holds m) (less : n ≤ m) : w.Holds n := by
  unfold Wbuf.Holds at room ⊢
  omega

theorem PemTakes.congr {step : PemProc Unit} {grammar other : Bytes → Bytes → Prop}
    (takes : PemTakes step grammar) (same : ∀ front der, grammar front der ↔ other front der) :
    PemTakes step other := by
  intro text w next live
  rw [takes text w next live]
  simp only [same]

theorem PemTakes.bind {first second : PemProc Unit} {grammar other : Bytes → Bytes → Prop}
    (takesFirst : PemTakes first grammar) (takesSecond : PemTakes second other) :
    PemTakes (first >>= fun _ => second) (fun front der => ∃ left right before after,
      grammar left before ∧ other right after ∧ front = left ++ right ∧ der = before ++ after) := by
  intro text w next live
  rw [bind_eq_ok]
  constructor
  · rintro ⟨⟨⟩,middle,ran,returned⟩
    obtain ⟨left,before,rest,inFirst,rfl,room,rfl⟩ := (takesFirst _ _ _ live).mp ran
    obtain ⟨right,after,rest,inSecond,rfl,roomAfter,rfl⟩ :=
      (takesSecond _ _ _ (live.append room)).mp returned
    refine ⟨left ++ right,before ++ after,rest,⟨left,right,before,after,inFirst,inSecond,rfl,rfl⟩,
      (append_assoc ..).symm,?_,?_⟩
    · rw [length_append]
      exact Wbuf.holds_append.mp roomAfter
    · rw [Wbuf.append_append]
  · rintro ⟨_,_,rest,⟨left,right,before,after,inFirst,inSecond,rfl,rfl⟩,rfl,room,rfl⟩
    rw [length_append] at room
    have roomFirst := room.mono (Nat.le_add_right _ _)
    refine ⟨(),⟨⟨right ++ rest,false⟩,w.append before⟩,?_,?_⟩
    · exact (takesFirst _ _ _ live).mpr ⟨left,before,right ++ rest,inFirst,append_assoc ..,
        roomFirst,rfl⟩
    · exact (takesSecond _ _ _ (live.append roomFirst)).mpr ⟨right,after,rest,inSecond,rfl,
        Wbuf.holds_append.mpr room,by rw [Wbuf.append_append]⟩

theorem takes_of_front {step : PemProc Unit} {among : Bytes → Prop}
    (takes : ∀ text w next, step ⟨⟨text,false⟩,w⟩ = (.ok (), next) ↔
      ∃ front rest, among front ∧ text = front ++ rest ∧ next = ⟨⟨rest,false⟩,w⟩) :
    PemTakes step (fun front der => among front ∧ der = []) := by
  intro text w next live
  rw [takes]
  constructor
  · rintro ⟨front,rest,inside,rfl,rfl⟩
    exact ⟨front,[],rest,⟨inside,rfl⟩,rfl,live.inside,by rw [Wbuf.append_nil]⟩
  · rintro ⟨front,der,rest,⟨inside,rfl⟩,rfl,-,rfl⟩
    exact ⟨front,rest,inside,rfl,by rw [Wbuf.append_nil]⟩

theorem matchBytes_takes (want : Bytes) :
    PemTakes (matchBytes want) (fun front der => front = want ∧ der = []) := by
  refine takes_of_front fun text w next => ?_
  constructor
  · intro returned
    obtain ⟨got,middle,took,matched⟩ := bind_eq_ok.mp returned
    rcases rbBytes_cases want.length text with ⟨taken,rest,_,rfl,read⟩ | ⟨_,read⟩
    · simp only [pemBytes,read] at took
      cases took
      by_cases same : taken = want
      · rw [if_pos (congrArg some same)] at matched
        cases matched
        exact ⟨taken,rest,same,rfl,rfl⟩
      · rw [if_neg fun equal => same (Option.some.inj equal)] at matched
        cases matched
    · simp only [pemBytes,read] at took
      cases took
      cases matched
  · rintro ⟨_,rest,rfl,rfl,rfl⟩
    rename_i front
    have took : pemBytes front.length ⟨⟨front ++ rest,false⟩,w⟩ =
        (.ok (some front), ⟨⟨rest,false⟩,w⟩) := by
      simp only [pemBytes,rbBytes_append]
    rw [matchBytes,bind_of_ok took,if_pos rfl]
    rfl

theorem pemU8_eq_ok {text : Bytes} {next : PemIo} :
    pemU8 ⟨⟨text,false⟩,w⟩ = (.ok c, next) ↔
      ∃ rest, text = c :: rest ∧ next = ⟨⟨rest,false⟩,w⟩ := by
  cases text with
  | nil =>
    constructor
    · intro returned
      cases returned
    · rintro ⟨rest,same,-⟩
      cases same
  | cons head rest =>
    have read : pemU8 ⟨⟨head :: rest,false⟩,w⟩ = (.ok head, ⟨⟨rest,false⟩,w⟩) := by
      simp [pemU8]
    rw [read]
    constructor
    · intro returned
      cases returned
      exact ⟨rest,rfl,rfl⟩
    · rintro ⟨_,same,rfl⟩
      cases same
      rfl

def LineBreak (eol : Bytes) : Prop := eol = [charLf] ∨ eol = [charCr,charLf]

theorem readEol_takes : PemTakes readEol (fun front der => LineBreak front ∧ der = []) := by
  refine takes_of_front fun text w next => ?_
  constructor
  · intro returned
    obtain ⟨c,middle,took,returned⟩ := bind_eq_ok.mp returned
    obtain ⟨rest,rfl,rfl⟩ := pemU8_eq_ok.mp took
    by_cases isCr : c = charCr
    · rw [if_pos isCr] at returned
      obtain ⟨second,middle,took,returned⟩ := bind_eq_ok.mp returned
      obtain ⟨rest,rfl,rfl⟩ := pemU8_eq_ok.mp took
      by_cases isLf : second = charLf
      · rw [if_pos isLf] at returned
        cases returned
        exact ⟨[charCr,charLf],rest,.inr rfl,by rw [isCr,isLf]; rfl,rfl⟩
      · rw [if_neg isLf] at returned
        cases returned
    · rw [if_neg isCr] at returned
      by_cases isLf : c = charLf
      · rw [if_pos isLf] at returned
        cases returned
        exact ⟨[charLf],rest,.inl rfl,by rw [isLf]; rfl,rfl⟩
      · rw [if_neg isLf] at returned
        cases returned
  · rintro ⟨front,rest,rfl | rfl,rfl,rfl⟩
    · rfl
    · rfl

private theorem symbol_ne_dash : ∀ v, v < 64 → charDash ≠ symbol v := by
  decide +kernel

theorem Base64Body.no_dash {body : Bytes} (inBody : Base64Body body der) : charDash ∉ body := by
  intro among
  have kept : charDash ∈ unwrapped body := mem_filter.mpr ⟨among,rfl⟩
  rw [inBody.2] at kept
  rcases (encodes_encode der).mem _ kept with same | ⟨v,small,same⟩
  · exact absurd same (by decide)
  · exact symbol_ne_dash v small same

theorem bodyOk_iff : bodyOk w s = true ↔ s.seen = true ∧ s.Ended ∧ w.err = false := by
  simp only [bodyOk,Bool.and_eq_true,beq_iff_eq,Bool.not_eq_true']
  constructor
  · rintro ⟨⟨⟨seen,complete⟩,unused⟩,noError⟩
    exact ⟨seen,⟨complete,unused⟩,noError⟩
  · rintro ⟨seen,⟨complete,unused⟩,noError⟩
    exact ⟨⟨⟨seen,complete⟩,unused⟩,noError⟩

theorem wbEach_live (live : w.Live) (octets : Bytes) :
    (wbEach octets w).err = false ↔ w.Holds octets.length ∧ wbEach octets w = w.append octets := by
  constructor
  · intro noError
    by_cases room : w.Holds octets.length
    · exact ⟨room,(writes_each octets).fits w live.noError room⟩
    · have overrun :=
        (writes_each octets).overrun w live.noError live.inside (Nat.lt_of_not_le room)
      rw [noError] at overrun
      cases overrun
  · rintro ⟨_,appended⟩
    rw [appended]
    exact live.noError

theorem decodeBody_takes :
    PemTakes decodeBody
      (fun front der => ∃ body, Base64Body body der ∧ front = body ++ [charDash]) := by
  intro text w next live
  constructor
  · intro returned
    rcases loop : bodyLoop base64Start w text with ⟨atDash,s,written,rest⟩
    simp only [decodeBody,loop,Bool.false_eq_true,if_false] at returned
    split at returned
    swap
    · cases returned
    rename_i accepted
    obtain ⟨rfl,accepted⟩ := Bool.and_eq_true_iff.mp accepted
    obtain ⟨seen,ended,noError⟩ := bodyOk_iff.mp accepted
    obtain ⟨body,rfl,_,stepped⟩ := bodyLoop_atDash.mp loop
    obtain ⟨der,encodes⟩ := encodes_of_base64Steps stepped ended
    obtain ⟨last,ran,_,sawIt⟩ := base64Steps_encodes encodes 0 false w
    obtain ⟨rfl,rfl⟩ := Prod.mk.inj (Option.some.inj (stepped.symm.trans ran))
    obtain ⟨room,appended⟩ := (wbEach_live live der).mp noError
    cases returned
    refine ⟨body ++ [charDash],der,rest,⟨body,⟨?_,encodes.eq_encode⟩,rfl⟩,append_cons ..,room,?_⟩
    · exact (sawIt.mp seen).resolve_left Bool.false_ne_true
    · rw [appended]
  · rintro ⟨_,der,rest,⟨body,inBody,rfl⟩,rfl,room,rfl⟩
    have encodes := encodes_encode der
    rw [← inBody.2] at encodes
    obtain ⟨last,ran,ended,sawIt⟩ := base64Steps_encodes encodes 0 false w
    have appended : wbEach der w = w.append der := (writes_each der).fits w live.noError room
    have loop : bodyLoop base64Start w ((body ++ [charDash]) ++ rest) =
        ⟨true,last,w.append der,rest⟩ := by
      refine bodyLoop_atDash.mpr ⟨body,(append_cons ..).symm,inBody.no_dash,?_⟩
      rw [← appended]
      exact ran
    have accepted : bodyOk (w.append der) last = true :=
      bodyOk_iff.mpr ⟨sawIt.mpr (.inr inBody.1),ended,live.noError⟩
    simp only [decodeBody,loop,accepted,Bool.false_eq_true,if_false,Bool.and_self,if_true]

theorem split_at_dash {left right after behind : Bytes} (free : charDash ∉ left)
    (freeToo : charDash ∉ right) (same : left ++ charDash :: after = right ++ charDash :: behind) :
    left = right ∧ after = behind := by
  have front : ∀ {chars : Bytes} (rest : Bytes), charDash ∉ chars →
      (chars ++ charDash :: rest).takeWhile (· != charDash) = chars := by
    intro chars rest noDash
    rw [takeWhile_append_of_pos]
    · simp
    · intro c among
      exact bne_iff_ne.mpr fun dash => noDash (dash ▸ among)
  have fronts := congrArg (takeWhile (· != charDash)) same
  rw [front after free,front behind freeToo] at fronts
  subst fronts
  exact ⟨rfl,(List.cons.inj (append_cancel_left same)).2⟩

theorem base64_encode_inj {other : Bytes} (same : encode der = encode other) : der = other := by
  have encodes := encodes_encode der
  rw [same] at encodes
  have room : (wbInit (der.length + other.length)).Live := ⟨rfl,Nat.zero_le _⟩
  obtain ⟨last,ran,_,_⟩ := base64Steps_encodes encodes 0 false (wbInit (der.length + other.length))
  obtain ⟨last',ran',_,_⟩ := base64Steps_encodes (encodes_encode other) 0 false
    (wbInit (der.length + other.length))
  have written : wbEach der (wbInit (der.length + other.length)) =
      wbEach other (wbInit (der.length + other.length)) :=
    (Prod.mk.inj (Option.some.inj (ran.symm.trans ran'))).2
  rw [(writes_each der).fits _ room.noError (by simp [wbInit]),
    (writes_each other).fits _ room.noError (by simp [wbInit])] at written
  exact congrArg Wbuf.out written

/-- What the decoder makes of a body up to its first dash.  It accepts the wrapped
encodings alone and writes what they carry, so that it gives back what was
encoded, and bodies with one output differ in their line breaks only. -/
theorem decodeBody_exact {body : Bytes} {w : Wbuf} (free : charDash ∉ body) (live : w.Live)
    (rest : Bytes) :
    (∀ next, decodeBody ⟨⟨body ++ charDash :: rest,false⟩,w⟩ = (.ok (), next) ↔
      ∃ der, der ≠ [] ∧ unwrapped body = encode der ∧ w.Holds der.length ∧
        next = ⟨⟨rest,false⟩,w.append der⟩) ∧
    (∀ der, der ≠ [] → w.Holds der.length → unwrapped body = encode der →
      decodeBody ⟨⟨body ++ charDash :: rest,false⟩,w⟩ =
        (.ok (), ⟨⟨rest,false⟩,w.append der⟩)) ∧
    (∀ other next next', charDash ∉ other →
      decodeBody ⟨⟨body ++ charDash :: rest,false⟩,w⟩ = (.ok (), next) →
      decodeBody ⟨⟨other ++ charDash :: rest,false⟩,w⟩ = (.ok (), next') →
      (next.der = next'.der ↔ unwrapped body = unwrapped other)) := by
  have accepts : ∀ {chars : Bytes}, charDash ∉ chars → ∀ next,
      decodeBody ⟨⟨chars ++ charDash :: rest,false⟩,w⟩ = (.ok (), next) ↔
        ∃ der, der ≠ [] ∧ unwrapped chars = encode der ∧ w.Holds der.length ∧
          next = ⟨⟨rest,false⟩,w.append der⟩ := by
    intro chars noDash next
    rw [decodeBody_takes _ _ _ live]
    constructor
    · rintro ⟨_,der,after,⟨found,inBody,rfl⟩,split,room,rfl⟩
      rw [← append_cons] at split
      obtain ⟨rfl,rfl⟩ := split_at_dash noDash inBody.no_dash split
      exact ⟨der,inBody.1,inBody.2,room,rfl⟩
    · rintro ⟨der,filled,spelled,room,rfl⟩
      exact ⟨_,der,rest,⟨chars,⟨filled,spelled⟩,rfl⟩,append_cons ..,room,rfl⟩
  refine ⟨accepts free,fun der filled room spelled => (accepts free _).mpr
    ⟨der,filled,spelled,room,rfl⟩,?_⟩
  intro other next next' noDash first second
  obtain ⟨der,_,spelled,_,rfl⟩ := (accepts free next).mp first
  obtain ⟨der',_,spelled',_,rfl⟩ := (accepts noDash next').mp second
  rw [spelled,spelled']
  constructor
  · intro same
    rw [append_cancel_left (congrArg Wbuf.out same)]
  · intro same
    rw [base64_encode_inj same]

/-- A wrapped body, and the same one on one line. -/
theorem decodeBody_exact_wrapped :
    decodeBody ⟨⟨[0x41,charLf,0x51,0x49,charCr,charLf,0x44] ++ charDash :: [],false⟩,
        wbInit 3⟩ = (.ok (), ⟨⟨[],false⟩,(wbInit 3).append [1,2,3]⟩) ∧
      unwrapped [0x41,charLf,0x51,0x49,charCr,charLf,0x44] = encode [1,2,3] := by
  have spelled : unwrapped [0x41,charLf,0x51,0x49,charCr,charLf,0x44] =
      encode [1,2,3] := by decide
  exact ⟨(decodeBody_exact (by decide) ⟨rfl,Nat.zero_le _⟩ []).2.1 [1,2,3] (by decide)
    (Nat.le_refl 3) spelled,spelled⟩

/-! ### A block -/

def boundaryLine (lead : Bytes) (label : PemLabel) : Bytes :=
  lead ++ (label.bytes ++ boundaryDashes)

def PemBlock (label : PemLabel) (block der : Bytes) : Prop :=
  ∃ eol body, LineBreak eol ∧ Base64Body body der ∧
    block = boundaryLine beginMarker label ++ (eol ++ (body ++ boundaryLine endMarker label))

theorem matchLine_takes (lead : Bytes) (label : PemLabel) :
    PemTakes (matchLine lead label)
      (fun front der => front = boundaryLine lead label ∧ der = []) := by
  have takes := (matchBytes_takes lead).bind
    ((matchBytes_takes label.bytes).bind (matchBytes_takes boundaryDashes))
  refine takes.congr fun front der => ?_
  constructor
  · rintro ⟨_,_,_,_,⟨rfl,rfl⟩,⟨_,_,_,_,⟨rfl,rfl⟩,⟨rfl,rfl⟩,rfl,rfl⟩,rfl,rfl⟩
    exact ⟨rfl,rfl⟩
  · rintro ⟨rfl,rfl⟩
    exact ⟨_,_,_,_,⟨rfl,rfl⟩,⟨_,_,_,_,⟨rfl,rfl⟩,⟨rfl,rfl⟩,rfl,rfl⟩,rfl,rfl⟩

theorem pemReadBlock_takes (label : PemLabel) : PemTakes (pemReadBlock label) (PemBlock label) := by
  have takes := (matchLine_takes beginMarker label).bind
    (readEol_takes.bind (decodeBody_takes.bind (matchLine_takes endMarker.tail label)))
  have closing : ∀ body : Bytes, body ++ boundaryLine endMarker label =
      (body ++ [charDash]) ++ boundaryLine endMarker.tail label := by
    intro body
    rw [append_assoc]
    rfl
  refine takes.congr fun front der => ?_
  constructor
  · rintro ⟨_,_,_,_,⟨rfl,rfl⟩,⟨eol,_,_,_,⟨breaks,rfl⟩,⟨_,_,_,_,⟨body,inBody,rfl⟩,⟨rfl,rfl⟩,rfl,rfl⟩,
      rfl,rfl⟩,rfl,rfl⟩
    refine ⟨eol,body,breaks,?_,by rw [closing]⟩
    simpa using inBody
  · rintro ⟨eol,body,breaks,inBody,rfl⟩
    exact ⟨_,_,[],_,⟨rfl,rfl⟩,⟨eol,_,[],_,⟨breaks,rfl⟩,
      ⟨_,_,der,[],⟨body,inBody,rfl⟩,⟨rfl,rfl⟩,rfl,rfl⟩,rfl,rfl⟩,by rw [closing],by simp⟩

end Chapulin
