/-
How much one write seals into a number of record bytes (`tls_write.c`):
`ch_writable_len` computes in closed form what the loop of `ch_write` sends.

Sizes are computed as a `size_t` of `width` bits computes them; a sum, a product
or a difference that would leave the type has no result.
-/

import Chapulin.Lib.Pieces
import Chapulin.Server.Records
import Chapulin.Tcp.Limits

namespace Chapulin

open Lib Proc List

/-! ### The computation -/

section Size

variable (width : Nat)

def sizeAdd (a b : Nat) : Option Nat := if a + b < 2 ^ width then some (a + b) else none

def sizeMul (a b : Nat) : Option Nat := if a * b < 2 ^ width then some (a * b) else none

def sizeSub (a b : Nat) : Option Nat := if b ≤ a then some (a - b) else none

theorem sizeAdd_fits {width a b : Nat} (fits : a + b < 2 ^ width) :
    sizeAdd width a b = some (a + b) := if_pos fits

theorem sizeMul_fits {width a b : Nat} (fits : a * b < 2 ^ width) :
    sizeMul width a b = some (a * b) := if_pos fits

def sizeSubOrZero (a b : Nat) : Option Nat := if a > b then sizeSub a b else some 0

theorem sizeSub_fits {a b : Nat} (fits : b ≤ a) : sizeSub a b = some (a - b) := if_pos fits

theorem sizeSubOrZero_eq (a b : Nat) : sizeSubOrZero a b = some (a - b) := by
  unfold sizeSubOrZero
  split
  · exact sizeSub_fits (by omega)
  · exact congrArg some (by omega)

end Size

def keyUpdateRecordLen : Nat := 27

section Writable

variable (e : Env) (width : Nat)

def sizeMax : Nat := 2 ^ width - 1

def recordsPerKey (t : Tls) : Nat :=
  if recAead e t.wr then recAesGcmRecordsMax - 1 else sizeMax width

def recordsBeforeKeyUpdate (t : Tls) : Nat :=
  if t.keyUpdateOwed then 0
  else
    let perKey := recordsPerKey e width t
    if perKey = sizeMax width then sizeMax width
    else if t.wr.seq < perKey then perKey - t.wr.seq else 0

/-- `records_fill`: the most plaintext, and the number of records. -/
def recordsFill (cap limit : Nat) : Option (Nat × Nat) := do
  let whole := cap / (← sizeAdd width limit recOverhead)
  let inWhole ← sizeMul width whole limit
  let overhead ← sizeMul width (← sizeAdd width whole 1) recOverhead
  let withOneMore ← sizeSubOrZero cap overhead
  if withOneMore > inWhole then some (withOneMore, whole + 1) else some (inWhole, whole)

def fillAcrossKeyUpdate (cap limit room perKey : Nat) : Option Nat := do
  let before ← sizeMul width room (← sizeAdd width limit recOverhead)
  let left ← sizeSub cap before
  let rest ← sizeSubOrZero left keyUpdateRecordLen
  let (fill, records) ← recordsFill width rest limit
  let after ← (if records > perKey then sizeMul width perKey limit else some fill)
  sizeAdd width (← sizeMul width room limit) after

def tlsWritableLen (t : Tls) (cap : Nat) : Option Nat :=
  let limit := recordPlaintextMax e t
  if limit = 0 then some 0
  else do
    let (fill, records) ← recordsFill width cap limit
    let room := recordsBeforeKeyUpdate e width t
    if records > room then
      fillAcrossKeyUpdate width cap limit room (recordsPerKey e width t)
    else some fill

end Writable

/-! ### What it computes -/

section Fill

variable {width cap limit : Nat} (wide : 32 ≤ width) (positive : 0 < limit)
  (bounded : limit ≤ 16384)
  (fits : cap < 2 ^ width)

abbrev RecordsFit (cap limit n : Nat) : Prop := n + recOverhead * (n ⌈/⌉ limit) ≤ cap

theorem width_large (wide : 32 ≤ width) : 4294967296 ≤ 2 ^ width :=
  Nat.pow_le_pow_right (Nat.succ_pos 1) wide

include wide positive bounded fits

/-- The fill is the largest size that fits in records. -/
theorem recordsFill_spec : ∃ fill, recordsFill width cap limit = some (fill, fill ⌈/⌉ limit) ∧
    ∀ n, n ≤ fill ↔ RecordsFit cap limit n := by
  have large := width_large wide
  have exact := fun n => @fits_iff limit positive cap 22 n
  have low : cap / (limit + 22) * (limit + 22) ≤ cap := Nat.div_mul_le_self cap (limit + 22)
  have high : cap < (cap / (limit + 22) + 1) * (limit + 22) := by
    have size : 0 < limit + 22 := by omega
    rw [Nat.add_one_mul]
    exact Nat.lt_div_mul_add size
  have filled : cap / (limit + 22) ≤ cap / (limit + 22) * limit :=
    Nat.le_mul_of_pos_right _ positive
  have overheadIs : recOverhead = 22 := rfl
  unfold recordsFill RecordsFit
  rw [overheadIs,sizeAdd_fits (by omega)]
  simp only [Option.bind_eq_bind,Option.bind_some]
  generalize cap / (limit + 22) = whole at exact low high filled
  rw [Nat.mul_add] at low high
  rw [sizeMul_fits (by omega),sizeAdd_fits (by omega)]
  simp only [Option.bind_some]
  rw [sizeMul_fits (by omega)]
  simp only [Option.bind_some,sizeSubOrZero_eq]
  by_cases more : cap - (whole + 1) * 22 > whole * limit
  · rw [if_pos more]
    have count : (cap - (whole + 1) * 22) ⌈/⌉ limit = whole + 1 :=
      ceilDiv_eq positive (by omega) (.inr (by rw [Nat.add_sub_cancel]; exact more))
    refine ⟨_,by rw [count],fun n => ?_⟩
    rw [exact,Nat.max_eq_right (Nat.le_of_lt more)]
  · rw [if_neg more]
    have count : (whole * limit) ⌈/⌉ limit = whole := by
      have split := ceilDiv_mul_add positive 0 whole
      rwa [Nat.add_zero,zero_ceilDiv,Nat.add_zero] at split
    refine ⟨_,by rw [count],fun n => ?_⟩
    rw [exact,Nat.max_eq_left (by omega)]

/-- With more records than the key has left, what counts is the rest of `cap`
behind them and behind the KeyUpdate. -/
theorem fillAcrossKeyUpdate_spec {room perKey : Nat} {each : Option Nat}
    (more : RecordsFit cap limit (room * limit + 1))
    (limited : ∀ uses, uses ≤ cap → (renewals each (some 0) uses ≤ 1 ↔ uses ≤ perKey)) :
    ∃ fill, fillAcrossKeyUpdate width cap limit room perKey = some fill ∧
      ∀ n, n ≤ fill ↔ renewals each (some room) (n ⌈/⌉ limit) ≤ 1 ∧
        n + recOverhead * (n ⌈/⌉ limit) +
          keyUpdateRecordLen * renewals each (some room) (n ⌈/⌉ limit) ≤ cap := by
  have large := width_large wide
  have overheadIs : recOverhead = 22 := rfl
  have updateIs : keyUpdateRecordLen = 27 := rfl
  have before : room * limit + 1 + 22 * (room + 1) ≤ cap := by
    have count : (room * limit + 1) ⌈/⌉ limit = room + 1 := by
      rw [ceilDiv_mul_add positive,ceilDiv_eq positive (m := 1) (by omega) (.inr (by omega))]
    rwa [RecordsFit,count,overheadIs] at more
  obtain ⟨fill,filled,exact⟩ := @recordsFill_spec width (cap - room * (limit + 22) - 27) limit wide
    positive bounded (by omega)
  have whole : room * (limit + 22) = room * limit + room * 22 := Nat.mul_add ..
  have within : fill ≤ cap - room * (limit + 22) - 27 := by
    have fitting := (exact fill).mp (Nat.le_refl _)
    rw [RecordsFit,overheadIs] at fitting
    omega
  obtain ⟨after,chosen,bound⟩ : ∃ after, (if fill ⌈/⌉ limit > perKey then
      sizeMul width perKey limit else some fill) = some after ∧
      ∀ k, k ≤ after ↔ k ≤ fill ∧ k ⌈/⌉ limit ≤ perKey := by
    by_cases many : fill ⌈/⌉ limit > perKey
    · have short := (lt_ceilDiv positive).mp many
      refine ⟨perKey * limit,?_,fun k => ?_⟩
      · rw [if_pos many,sizeMul_fits (by omega)]
      · rw [ceilDiv_le positive]
        omega
    · refine ⟨fill,if_neg many,fun k => ⟨fun le => ⟨le,?_⟩,And.left⟩⟩
      have few := ceilDiv_mono positive le
      omega
  refine ⟨room * limit + after,?_,fun n => ?_⟩
  · have under : after ≤ fill := ((bound after).mp (Nat.le_refl _)).1
    unfold fillAcrossKeyUpdate
    rw [overheadIs,updateIs,sizeAdd_fits (by omega)]
    simp only [Option.bind_eq_bind,Option.bind_some]
    rw [sizeMul_fits (by omega)]
    simp only [Option.bind_some]
    rw [sizeSub_fits (by omega)]
    simp only [Option.bind_some,sizeSubOrZero_eq,filled,chosen]
    rw [sizeMul_fits (by omega)]
    simp only [Option.bind_some]
    exact sizeAdd_fits (by omega)
  · rw [overheadIs,updateIs]
    by_cases early : n ≤ room * limit
    · have few := (ceilDiv_le positive).mpr early
      rw [renewals_eq_zero.mpr few]
      omega
    obtain ⟨k,rfl⟩ : ∃ k, n = room * limit + k := ⟨n - room * limit,by omega⟩
    have present : 0 < k ⌈/⌉ limit := (lt_ceilDiv positive).mpr (by omega)
    have few : k ⌈/⌉ limit ≤ k := (ceilDiv_le positive).mpr (Nat.le_mul_of_pos_right _ positive)
    have once : renewals each (Option.some 0) (k ⌈/⌉ limit) ≠ 0 := fun absent =>
      absurd (renewals_eq_zero.mp absent) (by omega)
    have fitting := exact k
    rw [RecordsFit,overheadIs] at fitting
    have served := limited (k ⌈/⌉ limit)
    have bounded := bound k
    rw [ceilDiv_mul_add positive,renewals_skip]
    generalize renewals each (Option.some 0) (k ⌈/⌉ limit) = updates at once served
    omega

end Fill

/-! ### The writer -/

section Writer

variable (e : Env)

/-- How many data records the write key still seals, none when nothing limits it. -/
def Tls.recordsLeft (t : Tls) : Option Nat :=
  if t.keyUpdateOwed then some 0
  else if recAead e t.wr then some (recAesGcmRecordsMax - 1 - t.wr.seq) else none

def Tls.recordsEach (t : Tls) : Option Nat :=
  if recAead e t.wr then some (recAesGcmRecordsMax - 1) else none

/-- The KeyUpdates among `records` data records. -/
def Tls.updates (t : Tls) (records : Nat) : Nat :=
  renewals (t.recordsEach e) (t.recordsLeft e) records

/-- The data records of a write of `n` bytes. -/
def Tls.records (t : Tls) (n : Nat) : Nat := n ⌈/⌉ recordPlaintextMax e t

/-- The record bytes of a write of `n` bytes. -/
def Tls.wireLen (t : Tls) (n : Nat) : Nat :=
  n + recOverhead * t.records e n + keyUpdateRecordLen * t.updates e (t.records e n)

variable {e} {width cap : Nat} {t : Tls} (wide : 32 ≤ width) (fits : cap < 2 ^ width)

theorem recordPlaintextMax_le : recordPlaintextMax e t ≤ 16384 :=
  Nat.le_trans (Nat.min_le_right _ _) e.build.txPtRange.2

theorem recordPlaintextMax_pos : 0 < recordPlaintextMax e t ↔ 0 < t.peerLimit := by
  have range := e.build.txPtRange
  unfold recordPlaintextMax
  omega

include wide in
theorem recordsBeforeKeyUpdate_eq : t.recordsLeft e = some (recordsBeforeKeyUpdate e width t) ∨
    t.recordsLeft e = none ∧ recordsBeforeKeyUpdate e width t = sizeMax width := by
  have large := width_large wide
  unfold Tls.recordsLeft recordsBeforeKeyUpdate recordsPerKey
  cases t.keyUpdateOwed with
  | true => exact .inl rfl
  | false =>
    cases recAead e t.wr with
    | false => exact .inr ⟨rfl,if_pos rfl⟩
    | true =>
      refine .inl (congrArg some ?_)
      have bound : recAesGcmRecordsMax = 16777216 := rfl
      simp only [if_true,Bool.false_eq_true,if_false,sizeMax]
      rw [if_neg (by omega)]
      split <;> omega

include fits in
theorem recordsPerKey_limits (uses : Nat) (few : uses ≤ cap) :
    renewals (t.recordsEach e) (some 0) uses ≤ 1 ↔ uses ≤ recordsPerKey e width t := by
  unfold Tls.recordsEach recordsPerKey
  cases recAead e t.wr with
  | true =>
    have each := @renewals_le_one uses 0 (recAesGcmRecordsMax - 1) (by decide)
    simpa only [if_true,Nat.zero_add] using each
  | false =>
    have once := @renewals_unlimited uses 0
    have below : uses ≤ sizeMax width := by
      unfold sizeMax
      omega
    simp [once,below]

include wide fits in
/-- Nothing wraps, and the answer is the most whose records fit with one
KeyUpdate among them. -/
theorem tlsWritableLen_spec (positive : 0 < t.peerLimit) :
    ∃ n, tlsWritableLen e width t cap = some n ∧
      ∀ m, m ≤ n ↔ t.updates e (t.records e m) ≤ 1 ∧ t.wireLen e m ≤ cap := by
  have present := (@recordPlaintextMax_pos e t).mpr positive
  obtain ⟨fill,filled,exact⟩ :=
    @recordsFill_spec width cap (recordPlaintextMax e t) wide present recordPlaintextMax_le fits
  have whole : tlsWritableLen e width t cap =
      if fill ⌈/⌉ recordPlaintextMax e t > recordsBeforeKeyUpdate e width t then
        fillAcrossKeyUpdate width cap (recordPlaintextMax e t) (recordsBeforeKeyUpdate e width t)
          (recordsPerKey e width t)
      else Option.some fill := by
    unfold tlsWritableLen
    rw [if_neg (Nat.pos_iff_ne_zero.mp present),filled]
    rfl
  rw [whole]
  have within : fill ≤ cap := Nat.le_trans (Nat.le_add_right _ _) ((exact fill).mp (Nat.le_refl _))
  have records : fill ⌈/⌉ recordPlaintextMax e t ≤ fill :=
    (ceilDiv_le present).mpr (Nat.le_mul_of_pos_right _ present)
  unfold Tls.wireLen Tls.updates Tls.records
  by_cases many : fill ⌈/⌉ recordPlaintextMax e t > recordsBeforeKeyUpdate e width t
  · rw [if_pos many]
    have left : t.recordsLeft e = Option.some (recordsBeforeKeyUpdate e width t) := by
      rcases @recordsBeforeKeyUpdate_eq e width t wide with left | ⟨_,all⟩
      · exact left
      · unfold sizeMax at all
        omega
    rw [left]
    exact fillAcrossKeyUpdate_spec wide present recordPlaintextMax_le fits
      ((exact _).mp ((lt_ceilDiv present).mp many)) (recordsPerKey_limits fits)
  · rw [if_neg many]
    refine ⟨fill,rfl,fun m => ?_⟩
    have absent (le : m ≤ fill) : renewals (t.recordsEach e) (t.recordsLeft e)
        (m ⌈/⌉ recordPlaintextMax e t) = 0 := by
      rcases @recordsBeforeKeyUpdate_eq e width t wide with left | ⟨left,_⟩
      · rw [left,renewals_eq_zero]
        have fewer := ceilDiv_mono present le
        omega
      · rw [left,renewals_none]
    constructor
    · intro le
      rw [absent le]
      exact ⟨Nat.zero_le _,(exact m).mp le⟩
    · rintro ⟨_,fitting⟩
      exact (exact m).mpr (Nat.le_trans (Nat.le_add_right _ _) fitting)

end Writer

/-! ### What the loop sends -/

def Io.sentBytes (io : Io) : Nat := (io.sent.map List.length).sum

def partsTotal (parts : List Bytes) : Nat := (parts.map List.length).sum

@[simp] theorem partsTotal_nil : partsTotal [] = 0 := rfl

@[simp] theorem partsTotal_cons (part : Bytes) (parts : List Bytes) :
    partsTotal (part :: parts) = part.length + partsTotal parts := by
  simp [partsTotal]

theorem partsTotal_skipEmpty (parts : List Bytes) :
    partsTotal (partsSkipEmpty parts) = partsTotal parts := by
  induction parts with
  | nil => rfl
  | cons part parts ih =>
    unfold partsSkipEmpty at ih ⊢
    by_cases empty : part = []
    · subst empty
      rw [dropWhile_cons_of_pos (by rfl),ih,partsTotal_cons,length_nil,Nat.zero_add]
    · rw [dropWhile_cons_of_neg (by simpa using empty)]

theorem partsTotal_pos {parts left : List Bytes} {part : Bytes}
    (skipped : partsSkipEmpty parts = part :: left) : 0 < partsTotal parts := by
  induction parts with
  | nil => cases skipped
  | cons first parts ih =>
    unfold partsSkipEmpty at ih skipped
    rw [partsTotal_cons]
    by_cases empty : first = []
    · subst empty
      rw [dropWhile_cons_of_pos (by rfl)] at skipped
      have filled := ih skipped
      omega
    · have filled := length_pos_iff.mpr empty
      omega

theorem partsCopyRecord_total (limit : Nat) (parts : List Bytes) :
    (partsCopyRecord limit parts).1.length = min limit (partsTotal parts) ∧
      partsTotal (partsCopyRecord limit parts).2 =
        partsTotal parts - min limit (partsTotal parts) := by
  induction parts generalizing limit with
  | nil => cases limit <;> simp [partsCopyRecord]
  | cons part parts ih =>
    cases limit with
    | zero => simp [partsCopyRecord]
    | succ room =>
      rw [partsCopyRecord]
      split
      · obtain ⟨copied,left⟩ := ih (room + 1 - part.length)
        simp only [length_append,copied,left,partsTotal_cons]
        omega
      · simp only [length_take,partsTotal_cons,length_drop]
        omega

section Sent

variable {e : Env} {s next : St}

theorem sendStaged_ok {rec : Bytes} (ran : sendStaged rec s = (.ok (), next)) :
    next.t = s.t ∧ next.io.sent = s.io.sent ++ [rec] := by
  unfold sendStaged onIo Proc.within at ran
  rcases sent : ioSendAll rec { s.io with tx := copyAt s.io.tx 0 rec } with ⟨rc | _,io⟩
  · rw [sent] at ran
    cases ran
  · rw [sent] at ran
    cases ran
    have appended := ioSendAll_sent sent
    exact ⟨rfl,appended⟩

theorem sentBytes_sealed (aead : AeadSound e.toCrypto) {d after : RecDir} {type cap : Nat}
    {pt rec : Bytes} (sealed : recSeal e d type pt cap = some (rec, after))
    (sent : next.io.sent = s.io.sent ++ [rec]) :
    next.io.sentBytes = s.io.sentBytes + (pt.length + recOverhead) := by
  simp [Io.sentBytes,sent,recSeal_length aead sealed]

theorem recAead_update (secret : Bytes) (d : RecDir) :
    recAead e (recDirUpdate e secret d).2 = recAead e d := by
  change suiteRunsAesGcm e.build (keySuite e.build d.suite) = suiteRunsAesGcm e.build d.suite
  unfold suiteRunsAesGcm keySuite
  cases e.build.aesGcm <;> rfl

structure Tls.Renewed (e : Env) (t after : Tls) : Prop where
  suite : recAead e after.wr = recAead e t.wr
  seq : after.wr.seq = 0
  owed : after.keyUpdateOwed = false
  epochs : after.sendEpochs = t.sendEpochs + 1

structure Tls.Advanced (e : Env) (t after : Tls) : Prop where
  suite : recAead e after.wr = recAead e t.wr
  seq : after.wr.seq = t.wr.seq + 1
  owed : after.keyUpdateOwed = t.keyUpdateOwed
  epochs : after.sendEpochs = t.sendEpochs

variable {t after : Tls} {records : Nat}

theorem recordsEach_ne_zero (t : Tls) : t.recordsEach e ≠ some 0 := by
  unfold Tls.recordsEach
  cases recAead e t.wr <;> decide

theorem Tls.Renewed.left (renewed : t.Renewed e after) : after.recordsLeft e ≠ some 0 := by
  unfold Tls.recordsLeft
  rw [renewed.owed,renewed.seq]
  cases recAead e after.wr <;> decide

theorem Tls.Renewed.updates (renewed : t.Renewed e after) (empty : t.recordsLeft e = some 0) :
    t.updates e (records + 1) = after.updates e (records + 1) + 1 := by
  have each : after.recordsEach e = t.recordsEach e := by
    unfold Tls.recordsEach
    rw [renewed.suite]
  have left : after.recordsLeft e = t.recordsEach e := by
    unfold Tls.recordsLeft Tls.recordsEach
    rw [renewed.owed,renewed.seq,renewed.suite]
    rfl
  unfold Tls.updates
  rw [each,left,empty]
  have serves := @recordsEach_ne_zero e t
  rcases found : t.recordsEach e with _ | _ | rest
  · simp [renewals]
  · exact absurd found serves
  · rfl

theorem Tls.Advanced.updates (advanced : t.Advanced e after) (serves : t.recordsLeft e ≠ some 0) :
    t.updates e (records + 1) = after.updates e records := by
  have each : after.recordsEach e = t.recordsEach e := by
    unfold Tls.recordsEach
    rw [advanced.suite]
  have left : after.recordsLeft e = (t.recordsLeft e).map (· - 1) := by
    unfold Tls.recordsLeft
    rw [advanced.owed,advanced.seq,advanced.suite]
    cases t.keyUpdateOwed <;> cases recAead e t.wr <;> simp
    omega
  unfold Tls.updates
  rw [each,left]
  rcases found : t.recordsLeft e with _ | _ | rest
  · simp
  · exact absurd found serves
  · rfl

theorem hspostSendKeyUpdate_ok (ran : hspostSendKeyUpdate e s = (.ok (), next)) :
    s.t.Renewed e next.t ∧ ∃ rec wr,
      recSeal e s.t.wr recHandshake keyUpdateMessage (txCap e.build) = some (rec, wr) ∧
        next.io.sent = s.io.sent ++ [rec] := by
  unfold hspostSendKeyUpdate at ran
  rcases sealed : recSeal e s.t.wr recHandshake keyUpdateMessage (txCap e.build) with _ | ⟨rec,wr⟩
  · rw [sealed] at ran
    cases ran
  rw [sealed] at ran
  dsimp only at ran
  rcases sent : sendStaged rec { s with t := { s.t with wr := wr } } with ⟨rc | _,middle⟩
  · rw [sent] at ran
    cases ran
  rw [sent] at ran
  cases ran
  obtain ⟨same,appended⟩ := sendStaged_ok sent
  refine ⟨⟨?_,rfl,rfl,by rw [same]⟩,rec,wr,rfl,appended⟩
  obtain ⟨_,_,_,_,_,rfl⟩ := recSeal_eq_some.mp sealed
  rw [recAead_update,same]
  rfl

theorem keyUpdateDue_iff (t : Tls) : keyUpdateDue e t = true ↔ t.recordsLeft e = some 0 := by
  unfold keyUpdateDue Tls.recordsLeft
  cases t.keyUpdateOwed <;> cases recAead e t.wr <;> simp
  omega

theorem keyUpdateBeforeRecord_ok (aead : AeadSound e.toCrypto)
    (ran : keyUpdateBeforeRecord e s = (.ok (), next)) :
    (s.t.recordsLeft e ≠ some 0 ∧ next = s) ∨
      (s.t.recordsLeft e = some 0 ∧ s.t.Renewed e next.t ∧
        next.io.sentBytes = s.io.sentBytes + keyUpdateRecordLen) := by
  unfold keyUpdateBeforeRecord at ran
  split at ran
  · rename_i idle
    cases ran
    refine .inl ⟨fun absent => ?_,rfl⟩
    rw [(keyUpdateDue_iff s.t).mpr absent] at idle
    cases idle
  rename_i due
  split at ran
  · cases ran
  rcases sent : hspostSendKeyUpdate e s with ⟨rc | _,middle⟩
  · rw [sent] at ran
    cases ran
  rw [sent] at ran
  cases ran
  have empty : s.t.recordsLeft e = some 0 := by
    rw [← keyUpdateDue_iff]
    simpa using due
  obtain ⟨renewed,_,_,sealed,appended⟩ := hspostSendKeyUpdate_ok sent
  exact .inr ⟨empty,renewed,sentBytes_sealed aead sealed appended⟩

theorem writeRecord_ok {inner : Bytes} (ran : writeRecord e inner s = (.ok (), next)) :
    s.t.Advanced e next.t ∧ ∃ rec wr, recSeal e s.t.wr recAppdata inner (txCap e.build) =
      some (rec, wr) ∧ next.io.sent = s.io.sent ++ [rec] := by
  unfold writeRecord at ran
  split at ran
  · cases ran
  rcases sealed : recSeal e s.t.wr recAppdata inner (txCap e.build) with _ | ⟨rec,wr⟩
  · rw [sealed] at ran
    cases ran
  rw [sealed] at ran
  dsimp only at ran
  rcases sent : sendStaged rec { s with t := { s.t with wr := wr } } with ⟨rc | _,middle⟩
  · rw [sent] at ran
    cases ran
  rw [sent] at ran
  cases ran
  obtain ⟨same,appended⟩ := sendStaged_ok sent
  refine ⟨?_,rec,wr,rfl,appended⟩
  obtain ⟨_,_,_,_,_,rfl⟩ := recSeal_eq_some.mp sealed
  rw [same]
  exact ⟨rfl,rfl,rfl,rfl⟩

theorem writeLoop_cons (limit fuel : Nat) (part : Bytes) (parts : List Bytes) :
    writeLoop e limit (fuel + 1) (part :: parts) = (do
      keyUpdateBeforeRecord e
      writeRecord e (partsCopyRecord limit (part :: parts)).1
      writeLoop e limit fuel (partsSkipEmpty (partsCopyRecord limit (part :: parts)).2)) := rfl

/-- A write that returns sends its data in whole records and the KeyUpdates that
fall due among them, and nothing else. -/
theorem writeLoop_ok (aead : AeadSound e.toCrypto) {limit fuel : Nat} (positive : 0 < limit)
    {parts : List Bytes} (ran : writeLoop e limit fuel (partsSkipEmpty parts) s = (.ok (), next)) :
    next.t.sendEpochs = s.t.sendEpochs + s.t.updates e (partsTotal parts ⌈/⌉ limit) ∧
      next.io.sentBytes = s.io.sentBytes + (partsTotal parts +
        recOverhead * (partsTotal parts ⌈/⌉ limit) +
        keyUpdateRecordLen * s.t.updates e (partsTotal parts ⌈/⌉ limit)) := by
  induction fuel generalizing parts s with
  | zero =>
    rcases skipped : partsSkipEmpty parts with _ | ⟨part,left⟩
    · rw [skipped] at ran
      cases ran
      have absent : partsTotal parts = 0 := by rw [← partsTotal_skipEmpty,skipped,partsTotal_nil]
      simp [absent,Tls.updates]
    · rw [skipped] at ran
      cases ran
  | succ fuel ih =>
    rcases skipped : partsSkipEmpty parts with _ | ⟨part,left⟩
    · rw [skipped] at ran
      cases ran
      have absent : partsTotal parts = 0 := by rw [← partsTotal_skipEmpty,skipped,partsTotal_nil]
      simp [absent,Tls.updates]
    have total := partsTotal_skipEmpty parts
    have filled := partsTotal_pos skipped
    rw [skipped] at ran total
    rw [writeLoop_cons] at ran
    obtain ⟨_,ready,updated,ran⟩ := bind_eq_ok.mp ran
    obtain ⟨_,after,wrote,ran⟩ := bind_eq_ok.mp ran
    obtain ⟨copied,behind⟩ := partsCopyRecord_total limit (part :: left)
    obtain ⟨advanced,_,_,sealed,sent⟩ := writeRecord_ok wrote
    have recordBytes := sentBytes_sealed aead sealed sent
    obtain ⟨epochs,bytes⟩ := ih ran
    rw [copied,total] at recordBytes
    rw [behind,total,advanced.epochs] at epochs
    rw [behind,total] at bytes
    rw [ceilDiv_step positive filled]
    generalize (partsTotal parts - min limit (partsTotal parts)) ⌈/⌉ limit = rest at *
    rcases keyUpdateBeforeRecord_ok aead updated with ⟨serves,rfl⟩ | ⟨empty,renewed,updateBytes⟩
    · rw [advanced.updates serves]
      simp only [Nat.mul_add,Nat.mul_one]
      omega
    · rw [renewed.updates empty,advanced.updates renewed.left]
      have renewedEpochs := renewed.epochs
      simp only [Nat.mul_add,Nat.mul_one]
      omega

end Sent

/-! ### When a write returns -/

section Lasts

variable {e : Env} {s : St}

structure Tls.Lasts (e : Env) (t : Tls) (records : Nat) : Prop where
  epochs : t.sendEpochs + t.updates e records ≤ sendEpochsMax
  gcm : recAead e t.wr = true → t.wr.seq < recAesGcmRecordsMax
  other : recAead e t.wr = false → t.wr.seq + records ≤ uint64Max

theorem sendStaged_open {rec : Bytes} (plan : s.io.sendPlan = []) :
    ∃ io, sendStaged rec s = (.ok (), { s with io := io }) ∧ io.sendPlan = [] := by
  have loop : sendLoop rec.length rec [] = (true, rec, []) := by
    cases rec with
    | nil => rfl
    | cons first rest => rfl
  unfold sendStaged onIo Proc.within ioSendAll
  simp only [plan,loop,if_true]
  exact ⟨_,rfl,rfl⟩

theorem Tls.Lasts.notLast {t : Tls} {records : Nat} (lasts : t.Lasts e (records + 1)) :
    t.wr.seq ≠ uint64Max := by
  intro last
  cases suite : recAead e t.wr with
  | true =>
    have below := lasts.gcm suite
    rw [last] at below
    exact absurd below (by decide)
  | false =>
    have below := lasts.other suite
    omega

variable (tcp : e.build.quic = false)
include tcp

theorem txCap_wide : e.build.txPt + recOverhead ≤ txCap e.build := by
  unfold txCap Build.txStage
  rw [tcp]
  simp only [Bool.false_eq_true,if_false,recOverhead,aeadTag]
  omega

/-- A key that lasts is renewed in time and lasts on. -/
theorem keyUpdateBeforeRecord_lasts {records : Nat}
    (lasts : s.t.Lasts e (records + 1)) (plan : s.io.sendPlan = []) :
    ∃ next, keyUpdateBeforeRecord e s = (.ok (), next) ∧ next.io.sendPlan = [] ∧
      next.t.recordsLeft e ≠ some 0 ∧ next.t.Lasts e (records + 1) := by
  have wide := txCap_wide tcp
  have range := e.build.txPtRange
  cases due : keyUpdateDue e s.t with
  | false =>
    refine ⟨s,keyUpdateBeforeRecord_none due,plan,fun empty => ?_,lasts⟩
    rw [(keyUpdateDue_iff s.t).mpr empty] at due
    cases due
  | true =>
    have empty := (keyUpdateDue_iff s.t).mp due
    have epochs := lasts.epochs
    obtain ⟨rec,sealed⟩ := @recSeal_takes e s.t.wr recHandshake (txCap e.build)
      keyUpdateMessage lasts.notLast lasts.gcm
      (by simp only [keyUpdateMessage,length_cons,length_nil]; omega)
      (by simp only [keyUpdateMessage,length_cons,length_nil]; omega)
    obtain ⟨io,sent,left⟩ := @sendStaged_open { s with t := { s.t with
      wr := s.t.wr.advance (byte recHandshake).toNat } } rec plan
    have updated : ∃ next, hspostSendKeyUpdate e s = (.ok (), next) ∧ next.io = io := by
      unfold hspostSendKeyUpdate
      simp only [sealed,sent]
      exact ⟨_,rfl,rfl⟩
    obtain ⟨next,ran,same⟩ := updated
    have renewed := (hspostSendKeyUpdate_ok ran).1
    have fewer := @Tls.Renewed.updates e s.t next.t records renewed empty
    refine ⟨next,?_,by rw [same]; exact left,renewed.left,?_,fun _ => ?_,fun suite => ?_⟩
    · unfold keyUpdateBeforeRecord
      rw [due,if_neg (by decide),if_neg (by omega),ran]
    · rw [renewed.epochs]
      omega
    · rw [renewed.seq]
      decide
    · have room := lasts.other (renewed.suite.symm.trans suite)
      rw [renewed.seq]
      omega

/-- A record uses one number of a key that lasts. -/
theorem writeRecord_lasts {records : Nat} {inner : Bytes}
    (lasts : s.t.Lasts e (records + 1)) (serves : s.t.recordsLeft e ≠ some 0)
    (plan : s.io.sendPlan = []) (short : inner.length ≤ e.build.txPt) :
    ∃ next, writeRecord e inner s = (.ok (), next) ∧ next.io.sendPlan = [] ∧
      next.t.Lasts e records := by
  have wide := txCap_wide tcp
  have range := e.build.txPtRange
  obtain ⟨rec,sealed⟩ := @recSeal_takes e s.t.wr recAppdata (txCap e.build) inner lasts.notLast
    lasts.gcm (by omega) (by omega)
  obtain ⟨io,sent,left⟩ := @sendStaged_open (s.withWr (s.t.wr.advance (byte recAppdata).toNat))
    rec plan
  have staged : inner.length ≤ e.build.txStage := by
    simp only [txCap,recOverhead,recHdr] at wide
    omega
  have ran := writeRecord_taken staged sealed sent
  have advanced := (writeRecord_ok ran).1
  have same := @Tls.Advanced.updates e s.t _ records advanced serves
  refine ⟨_,ran,left,?_,fun suite => ?_,fun suite => ?_⟩
  · have epochs := lasts.epochs
    rw [advanced.epochs]
    omega
  · rw [advanced.suite] at suite
    unfold Tls.recordsLeft at serves
    rw [suite] at serves
    rw [advanced.seq]
    cases owed : s.t.keyUpdateOwed with
    | true => exact absurd (if_pos owed) serves
    | false =>
      rw [owed,if_neg Bool.false_ne_true,if_pos rfl] at serves
      have more : recAesGcmRecordsMax - 1 - s.t.wr.seq ≠ 0 := fun absent => serves (by rw [absent])
      omega
  · have room := lasts.other (advanced.suite.symm.trans suite)
    rw [advanced.seq]
    omega

/-- A write returns when its keys last and the transport takes all. -/
theorem writeLoop_lasts {limit fuel : Nat} (positive : 0 < limit)
    (short : limit ≤ e.build.txPt) {parts : List Bytes} (enough : partsTotal parts ≤ fuel)
    (lasts : s.t.Lasts e (partsTotal parts ⌈/⌉ limit)) (plan : s.io.sendPlan = []) :
    ∃ next, writeLoop e limit fuel (partsSkipEmpty parts) s = (.ok (), next) := by
  induction fuel generalizing parts s with
  | zero =>
    rcases skipped : partsSkipEmpty parts with _ | ⟨part,left⟩
    · exact ⟨s,rfl⟩
    · have filled := partsTotal_pos skipped
      omega
  | succ fuel ih =>
    rcases skipped : partsSkipEmpty parts with _ | ⟨part,left⟩
    · exact ⟨s,rfl⟩
    have total := partsTotal_skipEmpty parts
    have filled := partsTotal_pos skipped
    rw [skipped] at total
    obtain ⟨copied,behind⟩ := partsCopyRecord_total limit (part :: left)
    rw [total] at copied behind
    rw [ceilDiv_step positive filled] at lasts
    obtain ⟨ready,updated,plan,serves,lasts⟩ := keyUpdateBeforeRecord_lasts tcp lasts plan
    obtain ⟨after,wrote,plan,lasts⟩ := @writeRecord_lasts e ready tcp _
      (partsCopyRecord limit (part :: left)).1 lasts serves plan (by omega)
    rw [← behind] at lasts
    obtain ⟨next,ran⟩ := @ih after (partsCopyRecord limit (part :: left)).2 (by omega) lasts plan
    refine ⟨next,?_⟩
    rw [writeLoop_cons,bind_of_ok updated,bind_of_ok wrote]
    exact ran

end Lasts

section Exact

variable {e : Env} {s next : St} {p : Bytes}

theorem tlsWrite_connected (connected : s.t.state = .connected) :
    tlsWrite e p s =
      writeLoop e (recordPlaintextMax e s.t) (partsTotal [p]) (partsSkipEmpty [p]) s := by
  unfold tlsWrite tlsWriteParts
  rw [if_neg (by simp [connected])]
  rfl

theorem partsTotal_single (p : Bytes) : partsTotal [p] = p.length := by simp

theorem tlsWrite_ok (aead : AeadSound e.toCrypto) (connected : s.t.state = .connected)
    (positive : 0 < s.t.peerLimit) (ran : tlsWrite e p s = (.ok (), next)) :
    next.t.sendEpochs = s.t.sendEpochs + s.t.updates e (s.t.records e p.length) ∧
      next.io.sentBytes = s.io.sentBytes + s.t.wireLen e p.length := by
  rw [tlsWrite_connected connected] at ran
  have sent := writeLoop_ok aead (recordPlaintextMax_pos.mpr positive) ran
  rw [partsTotal_single] at sent
  exact sent

theorem tlsWrite_lasts (tcp : e.build.quic = false)
    (connected : s.t.state = .connected) (positive : 0 < s.t.peerLimit)
    (plan : s.io.sendPlan = []) (lasts : s.t.Lasts e (s.t.records e p.length)) :
    ∃ next, tlsWrite e p s = (.ok (), next) := by
  rw [tlsWrite_connected connected]
  refine writeLoop_lasts tcp (recordPlaintextMax_pos.mpr positive) (Nat.min_le_right _ _)
    (Nat.le_refl _) ?_ plan
  rw [partsTotal_single]
  exact lasts

/-- The answer of `ch_writable_len` is the largest number of bytes whose write
sends at most one KeyUpdate and at most `cap` bytes of records. -/
theorem tlsWritableLen_largest {width cap : Nat} (aead : AeadSound e.toCrypto)
    (tcp : e.build.quic = false) (wide : 32 ≤ width) (fits : cap < 2 ^ width)
    (connected : s.t.state = .connected) :
    ∃ n, tlsWritableLen e width s.t cap = some n ∧
      (s.t.peerLimit = 0 → n = 0) ∧
      (0 < s.t.peerLimit → ∀ p next, tlsWrite e p s = (.ok (), next) →
        (p.length ≤ n ↔ next.t.sendEpochs ≤ s.t.sendEpochs + 1 ∧
          next.io.sentBytes ≤ s.io.sentBytes + cap)) ∧
      (0 < s.t.peerLimit → ∀ p : Bytes, s.io.sendPlan = [] →
        s.t.Lasts e (s.t.records e p.length) → ∃ next, tlsWrite e p s = (.ok (), next)) ∧
      ∀ wider, cap ≤ wider → wider < 2 ^ width →
        ∃ more, tlsWritableLen e width s.t wider = some more ∧ n ≤ more := by
  rcases Nat.eq_zero_or_pos s.t.peerLimit with absent | positive
  · have zero (any : Nat) : tlsWritableLen e width s.t any = some 0 := by
      have limit : recordPlaintextMax e s.t = 0 := by
        unfold recordPlaintextMax
        omega
      unfold tlsWritableLen
      rw [limit]
      rfl
    refine ⟨0,zero cap,fun _ => rfl,fun filled => ?_,fun filled => ?_,fun wider _ _ =>
      ⟨0,zero wider,Nat.le_refl _⟩⟩ <;> omega
  obtain ⟨n,answer,exact⟩ := @tlsWritableLen_spec e width cap s.t wide fits positive
  refine ⟨n,answer,fun absent => by omega,fun _ p next ran => ?_,fun _ p plan lasts => ?_,
    fun wider le fits => ?_⟩
  · obtain ⟨epochs,bytes⟩ := tlsWrite_ok aead connected positive ran
    rw [exact,epochs,bytes]
    omega
  · exact tlsWrite_lasts tcp connected positive plan lasts
  · obtain ⟨more,answered,wideExact⟩ := @tlsWritableLen_spec e width wider s.t wide fits positive
    obtain ⟨once,within⟩ := (exact n).mp (Nat.le_refl n)
    exact ⟨more,answered,(wideExact n).mpr ⟨once,Nat.le_trans within le⟩⟩

end Exact

theorem sampleGcm_open : ∃ s : St, s.t.state = .connected ∧ s.t.peerLimit = 512 ∧
    s.io.sendPlan = [] ∧ s.t.sendEpochs = 0 ∧ s.t.wr.seq = 0 ∧
    recAead sampleGcmEnv s.t.wr = true ∧ s.t.keyUpdateOwed = false := by
  obtain ⟨tr,_,writing⟩ := sampleGcm_writing
  exact ⟨{ tr.r.st with io := { tr.r.st.io with sendPlan := [] } },writing.state,writing.limit,rfl,
    writing.epochs,writing.seq,writing.gcm,writing.owed⟩

theorem tlsWritableLen_largest_sample : ∃ s : St, s.t.state = .connected ∧ 0 < s.t.peerLimit ∧
    ∃ n, tlsWritableLen sampleGcmEnv 64 s.t 1000 = some n ∧
      ∀ p next, tlsWrite sampleGcmEnv p s = (.ok (), next) →
        (p.length ≤ n ↔ next.t.sendEpochs ≤ s.t.sendEpochs + 1 ∧
          next.io.sentBytes ≤ s.io.sentBytes + 1000) := by
  obtain ⟨s,connected,limit,_⟩ := sampleGcm_open
  have positive : 0 < s.t.peerLimit := by
    rw [limit]
    decide
  obtain ⟨n,answer,_,exact,_⟩ := @tlsWritableLen_largest sampleGcmEnv s 64 1000
    Crypto.sample_sound (by decide) (by decide) (by decide) connected
  exact ⟨s,connected,positive,n,answer,exact positive⟩

/-- A write that sends two KeyUpdates fits a capacity it is too long for by the
answer, which counts one. -/
theorem tlsWritableLen_two_updates : ∃ (s : St) (cap n : Nat) (p : Bytes) (next : St),
    s.t.state = .connected ∧ cap < 2 ^ 64 ∧ tlsWritableLen sampleGcmEnv 64 s.t cap = some n ∧
      tlsWrite sampleGcmEnv p s = (.ok (), next) ∧ n < p.length ∧
      next.io.sentBytes ≤ s.io.sentBytes + cap := by
  obtain ⟨s,connected,limit,plan,epochs,seq,gcm,owed⟩ := sampleGcm_open
  have positive : 0 < s.t.peerLimit := by
    rw [limit]
    decide
  have cut : recordPlaintextMax sampleGcmEnv s.t = 512 := by
    rw [recordPlaintextMax,limit]
    decide
  -- one record more than two keys seal
  have length : (replicate (33554431 * 512) (0 : UInt8)).length = 33554431 * 512 :=
    length_replicate
  have records : s.t.records sampleGcmEnv (33554431 * 512) = 33554431 := by
    unfold Tls.records
    rw [cut]
    rfl
  have twice : ¬ s.t.updates sampleGcmEnv 33554431 ≤ 1 := by
    unfold Tls.updates Tls.recordsEach Tls.recordsLeft
    rw [owed,gcm,seq,if_pos rfl,if_neg Bool.false_ne_true,if_pos rfl,renewals_le_one (by decide)]
    decide
  have few : s.t.updates sampleGcmEnv 33554431 ≤ 33554431 := renewals_le _ _ _
  have lasts : s.t.Lasts sampleGcmEnv (s.t.records sampleGcmEnv
      (replicate (33554431 * 512) (0 : UInt8)).length) := by
    rw [length,records]
    refine ⟨?_,fun _ => ?_,fun other => ?_⟩
    · have bound : sendEpochsMax = 281474976710655 := rfl
      omega
    · rw [seq]
      decide
    · rw [gcm] at other
      cases other
  have short : s.t.wireLen sampleGcmEnv (33554431 * 512) < 2 ^ 64 := by
    unfold Tls.wireLen
    rw [records]
    have overhead : recOverhead = 22 := rfl
    have update : keyUpdateRecordLen = 27 := rfl
    rw [overhead,update]
    omega
  have tcp : sampleGcmEnv.build.quic = false := by decide
  obtain ⟨next,ran⟩ := tlsWrite_lasts tcp connected positive plan lasts
  obtain ⟨_,bytes⟩ := tlsWrite_ok Crypto.sample_sound connected positive ran
  obtain ⟨n,answer,exact⟩ := @tlsWritableLen_spec sampleGcmEnv 64
    (s.t.wireLen sampleGcmEnv (33554431 * 512)) s.t (by decide) short positive
  rw [length] at bytes
  refine ⟨s,_,n,_,next,connected,short,answer,ran,?_,Nat.le_of_eq bytes⟩
  rw [length]
  by_contra long
  have once := ((exact _).mp (Nat.le_of_not_lt long)).1
  rw [records] at once
  exact twice once

end Chapulin
