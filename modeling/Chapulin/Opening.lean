/-
Opening a record in a buffer (`aead.c`, `gcm.c`, `record.c`).

`Record.lean` takes a record and returns its content.  Here the record lies in a
memory and the plaintext is written to the same memory: over the record itself,
five bytes below the ciphertext it comes from, or to another buffer.
-/

import Chapulin.Lib.InPlace
import Chapulin.Record

namespace Chapulin

open Lib List

/-! ### The two AEADs -/

/-- Both AEADs add a key stream to the plaintext and append a code over the
header and the ciphertext. -/
structure StreamAead where
  keystream : Bool → Bytes → Bytes → Nat → UInt8
  mac : Bool → Bytes → Bytes → Bytes → Bytes → Bytes
  macLength : ∀ gcm key nonce aad ct, (mac gcm key nonce aad ct).length = aeadTag

namespace StreamAead

variable (c : StreamAead) (gcm : Bool) (key nonce : Bytes)

def sealText (aad pt : Bytes) : Bytes :=
  addStream (c.keystream gcm key nonce) pt ++
    c.mac gcm key nonce aad (addStream (c.keystream gcm key nonce) pt)

def openText (aad ct : Bytes) : Option Bytes :=
  let n := ct.length - aeadTag
  if aeadTag ≤ ct.length ∧ c.mac gcm key nonce aad (ct.take n) = ct.drop n then
    some (addStream (c.keystream gcm key nonce) (ct.take n))
  else none

/-- `aead_open` and `gcm_open` over a memory with `n` bytes of ciphertext at `ct`
and the tag behind them: whether the tag matched, and the memory.  AES-GCM
decrypts before it compares and wipes what it wrote; ChaCha20-Poly1305 compares
first. -/
def openIn (aad memory : Bytes) (ct n pt : Nat) : Bool × Bytes :=
  let want := c.mac gcm key nonce aad (slice memory ct n)
  let written := addLoop (c.keystream gcm key nonce) ct pt n memory
  if gcm then
    if want = slice written (ct + n) aeadTag then (true, written)
    else (false, copyAt written pt (zeros n))
  else if want = slice memory (ct + n) aeadTag then (true, written)
  else (false, memory)

structure Runs (crypto : Crypto) : Prop where
  seals : ∀ gcm key nonce aad pt, crypto.aeadSeal gcm key nonce aad pt =
    c.sealText gcm key nonce aad pt
  opens : ∀ gcm key nonce aad ct, crypto.aeadOpen gcm key nonce aad ct =
    c.openText gcm key nonce aad ct

variable {c gcm key nonce}

theorem openText_sealText (aad pt : Bytes) :
    c.openText gcm key nonce aad (c.sealText gcm key nonce aad pt) = some pt := by
  have tag := c.macLength gcm key nonce aad (addStream (c.keystream gcm key nonce) pt)
  have length : (c.sealText gcm key nonce aad pt).length - aeadTag =
      (addStream (c.keystream gcm key nonce) pt).length := by
    rw [sealText,length_append,tag,Nat.add_sub_cancel]
  unfold openText
  dsimp only
  rw [length]
  unfold sealText
  rw [take_left,drop_left,addStream_twice,if_pos]
  refine ⟨?_,rfl⟩
  rw [length_append,tag]
  exact Nat.le_add_left _ _

theorem Runs.sound {crypto : Crypto} (runs : c.Runs crypto) : AeadSound crypto where
  opens gcm key nonce aad pt := by rw [runs.seals,runs.opens,openText_sealText]
  sealLength gcm key nonce aad pt := by
    rw [runs.seals,sealText,length_append,addStream_length,c.macLength]

/-- Opening in place gives what opening gives, and leaves it in the memory. -/
theorem openIn_eq {aad memory : Bytes} {ct n pt : Nat}
    (reads : ct + n + aeadTag ≤ memory.length) (safe : pt ≤ ct ∨ ct + n + aeadTag ≤ pt)
    (writes : pt + n ≤ memory.length) :
    (c.openText gcm key nonce aad (slice memory ct (n + aeadTag)) = none ∧
        (c.openIn gcm key nonce aad memory ct n pt).1 = false) ∨
      ∃ plain, c.openText gcm key nonce aad (slice memory ct (n + aeadTag)) = some plain ∧
        plain.length = n ∧
        c.openIn gcm key nonce aad memory ct n pt = (true, copyAt memory pt plain) := by
  have written := @addLoop_eq (c.keystream gcm key nonce) memory ct pt n (by omega) (by omega)
    (by omega)
  have length : (addStream (c.keystream gcm key nonce) (slice memory ct n)).length = n := by
    rw [addStream_length,slice_length (by omega)]
  have tagStays : slice (addLoop (c.keystream gcm key nonce) ct pt n memory) (ct + n) aeadTag =
      slice memory (ct + n) aeadTag := by
    rw [written]
    exact copyAt_slice_apart (by omega) (by omega)
  have size : (slice memory ct (n + aeadTag)).length = n + aeadTag := slice_length (by omega)
  have text : (slice memory ct (n + aeadTag)).take n = slice memory ct n := by
    rw [slice,slice,take_take,Nat.min_eq_left (Nat.le_add_right _ _)]
  have tag : (slice memory ct (n + aeadTag)).drop n = slice memory (ct + n) aeadTag := by
    rw [slice,slice,drop_take,drop_drop,Nat.add_sub_cancel_left]
  unfold openText openIn
  dsimp only
  rw [size,Nat.add_sub_cancel,text,tag,tagStays]
  by_cases matches' : c.mac gcm key nonce aad (slice memory ct n) = slice memory (ct + n) aeadTag
  · refine .inr ⟨_,if_pos ⟨Nat.le_add_left _ _,matches'⟩,length,?_⟩
    rw [written]
    cases gcm <;> simp [matches']
  · refine .inl ⟨if_neg fun both => matches' both.2,?_⟩
    cases gcm <;> simp [matches']

/-- A tag that does not match leaves zeros where the plaintext was written, or
nothing was written. -/
theorem openIn_mismatch {aad memory : Bytes} {ct n pt : Nat}
    (reads : ct + n ≤ memory.length) (safe : pt ≤ ct ∨ ct + n ≤ pt)
    (writes : pt + n ≤ memory.length)
    (mismatch : (c.openIn gcm key nonce aad memory ct n pt).1 = false) :
    (c.openIn gcm key nonce aad memory ct n pt).2 =
      if gcm then copyAt memory pt (zeros n) else memory := by
  have written := @addLoop_eq (c.keystream gcm key nonce) memory ct pt n reads writes safe
  have length : (addStream (c.keystream gcm key nonce) (slice memory ct n)).length = n := by
    rw [addStream_length,slice_length reads]
  have wiped := @copyAt_copyAt memory (addStream (c.keystream gcm key nonce) (slice memory ct n))
    (zeros n) pt (by omega) (by rw [length,zeros_length])
  unfold openIn at mismatch ⊢
  rw [written] at mismatch ⊢
  cases gcm with
  | true =>
    simp only [if_true] at mismatch ⊢
    split at mismatch
    · cases mismatch
    · rename_i differs
      rw [if_neg differs]
      exact wiped
  | false =>
    simp only [Bool.false_eq_true,if_false] at mismatch ⊢
    split at mismatch
    · cases mismatch
    · rename_i differs
      rw [if_neg differs]

end StreamAead

/-! ### A record -/

def contentEnd (memory : Bytes) (pt : Nat) : Nat → Nat
  | 0 => 0
  | innerLen + 1 =>
    if memory.getD (pt + innerLen) 0 = 0 then contentEnd memory pt innerLen else innerLen + 1

/-- `rec_open` over a memory with the `n` bytes of a record at `rec`, which writes
the inner plaintext to `pt`: its length and type, the direction and the memory. -/
def recOpenIn (c : StreamAead) (e : Env) (d : RecDir) (memory : Bytes) (rec n pt cap : Nat) :
    Option (Nat × Nat) × RecDir × Bytes :=
  if d.seq = uint64Max then (none, d, memory)
  else if n < recHdr + 1 + aeadTag then (none, d, memory)
  else
    let body := ofBe16 (memory.getD (rec + 3) 0) (memory.getD (rec + 4) 0)
    if (memory.getD rec 0).toNat ≠ recAppdata ∨ body ≠ n - recHdr ∨ body > 0x4000 + 256 then
      (none, d, memory)
    else if body - aeadTag > 0x4001 ∨ body - aeadTag > cap then (none, d, memory)
    else
      match c.openIn (recAead e d) (recKeyBytes e d) (nonceOf d.iv d.seq)
          (slice memory rec recHdr) memory (rec + recHdr) (body - aeadTag) pt with
      | (false, memory) => (none, d, memory)
      | (true, memory) =>
        let innerLen := contentEnd memory pt (body - aeadTag)
        if innerLen = 0 then (none, d.advance 0, memory)
        else
          let type := (memory.getD (pt + (innerLen - 1)) 0).toNat
          (some (innerLen - 1, type), d.advance type, memory)

section Scan

variable {memory : Bytes} {pt n : Nat} (fits : pt + n ≤ memory.length)
include fits

theorem contentEnd_le : contentEnd memory pt n ≤ n := by
  induction n with
  | zero => exact Nat.le_refl _
  | succ n ih =>
    rw [contentEnd]
    split
    · exact Nat.le_succ_of_le (ih (by omega))
    · exact Nat.le_refl _

theorem stripPadding_slice :
    stripPadding (slice memory pt n) = (slice memory pt (contentEnd memory pt n)).reverse := by
  induction n with
  | zero => simp [contentEnd,slice,stripPadding]
  | succ n ih =>
    have last := @slice_succ memory pt n (by omega)
    rw [contentEnd]
    split
    · rename_i zero
      rw [← ih (by omega),last,zero]
      simp [stripPadding]
    · rename_i other
      rw [last,stripPadding,reverse_append]
      exact dropWhile_cons_of_neg (by simpa using other)

end Scan

theorem slice_getD {memory : Bytes} {offset n i : Nat} (inside : i < n) :
    (slice memory offset n).getD i 0 = memory.getD (offset + i) 0 := by
  rw [slice,getD_eq_getElem?_getD,getD_eq_getElem?_getD,getElem?_take_of_lt inside,getElem?_drop]

theorem scan_copied {memory inner : Bytes} {pt : Nat} (fits : pt + inner.length ≤ memory.length) :
    (contentEnd (copyAt memory pt inner) pt inner.length = 0 ∧ stripPadding inner = []) ∨
      ∃ content type, contentEnd (copyAt memory pt inner) pt inner.length = content.length + 1 ∧
        stripPadding inner = type :: content.reverse ∧
        (copyAt memory pt inner).getD (pt + content.length) 0 = type ∧
        slice (copyAt memory pt inner) pt content.length = content := by
  have length := copyAt_length fits
  have strip := @stripPadding_slice (copyAt memory pt inner) pt inner.length (by omega)
  have short := @contentEnd_le (copyAt memory pt inner) pt inner.length (by omega)
  rw [copyAt_slice fits] at strip
  generalize contentEnd (copyAt memory pt inner) pt inner.length = found at strip short
  cases found with
  | zero => exact .inl ⟨rfl,by simpa [slice] using strip⟩
  | succ found =>
    have size : (slice (copyAt memory pt inner) pt found).length = found :=
      slice_length (by omega)
    refine .inr ⟨slice (copyAt memory pt inner) pt found,_,by rw [size],?_,rfl,by rw [size]⟩
    rw [strip,slice_succ (by omega),reverse_append,size]
    rfl

/-- Opening in a memory is opening the record that lies there, to the place for
the plaintext: over the record or apart from it. -/
theorem recOpenIn_eq {c : StreamAead} {e : Env} (runs : c.Runs e.toCrypto) {d : RecDir}
    {memory : Bytes} {rec n pt cap : Nat} (whole : rec + n ≤ memory.length)
    (room : pt + cap ≤ memory.length) (apart : pt = rec ∨ rec + n ≤ pt ∨ pt + cap ≤ rec) :
    (recOpenIn c e d memory rec n pt cap).2.1 = (recOpen e d (slice memory rec n) cap).2 ∧
      (recOpenIn c e d memory rec n pt cap).1 = (recOpen e d (slice memory rec n) cap).1.map
        (fun opened => (opened.1.length, opened.2)) ∧
      ∀ content type, (recOpen e d (slice memory rec n) cap).1 = some (content, type) →
        slice (recOpenIn c e d memory rec n pt cap).2.2 pt content.length = content := by
  have size : (slice memory rec n).length = n := slice_length whole
  unfold recOpenIn recOpen
  rw [size]
  by_cases last : d.seq = uint64Max
  · simp [last]
  rw [if_neg last,if_neg last]
  by_cases short : n < recHdr + 1 + aeadTag
  · simp [short]
  rw [if_neg short,if_neg short]
  have header : recHdr = 5 := rfl
  have tag : aeadTag = 16 := rfl
  have first := @slice_getD memory rec n 0 (by omega)
  rw [Nat.add_zero] at first
  rw [first,slice_getD (by omega : 3 < n),slice_getD (by omega : 4 < n)]
  dsimp only
  generalize ofBe16 (memory.getD (rec + 3) 0) (memory.getD (rec + 4) 0) = body
  by_cases shape : (memory.getD rec 0).toNat ≠ recAppdata ∨ body ≠ n - recHdr ∨ body > 0x4000 + 256
  · simp only [if_pos shape]
    simp
  rw [if_neg shape,if_neg shape]
  by_cases large : body - aeadTag > 0x4001 ∨ body - aeadTag > cap
  · simp only [if_pos large]
    simp
  rw [if_neg large,if_neg large]
  have bodySplit : n - recHdr = body - aeadTag + aeadTag := by omega
  have front : (slice memory rec n).take recHdr = slice memory rec recHdr := by
    rw [slice,slice,take_take,Nat.min_eq_left (by omega)]
  have behind : (slice memory rec n).drop recHdr =
      slice memory (rec + recHdr) (body - aeadTag + aeadTag) := by
    rw [slice,slice,drop_take,drop_drop,← bodySplit]
  rw [front,behind,recOpenBody,runs.opens]
  rcases @StreamAead.openIn_eq c (recAead e d) (recKeyBytes e d) (nonceOf d.iv d.seq)
    (slice memory rec recHdr) memory (rec + recHdr) (body - aeadTag) pt (by omega) (by omega)
    (by omega) with ⟨closed,mismatch⟩ | ⟨inner,opens,length,written⟩
  · rw [closed]
    rcases ran : c.openIn (recAead e d) (recKeyBytes e d) (nonceOf d.iv d.seq)
      (slice memory rec recHdr) memory (rec + recHdr) (body - aeadTag) pt with ⟨found,after⟩
    rw [ran] at mismatch
    cases mismatch
    simp
  · rw [opens,written]
    dsimp only
    have fits : pt + inner.length ≤ memory.length := by omega
    rw [← length]
    rcases scan_copied fits with ⟨absent,stripped⟩ | ⟨content,type,found,stripped,typed,held⟩
    · rw [absent,stripped]
      simp
    · rw [found,stripped,if_neg (Nat.succ_ne_zero _),Nat.add_sub_cancel,typed]
      dsimp only
      refine ⟨rfl,by simp,fun content' type' same => ?_⟩
      simp only [reverse_reverse,Option.some.injEq,Prod.mk.injEq] at same
      rw [← same.1]
      exact held

/-! ### What a padded record opens to -/

section Padded

variable (e : Env)

def innerRecord (d : RecDir) (inner : Bytes) : Bytes :=
  recordHeader recAppdata (inner.length + aeadTag) ++
    recSealBody e d (recordHeader recAppdata (inner.length + aeadTag)) inner

def paddedRecord (d : RecDir) (type : UInt8) (content : Bytes) (padding : Nat) : Bytes :=
  innerRecord e d (content ++ type :: zeros padding)

variable {e} {d next : RecDir} (aead : AeadSound e.toCrypto)
include aead

theorem innerRecord_length (inner : Bytes) :
    (innerRecord e d inner).length = recHdr + (inner.length + aeadTag) := by
  rw [innerRecord,length_append,recordHeader_length,recSealBody,aead.sealLength]

/-- A direction in step opens the record of an inner plaintext to what its
padding leaves. -/
theorem recOpen_inner (notLast : d.seq ≠ uint64Max) {inner : Bytes} {cap : Nat}
    (full : 0 < inner.length) (short : inner.length ≤ 0x4001) (room : inner.length ≤ cap) :
    (∀ type content, stripPadding inner = type :: content →
        recOpen e d (innerRecord e d inner) cap =
          (some (content.reverse, type.toNat), d.advance type.toNat)) ∧
      (stripPadding inner = [] →
        recOpen e d (innerRecord e d inner) cap = (none, d.advance 0)) := by
  have tag : aeadTag = 16 := rfl
  have hdr : recHdr = 5 := rfl
  have length := @innerRecord_length e d aead inner
  have body : ofBe16 ((innerRecord e d inner).getD 3 0) ((innerRecord e d inner).getD 4 0) =
      inner.length + aeadTag := recordHeader_body _ _ _ (by omega)
  have first : ((innerRecord e d inner).getD 0 0).toNat = recAppdata := rfl
  have front :
      (innerRecord e d inner).take recHdr = recordHeader recAppdata (inner.length + aeadTag) :=
    take_left' rfl
  have behind : (innerRecord e d inner).drop recHdr =
      recSealBody e d (recordHeader recAppdata (inner.length + aeadTag)) inner :=
    drop_left' rfl
  have opens : recOpenBody e d (recordHeader recAppdata (inner.length + aeadTag))
      (recSealBody e d (recordHeader recAppdata (inner.length + aeadTag)) inner) = some inner :=
    aead.opens ..
  unfold recOpen
  rw [if_neg notLast,length,if_neg (by omega),body,first]
  dsimp only
  rw [if_neg (by omega),if_neg (by omega),front,behind,opens]
  constructor
  · intro type content stripped
    simp only [stripped]
  · intro stripped
    simp only [stripped]

omit aead

theorem stripPadding_zeros (n : Nat) : stripPadding (zeros n) = [] := by
  simp [stripPadding,zeros]

theorem stripPadding_padded {content : Bytes} {type : UInt8} (typed : type ≠ 0) (padding : Nat) :
    stripPadding (content ++ type :: zeros padding) = type :: content.reverse := by
  have stops : (type :: content.reverse).dropWhile (· == 0) = type :: content.reverse :=
    dropWhile_cons_of_neg (by simpa using typed)
  rw [stripPadding,reverse_append,reverse_cons,append_assoc,zeros,reverse_replicate,
    dropWhile_append_of_pos (by simp)]
  exact stops

/-- A record that is refused leaves the direction as it was, unless it opened to
nothing but padding. -/
theorem recOpen_refused {rec : Bytes} {cap : Nat} (refused : (recOpen e d rec cap).1 = none) :
    (recOpen e d rec cap).2 = d ∨
      ∃ inner, recOpenBody e d (rec.take recHdr) (rec.drop recHdr) = some inner ∧
        stripPadding inner = [] ∧ (recOpen e d rec cap).2 = d.advance 0 := by
  unfold recOpen at refused ⊢
  split at refused
  · rename_i last
    rw [if_pos last]
    exact .inl rfl
  rename_i notLast
  rw [if_neg notLast]
  split at refused
  · rename_i short
    rw [if_pos short]
    exact .inl rfl
  rename_i long
  rw [if_neg long]
  dsimp only at refused ⊢
  split at refused
  · rename_i shape
    rw [if_pos shape]
    exact .inl rfl
  rename_i shape
  rw [if_neg shape]
  split at refused
  · rename_i large
    rw [if_pos large]
    exact .inl rfl
  rename_i small
  rw [if_neg small]
  rcases opens : recOpenBody e d (rec.take recHdr) (rec.drop recHdr) with _ | inner
  · exact .inl rfl
  · rw [opens] at refused
    rcases stripped : stripPadding inner with _ | ⟨type,content⟩
    · exact .inr ⟨inner,rfl,stripped,by simp only [stripped]⟩
    · simp only [stripped] at refused
      cases refused

end Padded

/-- Over the record or into another buffer, a padded record opens to its content
and its type and moves the number by one; an inner plaintext of zeros is refused;
and a record refused before its tag matched leaves the direction alone. -/
theorem recOpenIn_padded {c : StreamAead} {e : Env} (runs : c.Runs e.toCrypto) {d : RecDir}
    (notLast : d.seq ≠ uint64Max) {memory : Bytes} {rec n pt cap : Nat}
    (whole : rec + n ≤ memory.length) (room : pt + cap ≤ memory.length)
    (apart : pt = rec ∨ rec + n ≤ pt ∨ pt + cap ≤ rec) :
    (∀ (type : UInt8) (content : Bytes) (padding : Nat), type ≠ 0 → content.length ≤ 0x4000 →
        content.length + 1 + padding ≤ min 0x4001 cap →
        slice memory rec n = paddedRecord e d type content padding →
        (recOpenIn c e d memory rec n pt cap).1 = some (content.length, type.toNat) ∧
          slice (recOpenIn c e d memory rec n pt cap).2.2 pt content.length = content ∧
          (recOpenIn c e d memory rec n pt cap).2.1 = d.advance type.toNat ∧
          (recOpenIn c e d memory rec n pt cap).2.1.seq = d.seq + 1) ∧
      (∀ length, 0 < length → length ≤ min 0x4001 cap →
        slice memory rec n = innerRecord e d (zeros length) →
        (recOpenIn c e d memory rec n pt cap).1 = none) ∧
      ((recOpenIn c e d memory rec n pt cap).1 = none →
        (∀ inner, recOpenBody e d ((slice memory rec n).take recHdr)
          ((slice memory rec n).drop recHdr) = some inner → stripPadding inner ≠ []) →
        (recOpenIn c e d memory rec n pt cap).2.1 = d) := by
  obtain ⟨direction,result,held⟩ := @recOpenIn_eq c e runs d memory rec n pt cap whole room apart
  refine ⟨fun type content padding typed _ fits placed => ?_,fun length full fits placed => ?_,
    fun refused unopened => ?_⟩
  · have size : (content ++ type :: zeros padding).length = content.length + 1 + padding := by
      simp [zeros]
      omega
    have opened := (@recOpen_inner e d runs.sound notLast (content ++ type :: zeros padding) cap
      (by omega) (by omega) (by omega)).1 type content.reverse (stripPadding_padded typed padding)
    rw [reverse_reverse] at opened
    rw [placed,paddedRecord,opened] at direction result held
    exact ⟨result,held content type.toNat rfl,direction,by rw [direction]; rfl⟩
  · have size : (zeros length).length = length := length_replicate
    have refused := (@recOpen_inner e d runs.sound notLast (zeros length) cap (by omega) (by omega)
      (by omega)).2 (stripPadding_zeros length)
    rw [placed,refused] at result
    exact result
  · rw [direction]
    rw [result,Option.map_eq_none_iff] at refused
    rcases recOpen_refused refused with same | ⟨inner,opens,blank,_⟩
    · exact same
    · exact absurd blank (unopened inner opens)

/-- The stand-in AEAD: no key stream, and the first bytes of the key for a code. -/
def sampleStream : StreamAead where
  keystream _ _ _ _ := 0
  mac _ key _ _ _ := fitTo aeadTag key
  macLength _ _ _ _ _ := fitTo_length _ _

theorem addStream_zero (bytes : Bytes) : addStream (fun _ => 0) bytes = bytes :=
  mapIdx_eq_iff.mpr fun i => by simp

theorem sampleStream_runs (b : Build) : sampleStream.Runs (Env.sample b).toCrypto where
  seals gcm key nonce aad pt := by
    change pt ++ fitTo aeadTag key = addStream (fun _ => 0) pt ++ fitTo aeadTag key
    rw [addStream_zero]
  opens gcm key nonce aad ct := by
    change (if aeadTag ≤ ct.length ∧ ct.drop (ct.length - aeadTag) = fitTo aeadTag key then
      some (ct.take (ct.length - aeadTag)) else none) =
      if aeadTag ≤ ct.length ∧ fitTo aeadTag key = ct.drop (ct.length - aeadTag) then
        some (addStream (fun _ => 0) (ct.take (ct.length - aeadTag))) else none
    rw [addStream_zero]
    simp only [eq_comm]

/-- A record with padding, opened over itself. -/
theorem recOpenIn_padded_sample :
    let e := Env.sample (.plain .tcpNonblocking .client)
    let memory := paddedRecord e .wiped 23 [7,0] 3
    (recOpenIn sampleStream e .wiped memory 0 memory.length 0 memory.length).1 = some (2, 23) := by
  have whole := fun memory : Bytes => take_length (l := memory)
  exact ((recOpenIn_padded (sampleStream_runs _) (by decide) (Nat.le_of_eq (Nat.zero_add _))
    (Nat.le_of_eq (Nat.zero_add _)) (.inl rfl)).1 23 [7,0] 3 (by decide) (by decide) (by decide)
    (by rw [slice,drop_zero,whole])).1

/-- A type of 0 is read as padding, and the last byte of the content as the type. -/
theorem recOpen_type_zero :
    let e := Env.sample (.plain .tcpNonblocking .client)
    (recSeal e .wiped 0 [5,9] 64).map (fun sealed => (recOpen e .wiped sealed.1 64).1) =
      some (some ([5], 9)) := by
  decide

end Chapulin
