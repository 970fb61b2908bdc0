/-
The DER form of an ECDSA signature: the writer of `p256_sign_der.h` and the reader of `p256.c`,
which takes two scalars from the octets that the writer gives for them and from no others.
-/

import Chapulin.Buf

namespace Chapulin

open Lib List

def p256ScalarLen : Nat := 32

def p256SigMax : Nat := 72

def highBit (octet : UInt8) : Bool := (octet &&& 0x80) != 0

/-- The octets of a value from `lead` on, which never passes the last one. -/
def dropLead : Bytes → Bytes
  | octet :: next :: rest => if octet = 0 then dropLead (next :: rest) else octet :: next :: rest
  | value => value

def writeInteger (value : Bytes) : Writer := fun w =>
  let content := dropLead value
  let pad := highBit (content.getD 0 0)
  let w := wbU8 0x02 w
  let w := wbU8 (content.length + pad.toNat) w
  let w := if pad then wbU8 0x00 w else w
  wbBytes content w

def writeSignature (cap : Nat) (r s : Bytes) : Option Bytes := do
  let body ← wbResult (writeInteger s (writeInteger r (wbInit p256SigMax)))
  wbResult (wbBytes body (wbU8 body.length (wbU8 0x30 (wbInit cap))))

/-- The scalar in the content `c` of an INTEGER. -/
def contentScalar (c : Bytes) : Option Bytes :=
  let len := c.length
  if highBit (c.getD 0 0) then none
  else if len > 1 ∧ c.getD 0 0 = 0 ∧ !highBit (c.getD 1 0) then none
  else if len = 33 ∧ c.getD 0 0 ≠ 0 then none
  else
    let skip := if c.getD 0 0 = 0 then 1 else 0
    some (copyAt (zeros 32) (32 - (len - skip)) (c.drop skip))

def derScalar (r : Rbuf) : Option (Bytes × Rbuf) :=
  let (tag, r) := rbU8 r
  if tag ≠ 0x02 then none
  else
    let (len, r) := rbU8 r
    if r.err ∨ len < 1 ∨ len > 33 then none
    else do
      let v ← (rbBytes len r).1.bind contentScalar
      some (v, (rbBytes len r).2)

def derParse (sig : Bytes) : Option (Bytes × Bytes) :=
  let (tag, rb) := rbU8 (rbInit sig)
  if tag ≠ 0x30 then none
  else
    let (len, rb) := rbU8 rb
    if rb.err ∨ len ≥ 0x80 ∨ len ≠ rbLeft rb then none
    else do
      let (r, rb) ← derScalar rb
      let (s, rb) ← derScalar rb
      if rbLeft rb = 0 ∧ !rb.err then some (r, s) else none

/-! ### Scalars -/

/-- The content of the INTEGER of a scalar. -/
def scalarContent (value : Bytes) : Bytes :=
  (if highBit ((dropLead value).getD 0 0) then [0] else []) ++ dropLead value

def scalarOctets (value : Bytes) : Bytes :=
  [byte 0x02,byte (scalarContent value).length] ++ scalarContent value

variable {value : Bytes}

theorem dropLead_zeros (n : Nat) {first : UInt8} {rest : Bytes} (leads : first ≠ 0 ∨ rest = []) :
    dropLead (zeros n ++ first :: rest) = first :: rest := by
  induction n with
  | zero =>
    cases rest with
    | nil => rfl
    | cons next rest =>
      exact if_neg (leads.resolve_right (cons_ne_nil next rest))
  | succ n ih =>
    obtain ⟨next,behind,split⟩ : ∃ next behind, zeros n ++ first :: rest = next :: behind :=
      exists_cons_of_ne_nil (by simp)
    change dropLead (0 :: (zeros n ++ first :: rest)) = _
    rw [split] at ih ⊢
    exact ih

theorem exists_dropLead (filled : value ≠ []) :
    ∃ n first rest, (first ≠ 0 ∨ rest = []) ∧ value = zeros n ++ first :: rest := by
  induction value with
  | nil => exact absurd rfl filled
  | cons octet value ih =>
    by_cases leads : octet = 0 ∧ value ≠ []
    · obtain ⟨n,first,rest,shape,rfl⟩ := ih leads.2
      exact ⟨n + 1,first,rest,shape,by rw [leads.1]; rfl⟩
    · exact ⟨0,octet,value,by tauto,rfl⟩

theorem scalarContent_zeros (n : Nat) {first : UInt8} {rest : Bytes}
    (leads : first ≠ 0 ∨ rest = []) :
    scalarContent (zeros n ++ first :: rest) =
      if highBit first then 0 :: first :: rest else first :: rest := by
  rw [scalarContent,dropLead_zeros n leads,getD_cons_zero]
  split
  · rfl
  · rfl

theorem copyAt_zeros {n : Nat} {source : Bytes} (inside : source.length ≤ n) :
    copyAt (zeros n) (n - source.length) source = zeros (n - source.length) ++ source := by
  simp [copyAt,zeros,Nat.sub_add_cancel inside]

/-- A scalar is read from its minimal DER content only. -/
theorem contentScalar_eq_some {c : Bytes} (filled : c ≠ []) (short : c.length ≤ 33) :
    contentScalar c = some value ↔ value.length = 32 ∧ c = scalarContent value := by
  have clear : highBit 0 = false := by decide
  constructor
  · intro read
    obtain ⟨x,tail,rfl⟩ := exists_cons_of_ne_nil filled
    simp only [contentScalar,getD_cons_zero,getD_cons_succ,length_cons] at read short
    obtain ⟨positive,read⟩ := Option.ite_none_left_eq_some.mp read
    obtain ⟨shortest,read⟩ := Option.ite_none_left_eq_some.mp read
    obtain ⟨fits,read⟩ := Option.ite_none_left_eq_some.mp read
    have scalar {first : UInt8} {rest : Bytes} (leads : first ≠ 0 ∨ rest = [])
        (inside : rest.length < 32)
        (filling : copyAt (zeros 32) (32 - (rest.length + 1)) (first :: rest) = value) :
        value.length = 32 ∧
          scalarContent value = if highBit first then 0 :: first :: rest else first :: rest := by
      rw [← filling,← length_cons,copyAt_zeros inside,scalarContent_zeros _ leads]
      refine ⟨?_,rfl⟩
      rw [length_append,zeros_length]
      exact Nat.sub_add_cancel inside
    by_cases zero : x = 0
    · subst zero
      cases tail with
      | nil =>
        cases read
        exact ⟨by decide,by decide⟩
      | cons next rest =>
        have top : highBit next = true := by simpa using shortest
        have nonzero : next ≠ 0 := fun zero => by rw [zero,clear] at top; cases top
        obtain ⟨length,content⟩ := scalar (.inl nonzero) (Nat.le_of_succ_le_succ short)
          (Option.some.inj read)
        exact ⟨length,by rw [content,if_pos top]⟩
    · rw [if_neg zero] at read
      have inside : tail.length < 32 := by
        have full : tail.length + 1 ≠ 33 := fun full => fits ⟨full,zero⟩
        omega
      obtain ⟨length,content⟩ := scalar (.inl zero) inside (Option.some.inj read)
      exact ⟨length,by rw [content,if_neg positive]⟩
  · rintro ⟨length,rfl⟩
    obtain ⟨n,first,rest,leads,rfl⟩ := exists_dropLead (ne_nil_of_length_eq_add_one length)
    obtain ⟨inside,rfl⟩ : (first :: rest).length ≤ 32 ∧ n = 32 - (first :: rest).length := by
      rw [length_append,zeros_length] at length
      omega
    rw [scalarContent_zeros _ leads,← copyAt_zeros inside]
    split
    · rename_i top
      simp [contentScalar,clear,top]
    · rename_i low
      by_cases zero : first = 0
      · obtain rfl := leads.resolve_left (not_not.mpr zero)
        subst zero
        decide
      · simp [contentScalar,low,zero,Nat.ne_of_lt (Nat.lt_of_succ_le inside)]

theorem scalarContent_bounds (length : value.length = 32) :
    scalarContent value ≠ [] ∧ (scalarContent value).length ≤ 33 := by
  obtain ⟨n,first,rest,leads,rfl⟩ := exists_dropLead (ne_nil_of_length_eq_add_one length)
  rw [length_append] at length
  rw [scalarContent_zeros n leads]
  split
  · exact ⟨cons_ne_nil _ _,by simp at length ⊢; omega⟩
  · exact ⟨cons_ne_nil _ _,by simp at length ⊢; omega⟩

/-- The reader takes a scalar from the INTEGER that is written for it, and from no other octets. -/
theorem derScalar_eq_some {octets : Bytes} {next : Rbuf} :
    derScalar ⟨octets,false⟩ = some (value, next) ↔
      value.length = 32 ∧ octets = scalarOctets value ++ next.rest ∧ next.err = false := by
  constructor
  · intro read
    rcases octets with _ | ⟨tag,_ | ⟨len,rest⟩⟩
    · cases read
    · simp [derScalar,rbU8] at read
    · obtain ⟨tagged,read⟩ := Option.ite_none_left_eq_some.mp read
      obtain ⟨sized,read⟩ := Option.ite_none_left_eq_some.mp read
      simp only at tagged sized read
      rcases rbBytes_cases len.toNat rest with ⟨c,rest,length,rfl,taken⟩ | ⟨-,taken⟩
      · rw [taken] at read
        obtain ⟨v,scalar,same⟩ := Option.bind_eq_some_iff.mp read
        cases same
        have filled : c ≠ [] := ne_nil_of_length_pos (by omega)
        obtain ⟨whole,rfl⟩ := (contentScalar_eq_some filled (by omega)).mp scalar
        refine ⟨whole,?_,rfl⟩
        have tag : tag = byte 0x02 := UInt8.toNat_inj.mp (not_not.mp tagged)
        rw [scalarOctets,length,byte_of_toNat,tag]
        rfl
      · rw [taken] at read
        cases read
  · rintro ⟨length,rfl,live⟩
    obtain ⟨filled,short⟩ := scalarContent_bounds length
    have positive := length_pos_iff.mpr filled
    have scalar := (contentScalar_eq_some filled short).mpr ⟨length,rfl⟩
    rw [scalarOctets]
    generalize scalarContent value = c at short positive scalar
    have count : (byte c.length).toNat = c.length := by
      rw [byte_toNat]
      omega
    have sized : ¬ (false = true ∨ c.length < 1 ∨ c.length > 33) := by
      rw [Bool.false_eq_true,false_or]
      omega
    simp only [derScalar,cons_append,nil_append,rbU8_cons,count]
    rw [if_neg sized,rbBytes_append]
    simp [scalar,← live]

theorem writes_integer (value : Bytes) : Writes (writeInteger value) (scalarOctets value) := by
  rw [scalarOctets,scalarContent]
  unfold writeInteger
  by_cases pad : highBit ((dropLead value).getD 0 0)
  · simp only [pad,if_true,Bool.toNat_true]
    exact (((writes_u8 0x02).comp (writes_u8 _)).comp (writes_u8 0)).comp
      (writes_bytes (dropLead value))
  · simp only [pad,Bool.toNat_false]
    exact ((writes_u8 0x02).comp (writes_u8 _)).comp (writes_bytes (dropLead value))

/-! ### Signatures -/

def signatureBody (r s : Bytes) : Bytes := scalarOctets r ++ scalarOctets s

def signatureOctets (r s : Bytes) : Bytes :=
  [byte 0x30,byte (signatureBody r s).length] ++ signatureBody r s

section Signature

variable {r s : Bytes}

theorem signatureBody_short (lengthR : r.length = 32) (lengthS : s.length = 32) :
    (signatureBody r s).length ≤ 70 := by
  have shortR := (scalarContent_bounds lengthR).2
  have shortS := (scalarContent_bounds lengthS).2
  simp only [signatureBody,scalarOctets,length_append,length_cons,length_nil]
  omega

theorem writeSignature_eq (lengthR : r.length = 32) (lengthS : s.length = 32) (cap : Nat) :
    writeSignature cap r s =
      if (signatureOctets r s).length ≤ cap then some (signatureOctets r s) else none := by
  have body : wbResult _ = if (signatureBody r s).length ≤ _ then some (signatureBody r s) else _ :=
    wbResult_of_writes ((writes_integer r).comp (writes_integer s)) p256SigMax
  rw [if_pos (Nat.le_trans (signatureBody_short lengthR lengthS) (by decide))] at body
  rw [writeSignature,body]
  exact wbResult_of_writes (((writes_u8 0x30).comp (writes_u8 _)).comp (writes_bytes _)) cap

/-- The reader takes two scalars from the octets that are written for them, and from no others. -/
theorem derParse_eq_some {sig : Bytes} :
    derParse sig = some (r, s) ↔ r.length = 32 ∧ s.length = 32 ∧ sig = signatureOctets r s := by
  constructor
  · intro read
    rcases sig with _ | ⟨tag,_ | ⟨len,rest⟩⟩
    · cases read
    · simp [derParse,rbU8] at read
    · obtain ⟨tagged,read⟩ := Option.ite_none_left_eq_some.mp read
      obtain ⟨sized,read⟩ := Option.ite_none_left_eq_some.mp read
      have measured : ¬ (false = true ∨ len.toNat ≥ 0x80 ∨ len.toNat ≠ rest.length) := sized
      obtain ⟨⟨first,middle⟩,readFirst,read⟩ := Option.bind_eq_some_iff.mp read
      obtain ⟨⟨second,last⟩,readSecond,read⟩ := Option.bind_eq_some_iff.mp read
      obtain ⟨⟨done,-⟩,same⟩ := Option.ite_none_right_eq_some.mp read
      cases same
      obtain ⟨lengthR,rfl,live⟩ := derScalar_eq_some.mp readFirst
      rw [show middle = ⟨middle.rest,false⟩ by rw [← live]] at readSecond
      obtain ⟨lengthS,split,ended⟩ := derScalar_eq_some.mp readSecond
      rw [rbLeft,ended] at done
      rw [length_eq_zero_iff.mp done,append_nil] at split
      rw [split] at measured ⊢
      refine ⟨lengthR,lengthS,?_⟩
      have tag : tag = byte 0x30 := UInt8.toNat_inj.mp (not_not.mp tagged)
      have size : len.toNat = (signatureBody r s).length := by
        rw [signatureBody]
        omega
      rw [signatureOctets,← size,byte_of_toNat,tag]
      rfl
  · rintro ⟨lengthR,lengthS,rfl⟩
    have short := signatureBody_short lengthR lengthS
    have first : derScalar ⟨signatureBody r s,false⟩ = some (r, ⟨scalarOctets s,false⟩) :=
      derScalar_eq_some.mpr ⟨lengthR,rfl,rfl⟩
    have second : derScalar ⟨scalarOctets s,false⟩ = some (s, ⟨[],false⟩) :=
      derScalar_eq_some.mpr ⟨lengthS,(append_nil _).symm,rfl⟩
    rw [signatureOctets]
    generalize signatureBody r s = body at short first
    have size : (byte body.length).toNat = body.length := by
      rw [byte_toNat]
      omega
    have sized : ¬ (false = true ∨ body.length ≥ 0x80 ∨ body.length ≠ body.length) := by
      rw [Bool.false_eq_true,false_or]
      omega
    simp only [derParse,rbInit,cons_append,nil_append,rbU8_cons,size,rbLeft_live]
    rw [if_neg (show ¬ (byte 0x30).toNat ≠ 0x30 by decide),if_neg sized,first]
    simp [second]

end Signature

/-- Two scalars are read back from what is written for them, which always fits a signature
buffer, and every signature that is read is the one written for its scalars. -/
theorem derSignature_unique :
    (∀ r s : Bytes, r.length = p256ScalarLen → s.length = p256ScalarLen → ∀ cap,
      (∀ sig, writeSignature cap r s = some sig → derParse sig = some (r, s)) ∧
        (p256SigMax ≤ cap → (writeSignature cap r s).isSome)) ∧
    ∀ sig r s, derParse sig = some (r, s) → r.length = p256ScalarLen ∧ s.length = p256ScalarLen ∧
      ∀ cap, p256SigMax ≤ cap → writeSignature cap r s = some sig := by
  have fits {r s : Bytes} (lengthR : r.length = 32) (lengthS : s.length = 32) {cap : Nat}
      (room : p256SigMax ≤ cap) : writeSignature cap r s = some (signatureOctets r s) := by
    rw [writeSignature_eq lengthR lengthS]
    apply if_pos
    rw [signatureOctets,length_append]
    exact Nat.le_trans (Nat.add_le_add_left (signatureBody_short lengthR lengthS) 2) room
  constructor
  · intro r s lengthR lengthS cap
    refine ⟨fun sig written => ?_,fun room => by rw [fits lengthR lengthS room]; rfl⟩
    rw [writeSignature_eq lengthR lengthS] at written
    obtain ⟨-,same⟩ := Option.ite_none_right_eq_some.mp written
    cases same
    exact derParse_eq_some.mpr ⟨lengthR,lengthS,rfl⟩
  · intro sig r s read
    obtain ⟨lengthR,lengthS,rfl⟩ := derParse_eq_some.mp read
    exact ⟨lengthR,lengthS,fun cap room => fits lengthR lengthS room⟩

theorem derSignature_unique_sample :
    derParse [0x30,6,2,1,0x7f,2,1,0x80] = none ∧
      writeSignature 72 (zeros 31 ++ [0x7f]) (zeros 31 ++ [0x80]) =
        some [0x30,7,2,1,0x7f,2,2,0,0x80] := by
  refine ⟨by decide,?_⟩
  have read : derParse [0x30,7,2,1,0x7f,2,2,0,0x80] =
      some (zeros 31 ++ [0x7f], zeros 31 ++ [0x80]) := by decide
  exact (derSignature_unique.2 _ _ _ read).2.2 72 (Nat.le_refl 72)

end Chapulin
