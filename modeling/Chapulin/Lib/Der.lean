/-
Tag, length and content: elements of the basic and the distinguished encoding
rules.

A length has many definite encodings and each one is self-delimiting, so a
string starts with at most one element however its length is written.  The
distinguished rules keep the shortest encoding only; `tlv` writes it for every
content that two length octets can measure.
-/

import Chapulin.Lib.Octets
import Mathlib.Data.List.Induction
import Mathlib.Tactic.Ring

namespace Chapulin.Lib.Der

open List

def ofBytes (octets : Bytes) : Nat := octets.foldl (fun value octet => value * 256 + octet.toNat) 0

/-- The definite encodings of a length: one octet below 128, or the number of
octets that follow and then those octets, with any number of leading zeros. -/
inductive Length : Nat → Bytes → Prop
  | short (n : Nat) (small : n < 128) : Length n [byte n]
  | long (octets : Bytes) (filled : 0 < octets.length) (few : octets.length < 127) :
      Length (ofBytes octets) (byte (128 + octets.length) :: octets)

/-- `encoding` is the element of `tag` around `content` under some definite length. -/
def Element (tag : UInt8) (content encoding : Bytes) : Prop :=
  ∃ octets, Length content.length octets ∧ encoding = tag :: (octets ++ content)

def lengthOctets (n : Nat) : Bytes :=
  if n < 128 then [byte n]
  else if n < 256 then [0x81,byte n]
  else [0x82,byte (n / 256),byte n]

/-- The element of `tag` around `content` with the shortest length octets. -/
def tlv (tag : UInt8) (content : Bytes) : Bytes :=
  tag :: (lengthOctets content.length ++ content)

/-! ### Numbers -/

theorem ofBytes_append (front back : Bytes) :
    ofBytes (front ++ back) = ofBytes front * 256 ^ back.length + ofBytes back := by
  induction back using reverseRecOn with
  | nil => simp [ofBytes]
  | append_singleton back octet ih =>
    have step : ∀ octets : Bytes,
        ofBytes (octets ++ [octet]) = ofBytes octets * 256 + octet.toNat := by
      intro octets
      simp [ofBytes]
    rw [← append_assoc,step,step,ih,length_append,length_singleton,Nat.pow_succ]
    ring

theorem ofBytes_lt (octets : Bytes) : ofBytes octets < 256 ^ octets.length := by
  induction octets using reverseRecOn with
  | nil => simp [ofBytes]
  | append_singleton front octet ih =>
    have bound := octet.toNat_lt
    have last : ofBytes [octet] = octet.toNat := by simp [ofBytes]
    rw [ofBytes_append,last,length_append,length_singleton,Nat.pow_succ]
    omega

theorem ofBytes_cons (octet : UInt8) (rest : Bytes) :
    ofBytes (octet :: rest) = octet.toNat * 256 ^ rest.length + ofBytes rest := by
  have split := ofBytes_append [octet] rest
  simpa [ofBytes] using split

/-! ### Lengths and elements delimit themselves -/

theorem ofBytes_inj {left right : Bytes} (lengths : left.length = right.length)
    (same : ofBytes left = ofBytes right) : left = right := by
  induction left generalizing right with
  | nil => exact (length_eq_zero_iff.mp lengths.symm).symm
  | cons octet rest ih =>
    cases right with
    | nil => cases lengths
    | cons other behind =>
      have length : rest.length = behind.length := Nat.succ.inj lengths
      rw [ofBytes_cons,ofBytes_cons,length] at same
      have below := ofBytes_lt rest
      have belowOther := ofBytes_lt behind
      rw [length] at below
      have tops := congrArg (· / 256 ^ behind.length) same
      simp only [Nat.mul_comm _ (256 ^ _),Nat.mul_add_div (Nat.zero_lt_of_lt below),
        Nat.div_eq_of_lt below,Nat.div_eq_of_lt belowOther,Nat.add_zero] at tops
      rw [tops] at same
      rw [UInt8.toNat_inj.mp tops,ih length (Nat.add_left_cancel same)]

theorem ofBytes_zeros (n : Nat) (octets : Bytes) :
    ofBytes (zeros n ++ octets) = ofBytes octets := by
  induction n with
  | zero => rfl
  | succ n ih =>
    rw [zeros,replicate_succ,cons_append,ofBytes_cons]
    simpa [zeros] using ih

/-- No length is the beginning of another one. -/
theorem Length.unique {n m : Nat} {left right : Bytes} {afterLeft afterRight : Bytes}
    (first : Length n left) (second : Length m right)
    (same : left ++ afterLeft = right ++ afterRight) :
    n = m ∧ left = right ∧ afterLeft = afterRight := by
  cases first with
  | short _ small =>
    cases second with
    | short _ smallToo =>
      obtain ⟨octet,rest⟩ := List.cons.inj same
      have value := mod_eq_of_byte octet
      have sameNumber : n = m := by omega
      exact ⟨sameNumber,by rw [sameNumber],rest⟩
    | long octets some few =>
      have value := mod_eq_of_byte (List.cons.inj same).1
      omega
  | long octets some few =>
    cases second with
    | short _ small =>
      have value := mod_eq_of_byte (List.cons.inj same).1
      omega
    | long others someToo fewToo =>
      obtain ⟨octet,tails⟩ := List.cons.inj same
      have value := mod_eq_of_byte octet
      have sameLength : octets.length = others.length := by omega
      obtain ⟨rfl,rest⟩ := append_inj tails sameLength
      exact ⟨rfl,rfl,rest⟩

/-- Two elements at the front of one string are the same. -/
theorem Element.unique {tag otherTag : UInt8} {content other encoding otherEncoding : Bytes}
    {after afterOther : Bytes} (first : Element tag content encoding)
    (second : Element otherTag other otherEncoding)
    (same : encoding ++ after = otherEncoding ++ afterOther) :
    tag = otherTag ∧ content = other ∧ encoding = otherEncoding ∧ after = afterOther := by
  obtain ⟨octets,measured,rfl⟩ := first
  obtain ⟨otherOctets,otherMeasured,rfl⟩ := second
  simp only [cons_append,append_assoc,cons.injEq] at same
  obtain ⟨rfl,same⟩ := same
  obtain ⟨sameLength,rfl,rest⟩ := measured.unique otherMeasured same
  obtain ⟨rfl,rfl⟩ := append_inj rest sameLength
  exact ⟨rfl,rfl,rfl,rfl⟩

theorem length_lengthOctets {n : Nat} (fits : n < 65536) : Length n (lengthOctets n) := by
  unfold lengthOctets
  split
  · rename_i small
    exact .short n small
  · rename_i large
    split
    · rename_i oneOctet
      have spelled : ofBytes [byte n] = n := by
        simp [ofBytes]
        omega
      have shape := Length.long [byte n] (by simp) (by simp)
      rwa [spelled] at shape
    · have spelled : ofBytes [byte (n / 256),byte n] = n := by
        simp [ofBytes]
        omega
      have shape := Length.long [byte (n / 256),byte n] (by simp) (by simp)
      rwa [spelled] at shape

theorem element_tlv (tag : UInt8) {content : Bytes} (fits : content.length < 65536) :
    Element tag content (tlv tag content) :=
  ⟨lengthOctets content.length,length_lengthOctets fits,rfl⟩

theorem lengthOctets_length (n : Nat) :
    n < 128 ∧ (lengthOctets n).length = 1 ∨ 128 ≤ n ∧ n < 256 ∧ (lengthOctets n).length = 2 ∨
      256 ≤ n ∧ (lengthOctets n).length = 3 := by
  by_cases short : n < 128 <;> by_cases octet : n < 256 <;>
    simp [lengthOctets,short,octet] <;> omega

theorem tlv_length (tag : UInt8) (content : Bytes) :
    (tlv tag content).length = (lengthOctets content.length).length + content.length + 1 := by
  simp only [tlv,length_cons,length_append]

theorem tlv_length_lt (tag : UInt8) (content : Bytes) :
    content.length < (tlv tag content).length := by
  rw [tlv_length]
  omega

theorem tlv_length_short (tag : UInt8) {content : Bytes} (short : content.length < 128) :
    (tlv tag content).length = content.length + 2 := by
  have octets := lengthOctets_length content.length
  rw [tlv_length]
  omega

theorem tlv_length_octet (tag : UInt8) {content : Bytes} (short : content.length < 256) :
    (tlv tag content).length ≤ content.length + 3 := by
  have octets := lengthOctets_length content.length
  rw [tlv_length]
  omega

theorem tlv_length_le (tag : UInt8) (content : Bytes) :
    (tlv tag content).length ≤ content.length + 4 := by
  have octets := lengthOctets_length content.length
  rw [tlv_length]
  omega

theorem tlv_length_inj {tag other : UInt8} {left right : Bytes}
    (same : (tlv tag left).length = (tlv other right).length) : left.length = right.length := by
  rw [tlv_length,tlv_length] at same
  have first := lengthOctets_length left.length
  have second := lengthOctets_length right.length
  omega

theorem tlv_content_inj {tag other : UInt8} {left right : Bytes}
    (same : tlv tag left = tlv other right) : left = right := by
  have lengths := tlv_length_inj (congrArg List.length same)
  simp only [tlv,cons.injEq,lengths] at same
  exact append_cancel_left same.2

end Chapulin.Lib.Der
