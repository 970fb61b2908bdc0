/-
`ch_write_parts` against `ch_write` (`tls_write.c`): the cursor that runs over
the parts copies the records that one buffer with all the bytes is cut into.
-/

import Chapulin.Tcp.Writable

namespace Chapulin

open Lib List

/-! ### The cursor -/

theorem partsSkipEmpty_flatten (parts : List Bytes) :
    (partsSkipEmpty parts).flatten = parts.flatten := by
  induction parts with
  | nil => rfl
  | cons part parts ih =>
    unfold partsSkipEmpty at ih ⊢
    by_cases empty : part = []
    · subst empty
      rw [dropWhile_cons_of_pos (by rfl),ih,flatten_cons,nil_append]
    · rw [dropWhile_cons_of_neg (by simpa using empty)]

theorem partsTotal_flatten (parts : List Bytes) : partsTotal parts = parts.flatten.length := by
  rw [length_flatten]
  rfl

theorem partsCopyRecord_flatten (limit : Nat) (parts : List Bytes) :
    (partsCopyRecord limit parts).1 = parts.flatten.take limit ∧
      (partsCopyRecord limit parts).2.flatten = parts.flatten.drop limit := by
  induction parts generalizing limit with
  | nil => cases limit <;> simp [partsCopyRecord]
  | cons part parts ih =>
    cases limit with
    | zero => simp [partsCopyRecord]
    | succ room =>
      rw [partsCopyRecord,flatten_cons]
      split
      · rename_i short
        obtain ⟨copied,left⟩ := ih (room + 1 - part.length)
        simp only [copied,left]
        rw [take_append,drop_append,take_of_length_le short,drop_of_length_le short,nil_append]
        exact ⟨rfl,rfl⟩
      · rename_i long
        rw [take_append_of_le_length (by omega),drop_append_of_le_length (by omega)]
        exact ⟨rfl,flatten_cons⟩

/-! ### The loop -/

section Loop

variable (e : Env)

def writeTurn (inner : Bytes) : Act Unit := do
  keyUpdateBeforeRecord e
  writeRecord e inner

variable {e} {limit : Nat} (positive : 0 < limit)
include positive

/-- The loop writes the pieces of the parts, each in a record. -/
theorem writeLoop_eq_forM {fuel : Nat} {parts : List Bytes} (enough : partsTotal parts ≤ fuel) :
    writeLoop e limit fuel (partsSkipEmpty parts) =
      (cut limit parts.flatten).forM (writeTurn e) := by
  induction fuel generalizing parts with
  | zero =>
    have empty : parts.flatten = [] := by
      rw [← length_eq_zero_iff,← partsTotal_flatten]
      omega
    rcases skipped : partsSkipEmpty parts with _ | ⟨part,left⟩
    · rw [empty,cut_nil]
      rfl
    · have filled := partsTotal_pos skipped
      omega
  | succ fuel ih =>
    rcases skipped : partsSkipEmpty parts with _ | ⟨part,rest⟩
    · have empty : parts.flatten = [] := by
        rw [← partsSkipEmpty_flatten,skipped,flatten_nil]
      rw [empty,cut_nil]
      rfl
    have filled := partsTotal_pos skipped
    have full : parts.flatten ≠ [] := by
      rw [← length_pos_iff,← partsTotal_flatten]
      exact filled
    have same := partsSkipEmpty_flatten parts
    rw [skipped] at same
    obtain ⟨copied,left⟩ := partsCopyRecord_flatten limit (part :: rest)
    have behind := (partsCopyRecord_total limit (part :: rest)).2
    rw [← partsTotal_skipEmpty,skipped] at enough filled
    rw [same] at copied left
    rw [writeLoop_cons,copied,ih (by omega),left,cut_of_ne_nil positive full]
    exact (Proc.bind_assoc _ _ _).symm

end Loop

/-! ### The records -/

structure Emitted where
  type : Nat
  plaintext : Bytes
  keys : RecDir
  record : Bytes

def Emitted.isData (r : Emitted) : Bool := r.type == recAppdata

/-- The record is the plaintext sealed under its keys; what is no data is the
KeyUpdate. -/
structure Emitted.Sealed (e : Env) (r : Emitted) : Prop where
  sealing : ∃ after, recSeal e r.keys r.type r.plaintext (txCap e.build) = some (r.record, after)
  kind : r.type = recAppdata ∨ r.type = recHandshake ∧ r.plaintext = keyUpdateMessage

section Records

variable {e : Env} {s next : St}

theorem keyUpdateBeforeRecord_sent (ran : keyUpdateBeforeRecord e s = (.ok (), next)) :
    ∃ log : List Emitted, (∀ r ∈ log, r.Sealed e ∧ r.isData = false) ∧
      next.io.sent = s.io.sent ++ log.map Emitted.record := by
  unfold keyUpdateBeforeRecord at ran
  split at ran
  · cases ran
    refine ⟨[],fun r among => ?_,by simp⟩
    cases among
  split at ran
  · cases ran
  rcases ended : hspostSendKeyUpdate e s with ⟨rc | _,after⟩
  · rw [ended] at ran
    cases ran
  rw [ended] at ran
  cases ran
  obtain ⟨-,rec,wr,sealed,appended⟩ := hspostSendKeyUpdate_ok ended
  refine ⟨[⟨recHandshake,keyUpdateMessage,s.t.wr,rec⟩],fun r among => ?_,appended⟩
  rw [mem_singleton.mp among]
  exact ⟨⟨⟨wr,sealed⟩,.inr ⟨rfl,rfl⟩⟩,rfl⟩

theorem writeRecord_sent {inner : Bytes} (ran : writeRecord e inner s = (.ok (), next)) :
    ∃ r : Emitted, r.Sealed e ∧ r.isData = true ∧ r.plaintext = inner ∧
      next.io.sent = s.io.sent ++ [r.record] := by
  obtain ⟨-,rec,wr,sealed,appended⟩ := writeRecord_ok ran
  exact ⟨⟨recAppdata,inner,s.t.wr,rec⟩,⟨⟨wr,sealed⟩,.inl rfl⟩,rfl,rfl,appended⟩

theorem writeTurns_sent {pieces : List Bytes} (ran : pieces.forM (writeTurn e) s = (.ok (), next)) :
    ∃ log : List Emitted, (∀ r ∈ log, r.Sealed e) ∧
      (log.filter Emitted.isData).map Emitted.plaintext = pieces ∧
      next.io.sent = s.io.sent ++ log.map Emitted.record := by
  induction pieces generalizing s with
  | nil =>
    cases ran
    refine ⟨[],fun r among => ?_,rfl,by simp⟩
    cases among
  | cons piece pieces ih =>
    have inTurn : (writeTurn e piece >>= fun _ => pieces.forM (writeTurn e)) s = (.ok (), next) :=
      ran
    obtain ⟨_,after,turned,ran⟩ := Proc.bind_eq_ok.mp inTurn
    obtain ⟨_,ready,updated,wrote⟩ := Proc.bind_eq_ok.mp turned
    obtain ⟨updates,quiet,updateSent⟩ := keyUpdateBeforeRecord_sent updated
    obtain ⟨record,sealing,isData,plaintext,recordSent⟩ := writeRecord_sent wrote
    obtain ⟨log,seals,data,sent⟩ := ih ran
    refine ⟨updates ++ record :: log,?_,?_,?_⟩
    · rw [forall_mem_append,forall_mem_cons]
      exact ⟨fun r update => (quiet r update).1,sealing,seals⟩
    · have absent : updates.filter Emitted.isData = [] :=
        filter_eq_nil_iff.mpr fun r among => by simp [(quiet r among).2]
      rw [filter_append,absent,nil_append,filter_cons_of_pos isData,map_cons,plaintext,data]
    · rw [sent,recordSent,updateSent]
      simp

theorem tlsWriteParts_turns (connected : s.t.state = .connected) (positive : 0 < s.t.peerLimit)
    (parts : List Bytes) :
    tlsWriteParts e parts s =
      (cut (recordPlaintextMax e s.t) parts.flatten).forM (writeTurn e) s := by
  unfold tlsWriteParts
  rw [if_neg (by simp [connected])]
  exact congrFun (writeLoop_eq_forM (recordPlaintextMax_pos.mpr positive) (Nat.le_refl _)) s

/-- Writing parts is writing their bytes in one piece: the same records, state
and result.  The call takes one turn for each piece of at most the record limit,
all but the last one full, and when it returns these are the plaintexts of its
data records. -/
theorem tlsWriteParts_concat (connected : s.t.state = .connected) (positive : 0 < s.t.peerLimit)
    (parts : List Bytes) :
    tlsWriteParts e parts s = tlsWrite e parts.flatten s ∧
      ∃ pieces : List Bytes, pieces.flatten = parts.flatten ∧
        (∀ piece ∈ pieces, piece.length ≤ min s.t.peerLimit e.build.txPt) ∧
        (∀ piece ∈ pieces.dropLast, piece.length = min s.t.peerLimit e.build.txPt) ∧
        tlsWriteParts e parts s = pieces.forM (writeTurn e) s ∧
        ∀ next, tlsWriteParts e parts s = (.ok (), next) →
          ∃ log : List Emitted, (∀ r ∈ log, r.Sealed e) ∧
            (log.filter Emitted.isData).map Emitted.plaintext = pieces ∧
            next.io.sent = s.io.sent ++ log.map Emitted.record := by
  have limited := (@recordPlaintextMax_pos e s.t).mpr positive
  have turns := @tlsWriteParts_turns e s connected positive
  constructor
  · unfold tlsWrite
    rw [turns,turns,flatten_singleton]
  · refine ⟨cut (recordPlaintextMax e s.t) parts.flatten,cut_flatten limited _,
      fun piece among => (cut_length_le limited _ piece among).2,cut_dropLast limited _,turns parts,
      fun next ran => ?_⟩
    rw [turns] at ran
    exact writeTurns_sent ran

end Records

theorem tlsWriteParts_concat_sample : ∃ s : St, s.t.state = .connected ∧ 0 < s.t.peerLimit ∧
    tlsWriteParts sampleGcmEnv [[],[1,2],[],[3]] s = tlsWrite sampleGcmEnv [1,2,3] s := by
  obtain ⟨s,connected,limit,_⟩ := sampleGcm_open
  have positive : 0 < s.t.peerLimit := by
    rw [limit]
    decide
  exact ⟨s,connected,positive,(tlsWriteParts_concat connected positive [[],[1,2],[],[3]]).1⟩

end Chapulin
