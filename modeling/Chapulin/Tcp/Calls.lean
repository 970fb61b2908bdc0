/-
The calls on a connected TCP session, by the steps of `Chapulin.Tcp.Moves`.

A write key of AES-GCM keeps its last number for an alert: `ch_write` seals data
below it and gives it to a KeyUpdate, which retires the key, unless the transport
does not take that record.
-/

import Chapulin.Connected
import Chapulin.Tcp.Moves

namespace Chapulin

open Lib Relation Proc

section Connected

variable (e : Env)

def Spare (d : RecDir) : Prop := recAead e d = true → d.seq < recAesGcmRecordsMax - 1

abbrev CallMoves {α : Type} (act : Act α) : Prop :=
  Moves (Move e (Spare e)) (fun _ => Stop e) act

def Settles (s next : St) : Prop := ∃ last, Going e (Spare e) s last ∧ Stop e last next

variable {e} in
theorem Going.settles {s next : St} (going : Going e (Spare e) s next) : Settles e s next :=
  ⟨next,going,.still rfl⟩

variable {e} in
theorem CallMoves.settles {α : Type} {act : Act α} (moves : CallMoves e act) (s : St) :
    Settles e s (act s).2 := by
  have went := moves s
  rcases ran : act s with ⟨result,next⟩
  rw [ran] at went
  cases result with
  | error rc => exact went
  | ok value => exact Going.settles went

theorem failWith_moves {α : Type} (description : Nat) (rc : Rc) :
    CallMoves e (failWith e description rc : Act α) :=
  fun s => ⟨s,.refl,.failed description (.halts (.still rfl))⟩

/-! ### Messages after the handshake -/

def PostGoes (p next : Post) : Prop :=
  ∀ s : St, Going e (Spare e) { s with t := p.t } { s with t := next.t }

theorem PostGoes.of_untold {p next : Post} (same : next.untold = p.untold) : PostGoes e p next := by
  intro s
  have kept : next.untold.kept = p.untold.kept := congrArg Tls.kept same
  exact Going.quiet (congrArg (fun kept : Tls.Kept => kept.guarded s.rx.alertReceived) kept)

theorem takeKeyUpdate_goes (body : Bytes) (endsInput : Bool) (p : Post) :
    PostGoes e p (takeKeyUpdate e body endsInput p).2 := by
  unfold takeKeyUpdate
  split
  · split
    · exact PostGoes.of_untold e rfl
    split
    · exact PostGoes.of_untold e rfl
    split
    · exact PostGoes.of_untold e rfl
    · intro s
      exact Going.then_quiet (.single .readKeys) rfl
  · exact PostGoes.of_untold e rfl

theorem postMessage_goes (raw : Bytes) (endsInput : Bool) (p : Post) :
    PostGoes e p (postMessage e raw endsInput p).2 := by
  unfold postMessage
  by_cases ticket : msgType raw = hsNewSessionTicket
  · rw [if_pos ticket]
    unfold takeTicket
    split
    · exact PostGoes.of_untold e rfl
    · exact PostGoes.of_untold e (handleTicket_untold e _ p)
  rw [if_neg ticket]
  by_cases update : msgType raw = hsKeyUpdate
  · rw [if_pos update]
    exact takeKeyUpdate_goes e _ _ p
  · rw [if_neg update]
    exact PostGoes.of_untold e rfl

theorem postLoop_goes (fuel : Nat) (pt : Bytes) (used : Nat) (p : Post) :
    PostGoes e p (postLoop e fuel pt used p).2 := by
  induction fuel generalizing pt used p with
  | zero => exact PostGoes.of_untold e rfl
  | succ fuel ih =>
    unfold postLoop
    split
    · dsimp only
      split
      · exact PostGoes.of_untold e rfl
      split
      · exact PostGoes.of_untold e rfl
      split
      · rename_i ran
        have went := congrArg (PostGoes e p ∘ Prod.snd) ran
        exact went.mp (postMessage_goes e _ _ p)
      · rename_i ran
        have went := congrArg (PostGoes e p ∘ Prod.snd) ran
        exact fun s => (went.mp (postMessage_goes e _ _ p) s).trans (ih _ _ _ s)
    · exact PostGoes.of_untold e rfl

/-- How the reader of a split message stops: a record that is not there yet
changes nothing. -/
inductive Breaks (stop : PostStop) (s : St) : St → Prop
  | still {next : St} (same : next.guarded = s.guarded) : Breaks stop s next
  | heard {next : St} (known : stop.1 ≠ .tcpAgain) (halt : Halt s next) : Breaks stop s next

theorem openFragment_moves (rec : Bytes) (fill alert : Nat) :
    Moves (Move e (Spare e)) Breaks (openFragment e rec fill alert) := by
  intro s
  unfold openFragment
  split
  · exact ⟨s,.refl,.still rfl⟩
  have opened : Going e (Spare e) s (s.withRd (recOpen e s.t.rd rec (s.t.cfg.bufLen - fill)).2) :=
    .single .opens
  split
  · rename_i ran
    rw [ran] at opened
    exact ⟨_,opened,.still rfl⟩
  · rename_i ran
    rw [ran] at opened
    dsimp only
    split
    · exact ⟨_,opened,.heard nofun (.heard rfl)⟩
    split
    · exact opened
    · exact ⟨_,opened,.still rfl⟩

theorem drainRun_moves (fuel quiet fill alert : Nat) :
    Moves (Move e (Spare e)) Breaks (drainRun e fuel quiet fill alert) := by
  induction fuel generalizing quiet fill alert with
  | zero => exact fun s => ⟨s,.refl,.still rfl⟩
  | succ fuel ih =>
    intro s
    cases quiet with
    | zero => exact ⟨s,.refl,.still rfl⟩
    | succ quiet =>
      have handled := postLoop_goes e ((s.rx.buf.take fill).length + 1) (s.rx.buf.take fill) 0
        { t := s.t, alert := alert, errorCode := 0 } s
      unfold drainRun handlePostHandshake
      split
      · rename_i ran
        rw [ran] at handled
        exact ⟨_,handled,.still rfl⟩
      rename_i used p ran
      rw [ran] at handled
      dsimp only
      split
      · exact handled
      split
      · split <;> exact ⟨_,handled,.still rfl⟩
      rename_i rec io _
      let kept := (s.rx.buf.take fill).drop used
      have read : Going e (Spare e) s
          { s with t := p.t, rx := { s.rx with buf := copyAt s.rx.buf 0 kept }, io := io } :=
        Going.then_quiet handled rfl
      have fragment := (openFragment_moves e rec kept.length p.alert).after read
      split
      · rename_i ran
        rw [ran] at fragment
        exact fragment
      · rename_i ran
        rw [ran] at fragment
        exact (ih _ _ _).after (Going.then_quiet fragment rfl)

theorem hspostRead_moves (ptLen : Nat) : CallMoves e (hspostRead e ptLen) := by
  intro s
  have drained := drainRun_moves e (inboxSize s.io + 1) quietCap ptLen Alert.unexpectedMessage s
  unfold hspostRead
  split
  · rename_i ran
    rw [ran] at drained
    exact drained
  rename_i ran
  rw [ran] at drained
  obtain ⟨last,going,broke⟩ := drained
  cases broke with
  | still same =>
    split
    · exact ⟨last,going,.still same⟩
    · exact ⟨last,going,.failed _ (.halts (.still same))⟩
  | heard known halt =>
    rw [if_neg known]
    exact ⟨last,going,.failed _ (.halts halt)⟩

/-! ### Reading -/

theorem readAlert_moves (pt : Bytes) : CallMoves e (readAlert e pt) := by
  intro s
  unfold readAlert
  split
  · split
    · have ended : Going e (Spare e) s (closeReadSide s) :=
        Going.then_quiet (.single .readEnds) rfl
      exact ⟨_,ended,.still rfl⟩
    split
    · exact ReflTransGen.refl
    · exact ⟨s,.refl,.failed _ (.halts (.heard rfl))⟩
  · exact failWith_moves e _ _ s

theorem dispatchPlaintext_moves (pt : Bytes) (type : Nat) :
    CallMoves e (dispatchPlaintext e pt type) := by
  intro s
  unfold dispatchPlaintext
  split
  · exact Going.quiet rfl
  split
  · exact hspostRead_moves e _ s
  split
  · exact readAlert_moves e pt s
  · exact failWith_moves e _ _ s

theorem dispatchOneRecord_moves : CallMoves e (dispatchOneRecord e) := by
  intro s
  unfold dispatchOneRecord
  split
  · exact (hspostRead_moves e _).after (Going.quiet rfl)
  split
  · rename_i io _
    have read : Going e (Spare e) s { s with io := io } := Going.quiet rfl
    dsimp only
    split
    · exact ⟨_,read,.still rfl⟩
    · exact (failWith_moves e _ _).after read
  rename_i rec io _
  have read : Going e (Spare e) s { s with io := io } := Going.quiet rfl
  dsimp only
  split
  · exact (failWith_moves e _ _).after read
  have opened : Going e (Spare e) s
      (St.withRd (recOpen e s.t.rd rec s.t.cfg.bufLen).2 { s with io := io }) := read.tail .opens
  split
  · rename_i ran
    rw [ran] at opened
    exact (failWith_moves e _ _).after opened
  · rename_i ran
    rw [ran] at opened
    exact (dispatchPlaintext_moves e _ _).after (Going.then_quiet opened rfl)

theorem tlsReadLoop_settles (n left : Nat) (s : St) : Settles e s (tlsReadLoop e n left s).2 := by
  induction left generalizing s with
  | zero => exact CallMoves.settles (failWith_moves e _ _) s
  | succ left ih =>
    unfold tlsReadLoop
    split
    · exact Going.settles (Going.quiet rfl)
    have one := dispatchOneRecord_moves e s
    split
    · rename_i ran
      rw [ran] at one
      split <;> exact one
    · rename_i ran
      rw [ran] at one
      obtain ⟨last,going,stop⟩ := ih _
      exact ⟨last,ReflTransGen.trans one going,stop⟩

theorem tlsRead_settles (n : Nat) (s : St) : Settles e s (tlsRead e n s).2 := by
  have stays : Settles e s s := Going.settles .refl
  unfold tlsRead
  split
  · exact stays
  split
  · exact stays
  · split
    · exact stays
    · exact tlsReadLoop_settles e n _ s
  · exact stays

/-! ### Writing -/

theorem sendStaged_guarded (rec : Bytes) : Keeps St.guarded (sendStaged rec) := fun _ => rfl

theorem sendLoop_part {fuel : Nat} {p : Bytes} {plan : List Nat}
    (part : (sendLoop fuel p plan).1 = false) : (sendLoop fuel p plan).2.1.length < p.length := by
  fun_induction sendLoop fuel p plan with
  | case1 => cases part
  | case2 => exact Nat.zero_lt_succ _
  | case3 => cases part
  | case4 fuel p took plan filled =>
    exact List.length_pos_iff.mpr fun empty => filled empty
  | case5 fuel p took plan _ fits all rest left ran ih =>
    rw [ran] at ih
    have rest := ih part
    simp only [List.length_append,List.length_take,List.length_drop] at rest ⊢
    omega

theorem sendStaged_part {rec : Bytes} {s next : St} {rc : Rc}
    (ran : sendStaged rec s = (.error rc, next)) : SentPart rec next.io.sent := by
  simp only [sendStaged,onIo,Proc.within,ioSendAll,Prod.mk.injEq] at ran
  obtain ⟨failed,rfl⟩ := ran
  refine ⟨_,List.getLast?_concat,sendLoop_part ?_⟩
  by_contra all
  rw [Bool.not_eq_false] at all
  simp [all] at failed

/-- The KeyUpdate before a record leaves the write key a number to spare. -/
theorem keyUpdateBeforeRecord_moves (s : St) :
    Ends (fun _ next => Going e (Spare e) s next ∧ Spare e next.t.wr)
      (fun _ next => ∃ last, Going e (Spare e) s last ∧ Stop e last next)
      (keyUpdateBeforeRecord e s) := by
  unfold keyUpdateBeforeRecord
  split
  · rename_i idle
    refine ⟨.refl,fun gcm => ?_⟩
    simp only [keyUpdateDue,gcm,Bool.true_and,Bool.not_eq_true',Bool.or_eq_false_iff,
      decide_eq_false_iff_not] at idle
    exact Nat.not_le.mp idle.2
  split
  · exact ⟨s,.refl,.failed _ (.halts (.still rfl))⟩
  unfold hspostSendKeyUpdate
  rcases ran : recSeal e s.t.wr recHandshake keyUpdateMessage (txCap e.build) with _ | ⟨rec,wr⟩
  · exact ⟨s,.refl,.failed _ (.halts (.still rfl))⟩
  have sent := sendStaged_guarded rec (s.withWr wr)
  dsimp only
  rcases out : sendStaged rec { s with t := { s.t with wr := wr } } with ⟨rc | _,next⟩
  · rw [St.withWr,out] at sent
    exact ⟨s,.refl,.failed _ (.untaken ran sent (sendStaged_part out))⟩
  · rw [St.withWr,out] at sent
    have updates : Move e (Spare e) s ((s.withWr wr).renewWr
        (recDirUpdate e next.t.wrSecret next.t.wr).2) := .keyUpdate ran
    refine ⟨Going.then_quiet (.single updates) ?_,fun _ => ?_⟩
    · exact congrArg (fun g : Guarded =>
        { g with wr := (recDirUpdate e next.t.wrSecret next.t.wr).2
                 spent := g.spent ++ [(KeyDirection.write, g.wr)] }) sent
    · exact Nat.zero_lt_succ _

theorem writeRecord_moves (inner : Bytes) {s : St} (spare : Spare e s.t.wr) :
    Ends (fun _ next => Going e (Spare e) s next)
      (fun _ next => ∃ last, Going e (Spare e) s last ∧ Stop e last next)
      (writeRecord e inner s) := by
  unfold writeRecord
  split
  · exact ⟨s,.refl,.failed _ (.halts (.still rfl))⟩
  split
  · exact ⟨s,.refl,.failed _ (.halts (.still rfl))⟩
  rename_i rec wr sealed
  have seals : Going e (Spare e) s (s.withWr wr) := .single (.seals spare sealed)
  have sent := sendStaged_guarded rec (s.withWr wr)
  rw [St.withWr] at sent
  split
  · rename_i ran
    rw [ran] at sent
    exact ⟨_,seals,.failed _ (.halts (.still sent))⟩
  · rename_i ran
    rw [ran] at sent
    exact seals.then_quiet sent

theorem writeLoop_moves (limit fuel : Nat) (parts : List Bytes) :
    CallMoves e (writeLoop e limit fuel parts) := by
  induction fuel generalizing parts with
  | zero =>
    cases parts with
    | nil => exact moves_pure _
    | cons part parts => exact moves_stop fun _ => .still rfl
  | succ fuel ih =>
    cases parts with
    | nil => exact moves_pure _
    | cons part parts =>
      intro s
      unfold writeLoop
      have updated := keyUpdateBeforeRecord_moves e s
      rw [Proc.bind_apply]
      rcases ran : keyUpdateBeforeRecord e s with ⟨_ | _,middle⟩
      · rw [ran] at updated
        exact updated
      rw [ran] at updated
      obtain ⟨going,spare⟩ := updated
      have written := writeRecord_moves e (partsCopyRecord limit (part :: parts)).1 spare
      dsimp only
      rw [Proc.bind_apply]
      rcases ran : writeRecord e (partsCopyRecord limit (part :: parts)).1 middle with
        ⟨_ | _,last⟩
      · rw [ran] at written
        obtain ⟨sealed,more,stop⟩ := written
        exact ⟨sealed,going.trans more,stop⟩
      · rw [ran] at written
        exact (ih _).after (ReflTransGen.trans going written)

theorem tlsWriteParts_settles (parts : List Bytes) (s : St) :
    Settles e s (tlsWriteParts e parts s).2 := by
  unfold tlsWriteParts
  split
  · exact Going.settles .refl
  · exact CallMoves.settles (writeLoop_moves e _ _ _) s

theorem tlsFail_settles (description : Nat) (s : St) : Settles e s (tlsFail e description s).2 := by
  unfold tlsFail
  split
  · exact Going.settles .refl
  split
  · exact Going.settles .refl
  · exact ⟨s,.refl,.failed description (.halts (.still rfl))⟩

end Connected

end Chapulin
