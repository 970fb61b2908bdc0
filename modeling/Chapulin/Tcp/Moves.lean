/-
What the functions of a TCP session may do to its record keys, its state and its
alerts: the steps they go by, and how they stop.

A key seals or opens a record, is replaced by a fresh one, and is wiped when the
peer closes; everything else is out of sight here.  The bound `fits` is what a
write key meets before it seals: a handshake asks for nothing, a connected
session for a number left over.
-/

import Chapulin.Lib.Moves
import Chapulin.Tcp.Run

namespace Chapulin

open Lib Relation Proc

structure Guarded where
  state : SessionState
  keys : Bool
  wr : RecDir
  rd : RecDir
  spent : List (KeyDirection × RecDir)
  alerts : List (Nat × Nat)
  alertSent : Nat
  alertReceived : Nat

def Tls.Kept.guarded (kept : Tls.Kept) (alertReceived : Nat) : Guarded where
  state := kept.state
  keys := kept.keys
  wr := kept.wr
  rd := kept.rd
  spent := kept.spent
  alerts := kept.alerts
  alertSent := kept.alertSent
  alertReceived := alertReceived

def St.guarded (s : St) : Guarded := s.t.kept.guarded s.rx.alertReceived

def St.withWr (wr : RecDir) (s : St) : St := { s with t := { s.t with wr := wr } }

def St.withRd (rd : RecDir) (s : St) : St := { s with t := { s.t with rd := rd } }

def St.renewWr (wr : RecDir) (s : St) : St :=
  { s with t := { s.t with wr := wr, spent := s.t.spentWr } }

def St.renewRd (rd : RecDir) (s : St) : St :=
  { s with t := { s.t with rd := rd, spent := s.t.spentRd } }

def St.keyed (s : St) : St := { s with t := { s.t with keys := true } }

inductive Move (e : Env) (fits : RecDir → Prop) : St → St → Prop
  | quiet {s next : St} (same : next.guarded = s.guarded) : Move e fits s next
  | seals {s : St} {type cap : Nat} {pt rec : Bytes} {wr : RecDir} (room : fits s.t.wr)
      (sealed : recSeal e s.t.wr type pt cap = some (rec, wr)) : Move e fits s (s.withWr wr)
  | opens {s : St} {rec : Bytes} {cap : Nat} :
      Move e fits s (s.withRd (recOpen e s.t.rd rec cap).2)
  | writeKeys {s : St} {secret : Bytes} {suite : Nat} :
      Move e fits s (s.renewWr (recDirInitSuite e secret suite))
  | readKeys {s : St} {secret : Bytes} {suite : Nat} :
      Move e fits s (s.renewRd (recDirInitSuite e secret suite))
  | keyed {s : St} : Move e fits s s.keyed
  | keyUpdate {s : St} {cap : Nat} {rec secret : Bytes} {wr : RecDir} {suite : Nat}
      (sealed : recSeal e s.t.wr recHandshake keyUpdateMessage cap = some (rec, wr)) :
      Move e fits s ((s.withWr wr).renewWr (recDirInitSuite e secret suite))
  | readEnds {s : St} : Move e fits s (s.renewRd .wiped)
  | connect {s : St} : Move e fits s { s with t := { s.t with state := .connected } }

/-- How a function of a handshake that does not return leaves the session: as it
was, or with the alert of the peer. -/
inductive Halt : St → St → Prop
  | still {s next : St} (same : next.guarded = s.guarded) : Halt s next
  | heard {s next : St} {alert : Nat}
      (same : next.guarded = { s with rx := { s.rx with alertReceived := alert } }.guarded) :
      Halt s next

/-- The transport took a part only of the last record it was handed. -/
def SentPart (rec : Bytes) (sent : List Bytes) : Prop :=
  ∃ taken, sent.getLast? = some taken ∧ taken.length < rec.length

/-- What a connected session is failed in: the state it was in, the one with the
alert of the peer, or the one whose KeyUpdate the transport took a part of. -/
inductive Failing (e : Env) (s : St) : St → Prop
  | halts {last : St} (halt : Halt s last) : Failing e s last
  | untaken {last : St} {cap : Nat} {rec : Bytes} {wr : RecDir}
      (sealed : recSeal e s.t.wr recHandshake keyUpdateMessage cap = some (rec, wr))
      (same : last.guarded = (s.withWr wr).guarded) (part : SentPart rec last.io.sent) :
      Failing e s last

inductive Stop (e : Env) (s : St) : St → Prop
  | still {next : St} (same : next.guarded = s.guarded) : Stop e s next
  | failed {last : St} (description : Nat) (failing : Failing e s last) :
      Stop e s (tlsiFail e description last).2

abbrev Going (e : Env) (fits : RecDir → Prop) : St → St → Prop := ReflTransGen (Move e fits)

abbrev ActMoves {α : Type} (e : Env) (fits : RecDir → Prop) (act : Act α) : Prop :=
  Moves (Move e fits) (fun _ => Halt) act

/-- The moves of the session that a larger state holds. -/
abbrev ViewMoves {σ α : Type} (e : Env) (fits : RecDir → Prop) (view : σ → St)
    (proc : Proc σ Rc α) : Prop :=
  Moves (fun s next => Move e fits (view s) (view next))
    (fun _ s next => Halt (view s) (view next)) proc

section Rules

variable {e : Env} {fits : RecDir → Prop} {α : Type}

theorem Going.quiet {s next : St} (same : next.guarded = s.guarded) : Going e fits s next :=
  .single (.quiet same)

theorem Going.installs (reading writing : Bytes) (suite : Nat) (s : St) :
    Going e fits s ((s.renewRd (recDirInitSuite e reading suite)).renewWr
      (recDirInitSuite e writing suite)) :=
  (ReflTransGen.single .readKeys).tail .writeKeys

theorem Going.keyed {s middle : St} (going : Going e fits s middle) :
    Going e fits s middle.keyed := going.tail .keyed

theorem Going.then_quiet {s middle next : St} (going : Going e fits s middle)
    (same : next.guarded = middle.guarded) : Going e fits s next := going.tail (.quiet same)

theorem actMoves_of_guarded {act : Act α} (kept : Keeps St.guarded act) : ActMoves e fits act :=
  kept.moves (fun _ _ same => .quiet same) fun _ _ _ same => .still same

theorem Steady.moves {handler : Handler α} (steady : Steady handler) :
    ActMoves e fits (onCore handler) := by
  refine actMoves_of_guarded fun s => ?_
  have same := steady s.core
  exact congrArg (fun kept : Tls.Kept => kept.guarded s.rx.alertReceived) same

theorem guarded_of_rx {s : St} {rx : Rx} (alert : rx.alertReceived = s.rx.alertReceived) :
    St.guarded { s with rx := rx } = s.guarded := congrArg s.t.kept.guarded alert

theorem stopAlert_moves (alert : Nat) (rc : Rc) : ActMoves e fits (stopAlert alert rc : Act α) :=
  (steady_refuse alert rc).moves

end Rules

/-! ### Reading a handshake -/

section Reading

variable (e : Env) (fits : RecDir → Prop)

theorem acceptRecord_moves (rec : Bytes) : ActMoves e fits (acceptRecord e rec) := by
  intro s
  unfold acceptRecord
  split
  · split
    · exact ⟨s,.refl,.still rfl⟩
    · exact Going.quiet rfl
  split
  · exact ⟨s,.refl,.still rfl⟩
  have opened : Going e fits s (s.withRd (recOpen e s.t.rd rec (s.t.cfg.bufLen - s.rx.ptLen)).2) :=
    .single .opens
  split
  · rename_i ran
    rw [ran] at opened
    exact ⟨_,opened,.still rfl⟩
  · rename_i ran
    rw [ran] at opened
    dsimp only
    split
    · exact ⟨_,opened,.heard rfl⟩
    split
    · exact ⟨_,opened,.still rfl⟩
    · exact opened.then_quiet rfl

theorem takeQuietly_moves (rec : Bytes) : ActMoves e fits (takeQuietly e rec) := by
  intro s
  have accepted := acceptRecord_moves e fits rec s
  unfold takeQuietly
  rcases ran : acceptRecord e rec s with ⟨rc | _,next⟩
  · rw [ran] at accepted
    exact accepted
  rw [ran] at accepted
  have going : Going e fits s next := accepted
  dsimp only
  split
  · exact going
  split
  · exact ⟨next,going,.still rfl⟩
  · exact going.then_quiet rfl

theorem ccsTolerable_alert (rec : Bytes) (rx : Rx) :
    (ccsTolerable rec rx).2.alertReceived = rx.alertReceived := by
  unfold ccsTolerable
  split <;> rfl

theorem dispatchRecord_moves (rec : Bytes) : ActMoves e fits (dispatchRecord e rec) := by
  intro s
  unfold dispatchRecord
  split
  · have alert := ccsTolerable_alert rec s.rx
    rcases counted : ccsTolerable rec s.rx with ⟨tolerable,rx⟩
    rw [counted] at alert
    have same (room held : Nat) :
        St.guarded { s with rx := rx.noteCcs rec tolerable room held } = s.guarded :=
      guarded_of_rx alert
    cases tolerable with
    | false => exact ⟨s,.refl,.still (same _ _)⟩
    | true => exact Going.quiet (same _ _)
  split
  · exact ⟨s,.refl,.heard rfl⟩
  have taken := takeQuietly_moves e fits rec s
  rcases ran : takeQuietly e rec s with ⟨rc | _,next⟩ <;>
    · rw [ran] at taken
      exact taken

theorem Rx.noteRefused_alert (rx : Rx) (refused : Option Bytes) (room held : Nat) :
    (rx.noteRefused refused room held).alertReceived = rx.alertReceived := by
  unfold Rx.noteRefused
  split
  · split <;> rfl
  · rfl

theorem fetchOne_moves : ActMoves e fits fetchOne := by
  refine actMoves_of_guarded fun s => ?_
  unfold fetchOne
  split
  · exact congrArg s.t.kept.guarded (Rx.noteRefused_alert s.rx _ _ _)
  · rfl

theorem fetchLoop_moves (fuel : Nat) : ActMoves e fits (fetchLoop e fuel) := by
  induction fuel with
  | zero => exact moves_stop fun _ => .still rfl
  | succ fuel ih =>
    exact (fetchOne_moves e fits).bind fun rec => (dispatchRecord_moves e fits rec).bind fun _ =>
      .ite ih (moves_pure ())

theorem Rx.compact_alert (rx : Rx) : rx.compact.alertReceived = rx.alertReceived := by
  unfold Rx.compact
  split <;> rfl

theorem hsrFetchRecord_moves : ActMoves e fits (hsrFetchRecord e) := fun s =>
  (fetchLoop_moves e fits _).after
    (Going.quiet (guarded_of_rx (Rx.compact_alert s.rx)))

theorem nextMsgLoop_moves (fuel : Nat) : ActMoves e fits (nextMsgLoop e fuel) := by
  induction fuel with
  | zero => exact moves_stop fun _ => .still rfl
  | succ fuel ih =>
    intro s
    unfold nextMsgLoop
    split
    · exact ⟨s,.refl,.still rfl⟩
    · exact Going.quiet rfl
    have fetched := hsrFetchRecord_moves e fits s
    rcases ran : hsrFetchRecord e s with ⟨rc | _,next⟩
    · rw [ran] at fetched
      exact fetched
    · rw [ran] at fetched
      exact ih.after fetched

theorem nextFed_moves : ActMoves e fits nextFed := by
  refine actMoves_of_guarded fun s => ?_
  unfold nextFed
  split <;> rfl

theorem hsrNextMsg_moves : ActMoves e fits (hsrNextMsg e) :=
  .ite (fun s => nextMsgLoop_moves e fits _ s) (nextFed_moves e fits)

end Reading

/-! ### The drivers of a handshake -/

def Freely (_ : RecDir) : Prop := True

section Handshaking

variable (e : Env) {fits : RecDir → Prop}

theorem installHandshakeKeys_moves : ActMoves e fits (onCore (installHandshakeKeys e)) :=
  fun s => (Going.installs s.h.sHs s.h.cHs s.h.suite s).keyed.then_quiet rfl

theorem installTrafficKeys_moves : ActMoves e fits (onCore (installTrafficKeys e)) :=
  fun s => (Going.installs s.t.rdSecret s.t.wrSecret s.h.suite s).then_quiet rfl

theorem Halt.alerted {s next : St} (halts : Halt s next) (alert : Nat) :
    Halt s { next with h := { next.h with alert := alert } } := by
  cases halts with
  | still same => exact .still same
  | heard same => exact .heard same

theorem srvNextMsg_moves : ActMoves e fits (srvNextMsg e) := by
  intro s
  have read := hsrNextMsg_moves e fits s
  unfold srvNextMsg
  split
  · rename_i ran
    rw [ran] at read
    obtain ⟨last,going,halts⟩ := read
    exact ⟨last,going,halts.alerted _⟩
  · rename_i ran
    rw [ran] at read
    exact read
  · rename_i ran
    rw [ran] at read
    exact read

theorem srvDeriveHandshakeSecrets_moves (ch : ClientHello) (sel : Selection) :
    ActMoves e fits (onCore (srvDeriveHandshakeSecrets e ch sel)) := by
  intro s
  unfold onCore Proc.within srvDeriveHandshakeSecrets srvKexSecret
  rcases kexSecret e s.core.h ch sel.group with _ | (_ | ikm)
  · exact ⟨s,.refl,.still rfl⟩
  · exact ⟨s,.refl,.still rfl⟩
  · dsimp only
    split
    · exact Going.quiet rfl
    · exact (Going.installs _ _ sel.suite s).keyed.then_quiet rfl

theorem srvMasterSecrets_moves : ActMoves e fits (onCore (srvMasterSecrets e)) := by
  intro s
  by_cases quic : e.build.quic = true
  · refine Going.quiet ?_
    simp only [St.guarded,St.putCore,quic,if_true]
    rfl
  · have writes : Move e fits s (s.renewWr (recDirInitSuite e (ksMaster e.toCrypto s.t.hashLen
        s.h.handshakeSecret (hsrTranscriptHash e s.core s.t.hashLen)).server s.t.suite)) :=
      .writeKeys
    refine Going.then_quiet (.single writes) ?_
    simp only [St.guarded,St.putCore,quic]
    rfl

variable {e}

theorem Still.moves {α : Type} {act : Act α} (still : Still act) : ActMoves e fits act :=
  actMoves_of_guarded (still.map fun parts => parts.1.kept.guarded parts.2.alertReceived)

theorem srvOutSealedLoop_moves (free : ∀ dir, fits dir) (fuel : Nat) (pt : Bytes) :
    ActMoves e fits (srvOutSealedLoop e fuel pt) := by
  induction fuel generalizing pt with
  | zero => exact moves_pure _
  | succ fuel ih =>
    intro s
    unfold srvOutSealedLoop
    split
    · exact ReflTransGen.refl
    dsimp only
    split
    · exact ⟨s,.refl,.still rfl⟩
    rename_i record wr sealed
    have going : Going e fits s (stageTx record (s.withWr wr)) :=
      Going.then_quiet (.single (.seals (free _) sealed)) rfl
    have sent := (srvOutRecord_still e record).moves.after going
    split
    · rename_i ran
      rw [St.withWr,ran] at sent
      exact sent
    · rename_i ran
      rw [St.withWr,ran] at sent
      exact (ih _).after sent

section Parts

variable {endpoint : Endpoint} {α : Type} {act : Act α}

theorem Part.moves (is : Part e endpoint α act) : ActMoves e fits act := by
  cases is with
  | client => exact hsrNextMsg_moves e fits
  | server => exact srvNextMsg_moves e
  | core steady => exact steady.moves
  | still still => exact still.moves

theorem Exchange.moves (exchange : Exchange e endpoint act) : ActMoves e fits act := by
  induction exchange with
  | one is => exact is.moves
  | bind _ _ head tail => exact head.bind tail

theorem Flight.moves_of_free (flight : Flight e endpoint act)
    (free : endpoint = .server → ∀ dir, fits dir) : ActMoves e fits act := by
  induction flight with
  | bind _ _ head tail => exact head.bind tail
  | one is =>
    cases is with
    | part is => exact is.moves
    | extensions raw =>
      refine actMoves_of_guarded fun s => ?_
      have same := congrArg (fun kept : Tls.Kept => kept.guarded s.rx.alertReceived)
        (onEncryptedExtensions_kept e raw s.core)
      exact same
    | stores ch sel => exact actMoves_of_guarded fun _ => rfl
    | derives ch sel => exact srvDeriveHandshakeSecrets_moves e ch sel
    | seals pt =>
      exact .ite (pushCrypto_still pt).moves (srvOutSealedLoop_moves (free rfl) _ pt)
    | secrets => exact srvMasterSecrets_moves e

theorem Flight.moves (flight : Flight e endpoint act) : ActMoves e Freely act :=
  flight.moves_of_free fun _ _ => trivial

/-- A client seals nothing before its Finished. -/
theorem Flight.client_moves (flight : Flight e .client act) : ActMoves e fits act :=
  flight.moves_of_free nofun

end Parts

variable (e)

theorem sendClientFinished_moves (msg : Bytes) : ActMoves e Freely (sendClientFinished e msg) := by
  intro s
  unfold sendClientFinished
  split
  · exact ⟨s,.refl,.still rfl⟩
  · rename_i sealed
    exact (sendHandshakeRecord_still _).moves.after (.single (.seals trivial sealed))

theorem run_moves (hello : Bytes) : ActMoves e Freely (run e hello) := by
  have connects : ActMoves e Freely (Proc.modify fun s =>
      { s with rx := s.rx.reset, t := { s.t with state := .connected } }) := fun s =>
    Going.then_quiet (.single .connect) rfl
  exact (helloExchange_exchange e hello).moves.bind fun info =>
    hsrCheckRecordEnd_still.moves.bind fun _ =>
      (hsfDeriveHandshakeSecrets_steady e info).moves.bind fun _ =>
        (installHandshakeKeys_moves e).bind fun _ => (serverMessages_flight e).moves.bind fun _ =>
          (commitEpoch_steady e).moves.bind fun _ => (hsfComplete_steady e).moves.bind
            fun finished => (sendClientFinished_moves e finished).bind fun _ =>
              (installTrafficKeys_moves e).bind fun _ => connects

theorem srvComplete_moves : ActMoves e fits (srvComplete e) := by
  intro s
  by_cases quic : e.build.quic = true
  · refine Going.then_quiet (.single .connect) ?_
    simp only [St.guarded,Tls.kept,quic,if_true]
    rfl
  · have reads : Move e fits s (s.renewRd (recDirInitSuite e s.t.rdSecret s.t.suite)) := .readKeys
    refine Going.then_quiet ((ReflTransGen.single reads).tail .connect) ?_
    simp only [St.guarded,Tls.kept,quic]
    rfl

theorem srvRun_moves : ActMoves e Freely (srvRun e) :=
  (srvHelloExchange_exchange e).moves.bind fun hellos =>
    .bind (Flight.moves (.one (.stores hellos.1 hellos.2))) fun _ =>
      (srvDeriveHandshakeSecrets_moves e hellos.1 hellos.2).bind fun _ =>
        .bind ((srvProtectedFlight_flight e hellos.2).moves.bind fun _ =>
          (srvReadClientFinished_exchange e).moves.bind fun _ =>
            hsrCheckRecordEnd_still.moves) fun _ =>
          (srvComplete_moves e).bind fun _ => (srvSendNewSessionTicket_flight e).moves

/-! #### Delivered records -/

theorem feedRecord_moves (pt : Bytes) : ActMoves e fits (feedRecord pt) := by
  refine actMoves_of_guarded fun s => ?_
  unfold feedRecord hsrFeed
  dsimp only
  split <;> exact congrArg s.t.kept.guarded (Rx.compact_alert s.rx)

theorem tcpNonblockingTakeRecord_moves (rec : Bytes) :
    ActMoves e fits (tcpNonblockingTakeRecord e rec) := by
  intro s
  unfold tcpNonblockingTakeRecord
  split
  · exact Going.quiet rfl
  split
  · exact ⟨s,.refl,.heard rfl⟩
  split
  · unfold takeProtected
    have opened : Going e fits s (s.withRd (recOpen e s.t.rd rec (rec.length - recHdr)).2) :=
      .single .opens
    split
    · rename_i ran
      rw [ran] at opened
      exact ⟨_,opened,.still rfl⟩
    · rename_i ran
      rw [ran] at opened
      dsimp only
      split
      · exact (feedRecord_moves e _).after opened
      split
      · exact ⟨_,opened,.heard rfl⟩
      · exact ⟨_,opened,.still rfl⟩
  split
  · exact ⟨s,.refl,.still rfl⟩
  · exact feedRecord_moves e _ s

abbrev TcpMoves (fits : RecDir → Prop) {Step α : Type} (proc : Proc (Tcp Step) Rc α) : Prop :=
  ViewMoves e fits Tcp.st proc

variable {e} in
theorem ActMoves.onSt {Step α : Type} {act : Act α} (moves : ActMoves e fits act) :
    TcpMoves e fits (Chapulin.onSt act : Proc (Tcp Step) Rc α) :=
  Moves.within moves (fun _ _ => rfl) fun _ => rfl

theorem tcpMoves_modify {Step : Type} {edit : Tcp Step → Tcp Step}
    (same : ∀ r, (edit r).st.guarded = r.st.guarded) :
    TcpMoves e fits (Proc.modify edit : Proc (Tcp Step) Rc Unit) :=
  moves_modify fun r => .single (.quiet (same r))

theorem tcpMoves_stop {Step α : Type} (rc : Rc) :
    TcpMoves e fits (Proc.stop rc : Proc (Tcp Step) Rc α) := moves_stop fun _ => .still rfl

theorem stageSealed_moves (pt : Bytes) : TcpMoves e Freely (stageSealed e pt) := by
  intro r
  unfold stageSealed
  split
  · exact ActMoves.onSt (stopAlert_moves _ _) r
  · rename_i sealed
    have seals : Move e Freely r.st (r.st.withWr _) := .seals trivial sealed
    exact (ReflTransGen.single (b := { r with st := r.st.withWr _ }) seals).tail (.quiet rfl)

theorem stepServerHello_moves : TcpMoves e fits (stepServerHello e) := by
  refine (hsfReadServerHello_exchange e).moves.onSt.bind fun info => .ite ?_ ?_
  · refine moves_get.bind fun r => .ite (stopAlert_moves _ _).onSt ?_
    refine (hsfBuildClientHello_steady e).moves.onSt.bind fun hello => ?_
    cases hello with
    | none => exact tcpMoves_stop e _
    | some hello =>
      exact .bind (tcpMoves_modify e fun _ => rfl) fun _ => tcpMoves_modify e fun _ => rfl
  · exact (hsfAcceptServerHello_steady e info).moves.onSt.bind fun _ =>
      hsrCheckRecordEnd_still.moves.onSt.bind fun _ =>
        (hsfDeriveHandshakeSecrets_steady e info).moves.onSt.bind fun _ =>
          (installHandshakeKeys_moves e).onSt.bind fun _ => tcpMoves_modify e fun _ => rfl

theorem stepFinished_moves : TcpMoves e Freely (stepFinished e) :=
  (hsfReadFinished_exchange e).moves.onSt.bind fun _ =>
    hsrCheckRecordEnd_still.moves.onSt.bind fun _ =>
    (commitEpoch_steady e).moves.onSt.bind fun _ => (hsfComplete_steady e).moves.onSt.bind
      fun finished => (stageSealed_moves e finished).bind fun _ =>
        (installTrafficKeys_moves e).onSt.bind fun _ =>
          .bind (tcpMoves_modify e fun _ => rfl) fun _ => tcpMoves_modify e fun _ => rfl

theorem setStep_moves (step : ClientStep) : TcpMoves e fits (setStep step) :=
  tcpMoves_modify e fun _ => rfl

theorem stepEncryptedExtensions_moves : TcpMoves e fits (stepEncryptedExtensions e) :=
  (hsfReadEncryptedExtensions_flight e).client_moves.onSt.bind fun _ => moves_get.bind fun _ =>
    setStep_moves e _

theorem stepCertificate_moves : TcpMoves e fits (stepCertificate e) :=
  (hsaServerAuth_exchange e).moves.onSt.bind fun _ => setStep_moves e _

theorem stepCertificateVerify_moves : TcpMoves e fits (stepCertificateVerify e) :=
  (hsaReadCertificateVerify_exchange e).moves.onSt.bind fun _ => setStep_moves e _

theorem tcpNonblockingAdvance_moves : TcpMoves e Freely (tcpNonblockingAdvance e) := by
  intro r
  unfold tcpNonblockingAdvance
  cases r.step with
  | awaitServerHello => exact stepServerHello_moves e r
  | awaitRetryHello => exact stepServerHello_moves e r
  | awaitEncryptedExtensions => exact stepEncryptedExtensions_moves e r
  | awaitCertificate => exact stepCertificate_moves e r
  | awaitCertificateVerify => exact stepCertificateVerify_moves e r
  | awaitFinished => exact stepFinished_moves e r
  | complete => exact ActMoves.onSt (stopAlert_moves _ _) r

theorem srvTcpAdvance_moves : TcpMoves e Freely (srvTcpAdvance e) := by
  intro r
  unfold srvTcpAdvance
  have sets (step : ServerStep) : TcpMoves e Freely (setSrvStep step) :=
    tcpMoves_modify e fun _ => rfl
  have first : TcpMoves e Freely (stepClientHello e) :=
    (srvReadClientHello_exchange e).moves.onSt.bind fun ch =>
      (srvSelect_steady e ch).moves.onSt.bind
      fun sel => .ite
        ((srvSendHelloRetryRequest_exchange e ch sel).moves.onSt.bind fun _ =>
          (srvSendCompatCcs_exchange e ch).moves.onSt.bind fun _ => sets _)
        ((serverFlight_flight e ch sel).moves.onSt.bind fun _ => sets _)
  have second : TcpMoves e Freely (stepRetryHello e) :=
    (srvReadClientHello_exchange e).moves.onSt.bind fun ch =>
      (srvCheckRetryHello_steady e ch .zero).moves.onSt.bind fun sel =>
        (serverFlight_flight e ch sel).moves.onSt.bind fun _ => sets _
  have finished : TcpMoves e Freely (stepClientFinished e) :=
    (srvReadClientFinished_exchange e).moves.onSt.bind fun _ =>
      hsrCheckRecordEnd_still.moves.onSt.bind
      fun _ => (srvComplete_moves e).onSt.bind fun _ => (sets _).bind fun _ =>
        (srvSendNewSessionTicket_flight e).moves.onSt.bind fun _ => tcpMoves_modify e fun _ => rfl
  cases r.step with
  | awaitClientHello => exact first r
  | awaitRetryHello => exact second r
  | awaitClientFinished => exact finished r
  | complete => exact ActMoves.onSt (stopAlert_moves _ _) r

end Handshaking

end Chapulin
