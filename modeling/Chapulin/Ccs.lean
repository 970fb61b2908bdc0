/-
The change_cipher_spec records of a handshake.

The blocking reader skips a record whose body is the single byte 0x01, four
times at most, and refuses every other one; the driver then fails the session
with the alert the reader left.  The history of the receive side says which
records the reader came to, so that the rule is one about it.
-/

import Chapulin.Connected
import Chapulin.Tcp.Run

namespace Chapulin

open Lib Proc Alert List

/-- The record of middlebox compatibility: its body is the single byte 0x01. -/
def DummyCcs (rec : Bytes) : Prop := rec.length = recHdr + 1 ∧ rec.getD recHdr 0 = 1

def CcsEvent.Whole (event : CcsEvent) : Prop := event.bytes.length ≠ recHdr

structure Skips (events : List CcsEvent) : Prop where
  dummy : ∀ event ∈ events, event.skipped = true ∧ DummyCcs event.bytes
  few : events.length ≤ 4

structure Rx.Tolerant (rx : Rx) : Prop where
  skips : Skips rx.ccs
  counted : rx.ccsSeen = rx.ccs.length
  unalerted : rx.alertReceived = 0

structure Refuses (events : List CcsEvent) (event : CcsEvent) : Prop where
  before : Skips events
  kept : event.skipped = false
  wrong : event.Whole → ¬ (DummyCcs event.bytes ∧ events.length < 4)

/-- The alert for a header that `check_body` refused with `rc`: the one it wrote,
or else the one the driver held; a server's is internal_error for every CH_ECAP. -/
def refusedAlert (endpoint : Endpoint) (rc : Rc) (written : Option Nat) (held : Nat) : Nat :=
  if endpoint = .server ∧ rc = .ecap then internalError else written.getD held

/-- The error and the alert that a record that is not skipped ends a session with. -/
inductive CcsEvent.Answered (endpoint : Endpoint) (t : Tls) (event : CcsEvent) : Rc → Nat → Prop
  | read (whole : event.Whole) : Answered endpoint t event .eproto unexpectedMessage
  | header {rc : Rc} {written : Option Nat} (short : ¬ event.Whole)
      (refused : checkBody t.cfg.bufLen event.room t.limitSent recCcs (recordBody event.bytes) =
        .error (rc, written)) :
      Answered endpoint t event rc (refusedAlert endpoint rc written event.held)

/-- How a handshake stops: at a record that is not skipped, with its answer, or at
something else. -/
def CcsStop (endpoint : Endpoint) (rc : Rc) (s : St) : Prop :=
  Skips s.rx.ccs ∨ (s.rx.alertReceived = 0 ∧ ∃ events event, s.rx.ccs = events ++ [event] ∧
    Refuses events event ∧ event.Answered endpoint s.t rc s.h.alert)

abbrev KeepsRule (endpoint : Endpoint) {α : Type} (act : Act α) : Prop :=
  Triple (fun s => s.rx.Tolerant) act (fun _ s => s.rx.Tolerant) (CcsStop endpoint)

section Rules

variable {α β : Type} {endpoint : Endpoint}

theorem Rx.Tolerant.stop {rc : Rc} {s : St} (tolerant : s.rx.Tolerant) : CcsStop endpoint rc s :=
  .inl tolerant.skips

theorem keepsRule_of_rx {act : Act α} (kept : Keeps St.rx act) : KeepsRule endpoint act := by
  refine kept.triple fun s next tolerant same => ?_
  have still : next.rx.Tolerant := same ▸ tolerant
  exact ⟨fun _ => still,fun _ => still.stop⟩

theorem keepsRule_onCore (handler : Handler α) : KeepsRule endpoint (onCore handler) :=
  keepsRule_of_rx (onCore_rx handler)

theorem keepsRule_pure (value : α) : KeepsRule endpoint (pure value : Act α) :=
  fun _ tolerant => tolerant

end Rules

/-! ### The blocking reader -/

section Reader

variable (e : Env)

theorem Skips.snoc {events : List CcsEvent} {event : CcsEvent} (skips : Skips events)
    (skipped : event.skipped = true) (dummy : DummyCcs event.bytes) (few : events.length < 4) :
    Skips (events ++ [event]) := by
  refine ⟨forall_mem_append.mpr ⟨skips.dummy,forall_mem_singleton.mpr ⟨skipped,dummy⟩⟩,?_⟩
  rw [length_append,length_singleton]
  omega

/-- A record the check skips is counted; one it refuses is the last event. -/
theorem ccsTolerable_rule (rec : Bytes) (room held : Nat) {rx : Rx} (tolerant : rx.Tolerant) :
    ((ccsTolerable rec rx).1 = true →
        ((ccsTolerable rec rx).2.noteCcs rec true room held).Tolerant) ∧
      ((ccsTolerable rec rx).1 = false →
        ((ccsTolerable rec rx).2.noteCcs rec false room held).alertReceived = 0 ∧
        ((ccsTolerable rec rx).2.noteCcs rec false room held).ccs =
          rx.ccs ++ [⟨rec,false,room,held⟩] ∧
        Refuses rx.ccs ⟨rec,false,room,held⟩) := by
  unfold ccsTolerable
  split
  · rename_i shape
    refine ⟨nofun,fun _ => ⟨tolerant.unalerted,rfl,tolerant.skips,rfl,?_⟩⟩
    rintro _ ⟨⟨length,byte⟩,_⟩
    exact shape.elim (fun other => other length) fun other => other byte
  · rename_i shape
    have dummy : rec.length = recHdr + 1 ∧ rec.getD recHdr 0 = 1 := by
      rw [not_or,Classical.not_not,Classical.not_not] at shape
      exact shape
    have counted := tolerant.counted
    constructor
    · intro few
      have room : rx.ccsSeen + 1 ≤ 4 := of_decide_eq_true few
      refine ⟨tolerant.skips.snoc rfl dummy (by omega),?_,tolerant.unalerted⟩
      change rx.ccsSeen + 1 = (rx.ccs ++ [_]).length
      rw [length_append,length_singleton,counted]
    · intro many
      have full : ¬ rx.ccsSeen + 1 ≤ 4 := of_decide_eq_false many
      refine ⟨tolerant.unalerted,rfl,tolerant.skips,rfl,?_⟩
      rintro _ ⟨_,few⟩
      omega

def Rx.rule (rx : Rx) : List CcsEvent × Nat × Nat := (rx.ccs, rx.ccsSeen, rx.alertReceived)

theorem Rx.Tolerant.of_rule {rx next : Rx} (tolerant : rx.Tolerant) (same : next.rule = rx.rule) :
    next.Tolerant := by
  simp only [Rx.rule,Prod.mk.injEq] at same
  obtain ⟨ccs,seen,alert⟩ := same
  exact ⟨ccs ▸ tolerant.skips,by rw [seen,ccs,tolerant.counted],alert.trans tolerant.unalerted⟩

theorem acceptRecord_rule (rec : Bytes) : KeepsRule .client (acceptRecord e rec) := by
  intro s tolerant
  unfold acceptRecord
  split
  · split
    · exact tolerant.stop
    · exact tolerant.of_rule rfl
  split
  · exact tolerant.stop
  split
  · exact .inl tolerant.skips
  · dsimp only
    split
    · exact .inl tolerant.skips
    split
    · exact .inl tolerant.skips
    · exact tolerant.of_rule rfl

theorem takeQuietly_rule (rec : Bytes) : KeepsRule .client (takeQuietly e rec) := by
  intro s tolerant
  have accepted := acceptRecord_rule e rec s tolerant
  unfold takeQuietly
  rcases ran : acceptRecord e rec s with ⟨rc | _,next⟩
  · rw [ran] at accepted
    exact accepted
  rw [ran] at accepted
  have still : next.rx.Tolerant := accepted
  dsimp only
  split
  · exact still
  split
  · exact .inl still.skips
  · exact still.of_rule rfl

theorem dispatchRecord_rule {rec : Bytes} (whole : rec.length ≠ recHdr) :
    KeepsRule .client (dispatchRecord e rec) := by
  intro s tolerant
  unfold dispatchRecord
  split
  · obtain ⟨skips,refuses⟩ :=
      ccsTolerable_rule rec (s.t.cfg.bufLen - s.rx.ptLen) s.h.alert tolerant
    dsimp only
    rcases verdict : (ccsTolerable rec s.rx).1 with _ | _
    · rw [if_neg Bool.false_ne_true]
      obtain ⟨unalerted,ccs,refused⟩ := refuses verdict
      exact .inr ⟨unalerted,s.rx.ccs,_,ccs,refused,.read whole⟩
    · rw [if_pos rfl]
      exact skips verdict
  split
  · exact .inl tolerant.skips
  have taken := takeQuietly_rule e rec s tolerant
  rcases ran : takeQuietly e rec s with ⟨rc | _,next⟩ <;>
    · rw [ran] at taken
      exact taken

/-- A record fetched keeps the count of dummies within its rule. -/
theorem fetchOne_rule : Triple (fun s => s.rx.Tolerant) fetchOne
    (fun rec s => s.rx.Tolerant ∧ rec.length ≠ recHdr) (CcsStop .client) := by
  intro s tolerant
  unfold fetchOne
  split
  · rename_i stop io ran
    cases header : stop.refused with
    | none => exact .inl tolerant.skips
    | some bytes =>
      obtain ⟨length,refused⟩ := ioReadRecord_refused ran bytes header
      dsimp only [Rx.noteRefused]
      split
      · rename_i ccs
        have short : ∀ room held, ¬ CcsEvent.Whole ⟨bytes,false,room,held⟩ :=
          fun _ _ whole => whole length
        refine .inr ⟨tolerant.unalerted,s.rx.ccs,_,rfl,
          ⟨tolerant.skips,rfl,fun whole => absurd whole (short _ _)⟩,?_⟩
        rw [ccs] at refused
        exact .header (short _ _) refused
      · exact .inl tolerant.skips
  · rename_i ran
    exact ⟨tolerant.of_rule rfl,ioReadRecord_whole ran⟩

theorem fetchLoop_rule (fuel : Nat) : KeepsRule .client (fetchLoop e fuel) := by
  induction fuel with
  | zero => exact fun _ tolerant => tolerant.stop
  | succ fuel ih =>
    exact fetchOne_rule.bind fun rec => .given fun whole => (dispatchRecord_rule e whole).bind
      fun again => .ite ih (keepsRule_pure ())

theorem hsrFetchRecord_rule : KeepsRule .client (hsrFetchRecord e) := by
  intro s tolerant
  refine fetchLoop_rule e _ _ (tolerant.of_rule ?_)
  change s.rx.compact.rule = s.rx.rule
  unfold Rx.compact
  split <;> rfl

theorem nextMsgLoop_rule (fuel : Nat) : KeepsRule .client (nextMsgLoop e fuel) := by
  induction fuel with
  | zero => exact fun _ tolerant => tolerant.stop
  | succ fuel ih =>
    intro s tolerant
    unfold nextMsgLoop
    split
    · exact tolerant.stop
    · exact tolerant.of_rule rfl
    have fetched := hsrFetchRecord_rule e s tolerant
    rcases ran : hsrFetchRecord e s with ⟨rc | _,next⟩
    · rw [ran] at fetched
      exact fetched
    · rw [ran] at fetched
      exact ih next fetched

theorem nextFed_rule : KeepsRule .client nextFed := by
  intro s tolerant
  unfold nextFed
  split
  · exact .inl tolerant.skips
  · exact tolerant.stop
  · exact tolerant.of_rule rfl

theorem hsrNextMsg_rule : KeepsRule .client (hsrNextMsg e) :=
  Triple.ite (fun s tolerant => nextMsgLoop_rule e _ s tolerant) nextFed_rule

end Reader

/-! ### The blocking drivers -/

section Drivers

variable (e : Env) {endpoint : Endpoint}

theorem sendClientFinished_rx (msg : Bytes) : Keeps St.rx (sendClientFinished e msg) := by
  intro s
  unfold sendClientFinished
  split
  · rfl
  · exact congrArg Prod.snd (sendHandshakeRecord_still _ _)

theorem CcsEvent.Answered.server_ecap {t : Tls} {event : CcsEvent} {alert : Nat}
    (answered : event.Answered .client t .ecap alert) :
    event.Answered .server t .ecap internalError := by
  cases answered with
  | header short refused => exact .header short refused

theorem CcsEvent.Answered.server {t : Tls} {event : CcsEvent} {rc : Rc} {alert : Nat}
    (answered : event.Answered .client t rc alert) (other : rc ≠ .ecap) :
    event.Answered .server t rc alert := by
  cases answered with
  | read whole => exact .read whole
  | @header _ written short refused =>
    have same : refusedAlert .client rc written event.held =
        refusedAlert .server rc written event.held := by simp [refusedAlert,other]
    rw [same]
    exact .header short refused

theorem srvNextMsg_rule : KeepsRule .server (srvNextMsg e) := by
  intro s tolerant
  have read := hsrNextMsg_rule e s tolerant
  unfold srvNextMsg
  split
  · rename_i next ran
    rw [ran] at read
    rcases read with skips | ⟨unalerted,events,event,ccs,refuses,answered⟩
    · exact .inl skips
    · exact .inr ⟨unalerted,events,event,ccs,refuses,answered.server_ecap⟩
  · rename_i rc next other ran
    rw [ran] at read
    rcases read with skips | ⟨unalerted,events,event,ccs,refuses,answered⟩
    · exact .inl skips
    · exact .inr ⟨unalerted,events,event,ccs,refuses,answered.server other⟩
  · rename_i ran
    rw [ran] at read
    exact read

section Parts

variable {e} {α : Type} {act : Act α}

theorem Still.rule (still : Still act) : KeepsRule endpoint act :=
  keepsRule_of_rx (still.map Prod.snd)

theorem Part.rule (is : Part e endpoint α act) : KeepsRule endpoint act := by
  cases is with
  | client => exact hsrNextMsg_rule e
  | server => exact srvNextMsg_rule e
  | core steady => exact keepsRule_onCore _
  | still still => exact still.rule

theorem Flight.rule (flight : Flight e endpoint act) : KeepsRule endpoint act := by
  induction flight with
  | bind _ _ head tail => exact head.bind tail
  | one is =>
    cases is with
    | part is => exact is.rule
    | seals pt => exact keepsRule_of_rx ((srvOutSealed_unsent e pt).map fun parts => parts.2.2)
    | _ => exact keepsRule_onCore _

theorem Exchange.rule (exchange : Exchange e endpoint act) : KeepsRule endpoint act :=
  exchange.flight.rule

end Parts

theorem run_rule (hello : Bytes) : KeepsRule .client (run e hello) :=
  (helloExchange_exchange e hello).rule.bind fun _ => hsrCheckRecordEnd_still.rule.bind
    fun _ => (keepsRule_onCore _).bind fun _ => (keepsRule_onCore _).bind fun _ =>
      (serverMessages_flight e).rule.bind fun _ => (keepsRule_onCore _).bind fun _ =>
        (keepsRule_onCore _).bind fun finished =>
          (keepsRule_of_rx (sendClientFinished_rx e finished)).bind fun _ =>
            (keepsRule_onCore _).bind fun _ => fun _ tolerant => tolerant.of_rule rfl

theorem srvRun_rule : KeepsRule .server (srvRun e) := by
  have complete : KeepsRule .server (srvComplete e) := fun _ tolerant => tolerant.of_rule rfl
  refine (srvHelloExchange_exchange e).rule.bind ?_
  rintro ⟨ch,sel⟩
  exact (keepsRule_onCore _).bind fun _ => (keepsRule_onCore _).bind fun _ =>
    .bind ((srvProtectedFlight_flight e sel).rule.bind fun _ =>
      (srvReadClientFinished_exchange e).rule.bind fun _ => hsrCheckRecordEnd_still.rule)
      fun _ => complete.bind fun _ => (srvSendNewSessionTicket_flight e).rule

end Drivers

/-! ### Whole handshakes -/

/-- A blocking handshake of either side, however it ended, and the session it left. -/
inductive BlockingHandshake (e : Env) : Endpoint → St → Prop
  | client {cfg : Cfg} {buf : Bytes} {io : Io} {result : Except Rc Unit} {s : St}
      (ran : tlsConnect e cfg buf io = (result, s)) : BlockingHandshake e .client s
  | server {cfg : Cfg} {buf : Bytes} {io : Io} {result : Except Rc Unit} {s : St}
      (ran : srvAccept e cfg buf io = (result, s)) : BlockingHandshake e .server s

/-- Every change_cipher_spec record was one to skip, four at most, or the last
one was not and ended the session: with unexpected_message when it was read, and
with what the length check left when its header was refused. -/
def CcsRule (endpoint : Endpoint) (s : St) : Prop :=
  Skips s.rx.ccs ∨ ∃ events event rc, s.rx.ccs = events ++ [event] ∧ Refuses events event ∧
    s.t.state = .failed ∧ event.Answered endpoint s.t rc s.t.alertSent

section Handshakes

variable {e : Env} {endpoint : Endpoint}

def Tls.answer (t : Tls) : Cfg × Bool × Nat := (t.cfg, t.limitSent, t.alertSent)

theorem tlsiSendAlert_answer (level description : Nat) :
    Keeps (fun s : St => s.t.answer) (tlsiSendAlert e level description) := by
  intro s
  unfold tlsiSendAlert
  split
  · split <;> rfl
  · split <;> rfl

theorem failWith_answer {description : Nat} {rc : Rc} {s : St}
    (unalerted : s.rx.alertReceived = 0) :
    (failWith e description rc s : Except Rc Unit × St).2.t.answer =
      (s.t.cfg, s.t.limitSent, description) := by
  simp only [failWith,tlsiFail,unalerted,if_true]
  exact tlsiSendAlert_answer 2 description _

theorem CcsEvent.Answered.of_answer {t next : Tls} {event : CcsEvent} {rc : Rc} {alert : Nat}
    (answered : event.Answered endpoint t rc alert)
    (same : next.answer = (t.cfg, t.limitSent, alert)) :
    event.Answered endpoint next rc next.alertSent := by
  simp only [Tls.answer,Prod.mk.injEq] at same
  obtain ⟨cfg,limit,sent⟩ := same
  rw [sent]
  cases answered with
  | read whole => exact .read whole
  | header short refused => exact .header short (by rw [cfg,limit,refused])

theorem failWith_ccs (description : Nat) (rc : Rc) (s : St) :
    (failWith e description rc s : Except Rc Unit × St).2.rx.ccs = s.rx.ccs := by
  simp only [failWith,tlsiFail,tlsiWipe,Rx.reset]
  split
  · exact congrArg Rx.ccs (tlsiSendAlert_rx e 2 _ _)
  · rfl

theorem ccsRule_of_stop {rc : Rc} {s : St} (stopped : CcsStop endpoint rc s) :
    CcsRule endpoint (failWith e s.h.alert rc { s with h := .wiped } : Except Rc Unit × St).2 := by
  rcases stopped with skips | ⟨unalerted,events,event,ccs,refuses,answered⟩
  · left
    rw [failWith_ccs]
    exact skips
  · have same := @failWith_answer e s.h.alert rc { s with h := .wiped } unalerted
    exact .inr ⟨events,event,rc,(failWith_ccs _ _ _).trans ccs,refuses,rfl,answered.of_answer same⟩

theorem CcsEvent.Answered.coded {t : Tls} {event : CcsEvent} {rc : Rc} {alert : Nat}
    (answered : event.Answered endpoint t rc alert) : rc ≠ .assertFail := by
  cases answered with
  | read _ => exact Rc.noConfusion
  | header _ refused => exact checkBody_stop refused

theorem ccsRule_of_assert {s : St} (stopped : CcsStop endpoint .assertFail s) :
    CcsRule endpoint s := by
  rcases stopped with skips | ⟨_,_,_,_,_,answered⟩
  · exact .inl skips
  · exact absurd rfl answered.coded

theorem Rx.tolerant_fresh (buf : Bytes) : (Rx.fresh buf).Tolerant :=
  ⟨⟨nofun,Nat.zero_le 4⟩,rfl,rfl⟩

theorem chHandshake_rule {first last : St} {result : Except Rc Unit} (start : first.rx.Tolerant)
    (ran : chHandshake e first = (result, last)) : CcsRule .client last := by
  unfold chHandshake at ran
  split at ran
  · rename_i began
    cases ran
    have same := (onCore_rx _).of_eq began
    exact .inl (same ▸ start.skips)
  · rename_i began
    cases ran
    have same := (onCore_rx _).of_eq began
    exact .inl (same ▸ start.skips)
  · rename_i hello next began
    have same := (onCore_rx _).of_eq began
    have there : next.rx.Tolerant := same ▸ start
    have ends := run_rule e hello next there
    split at ran
    · rename_i went
      rw [went] at ends
      cases ran
      exact .inl (show Rx.Tolerant _ from ends).skips
    · rename_i went
      rw [went] at ends
      cases ran
      exact ccsRule_of_assert ends
    · rename_i went
      rw [went] at ends
      cases ran
      exact ccsRule_of_stop ends

theorem srvHandshake_rule {first last : St} {result : Except Rc Unit} (start : first.rx.Tolerant)
    (ran : srvHandshake e first = (result, last)) : CcsRule .server last := by
  have ends := srvRun_rule e first start
  unfold srvHandshake at ran
  split at ran
  · rename_i went
    rw [went] at ends
    cases ran
    exact .inl (show Rx.Tolerant _ from ends).skips
  · rename_i went
    rw [went] at ends
    cases ran
    exact ccsRule_of_assert ends
  · rename_i went
    rw [went] at ends
    cases ran
    exact ccsRule_of_stop ends

theorem blockingHandshake_rule {s : St} (session : BlockingHandshake e endpoint s) :
    CcsRule endpoint s := by
  cases session with
  | @client cfg buf io result s ran =>
    unfold tlsConnect at ran
    split at ran
    · cases ran
      exact .inl (Rx.tolerant_fresh buf).skips
    · exact chHandshake_rule (Rx.tolerant_fresh buf) ran
  | @server cfg buf io result s ran =>
    unfold srvAccept at ran
    split at ran
    · cases ran
      exact .inl (Rx.tolerant_fresh buf).skips
    · exact srvHandshake_rule (Rx.tolerant_fresh buf) ran

/-- What a skipped record leaves as it was: the session, with its transcript,
and the handshake bytes that stand in the window. -/
def SkippedQuietly (s next : St) : Prop :=
  next.t = s.t ∧ next.h = s.h ∧ next.rx.window = s.rx.window

theorem ccsTolerable_window (rec : Bytes) (rx : Rx) :
    (ccsTolerable rec rx).2.window = rx.window := by
  unfold ccsTolerable
  split <;> rfl

theorem dispatchRecord_skips {rec : Bytes} {s next : St} {again : Bool}
    (ccs : recordType rec = recCcs) (ran : dispatchRecord e rec s = (.ok again, next)) :
    SkippedQuietly s next := by
  have window := ccsTolerable_window rec s.rx
  rw [dispatchRecord,if_pos ccs] at ran
  rcases counted : ccsTolerable rec s.rx with ⟨tolerable,rx⟩
  rw [counted] at ran window
  cases tolerable with
  | false => cases ran
  | true =>
    cases ran
    exact ⟨rfl,rfl,window⟩

/-- The change_cipher_spec rule of the TCP drivers.  Over whole blocking
handshakes of both sides: a record that was read is skipped exactly when its body
is the single byte 0x01 and fewer than four were skipped before it, any other ends
the session with unexpected_message, and a header that the length check refuses
ends it with what that check left.  The nonblocking drivers skip such a record too, and in each
driver a skipped record changes neither the transcript nor the window. -/
theorem ccs_rule (e : Env) :
    (∀ endpoint s, BlockingHandshake e endpoint s → CcsRule endpoint s) ∧
      (∀ rec s, recordType rec = recCcs →
        (∀ again next, dispatchRecord e rec s = (.ok again, next) → SkippedQuietly s next) ∧
        (∀ next, tcpNonblockingTakeRecord e rec s = (.ok (), next) → SkippedQuietly s next) ∧
        (DummyCcs rec → s.rx.ccs.length < 4 →
          (tcpNonblockingTakeRecord e rec s).1 = .ok ())) := by
  refine ⟨fun endpoint s session => blockingHandshake_rule session,fun rec s ccs => ⟨?_,?_,?_⟩⟩
  · intro again next ran
    exact dispatchRecord_skips ccs ran
  · intro next ran
    rw [tcpNonblockingTakeRecord,if_pos ccs] at ran
    cases ran
    exact ⟨rfl,rfl,rfl⟩
  · intro _ _
    rw [tcpNonblockingTakeRecord,if_pos ccs]

/-- A blocking server that is sent a change_cipher_spec before each message
behind the first hello. -/
def sampleCompatAccept : Except Rc Unit × St :=
  srvAccept (sampleServerEnv .tcpBlocking) sampleServerCfg (zeros 1024)
    { sampleServerIo with inbox :=
      (sampleRetryRecords [1]).intersperse [byte recCcs,3,3,0,1,1] }

theorem ccs_rule_sample : ∃ s, BlockingHandshake (sampleServerEnv .tcpBlocking) .server s ∧
    s.t.state = .connected ∧ CcsRule .server s ∧
    s.rx.ccs.map (fun event => (event.bytes, event.skipped)) =
      [([20,3,3,0,1,1], true),([20,3,3,0,1,1], true)] ∧
    SkippedQuietly s
      { s with rx := s.rx.noteCcs [20,3,3,0,1,1] true s.t.cfg.bufLen s.h.alert } := by
  have ran : sampleCompatAccept = (.ok (), sampleCompatAccept.2) :=
    eq_ok_of_toBool (by decide +kernel)
  have session : BlockingHandshake (sampleServerEnv .tcpBlocking) .server sampleCompatAccept.2 :=
    .server ran
  have facts : decide (sampleCompatAccept.2.t.state = .connected ∧
      sampleCompatAccept.2.rx.ccs.map (fun event => (event.bytes, event.skipped)) =
        [([20,3,3,0,1,1], true),([20,3,3,0,1,1], true)]) = true := by decide +kernel
  have facts := of_decide_eq_true facts
  generalize sampleCompatAccept.2 = s at session facts
  obtain ⟨rules,skips⟩ := ccs_rule (sampleServerEnv .tcpBlocking)
  exact ⟨s,session,facts.1,rules .server s session,facts.2,
    (skips [20,3,3,0,1,1] s (by decide)).2.1 _ rfl⟩

/-- A change_cipher_spec whose declared length is over the limit of a record
ends the session with record_overflow. -/
theorem ccs_overflow_alert :
    let s := (srvAccept (sampleServerEnv .tcpBlocking) sampleServerCfg (zeros 1024)
      { sampleServerIo with inbox := [[byte recCcs,3,3,0x40,0x01]] }).2
    s.rx.ccs.map (fun event => (event.bytes, event.skipped)) =
        [([byte recCcs,3,3,0x40,0x01], false)] ∧
      s.t.state = .failed ∧ s.t.alertSent = recordOverflow ∧
      s.t.alertSent ≠ unexpectedMessage := by
  decide +kernel

end Handshakes

end Chapulin
