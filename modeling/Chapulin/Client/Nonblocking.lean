/-
The tcp-nonblocking client (`tcp_nonblocking.c`, `tcp_nonblocking_step.c`).
-/

import Chapulin.Exchange
import Chapulin.Nonblocking

namespace Chapulin

open Lib Proc

inductive ClientStep where
  | awaitServerHello | awaitRetryHello | awaitEncryptedExtensions | awaitCertificate
  | awaitCertificateVerify | awaitFinished | complete
  deriving DecidableEq, Repr

abbrev ClientTcp := Tcp ClientStep

section NonblockingClient

variable (e : Env)

def stage (rec : Bytes) (r : ClientTcp) : ClientTcp :=
  { r with
    st := { r.st with io := { r.st.io with tx := copyAt r.st.io.tx 0 rec } }
    txLen := rec.length
    txOff := 0 }

def tcpNonblockingStagePlain (msg : Bytes) (r : ClientTcp) : ClientTcp :=
  stage (recordHeader recHandshake msg.length ++ msg) r

def stageSealed (pt : Bytes) : Proc ClientTcp Rc Unit := fun r =>
  match recSeal e r.st.t.wr recHandshake pt (txCap e.build) with
  | none => onSt (stopAlert Alert.internalError .ecap) r
  | some (rec, wr) =>
    (.ok (), stage rec { r with st := { r.st with t := { r.st.t with wr := wr } } })

def setStep (step : ClientStep) : Proc ClientTcp Rc Unit :=
  Proc.modify fun r => { r with step := step }

/-- The retry half of `step_server_hello`. -/
def stepRetry : Proc ClientTcp Rc Unit := do
  let r ← Proc.get
  if r.step = .awaitRetryHello then onSt (stopAlert Alert.unexpectedMessage .eproto)
  else
    match ← onSt (onCore (hsfBuildClientHello e)) with
    | none => Proc.stop .ecap
    | some hello =>
      Proc.modify (tcpNonblockingStagePlain hello)
      setStep .awaitRetryHello

def stepServerHello : Proc ClientTcp Rc Unit := do
  let info ← onSt (hsfReadServerHello e)
  if info.hrr then stepRetry e
  else
    onSt (onCore (hsfAcceptServerHello e info))
    onSt hsrCheckRecordEnd
    onSt (onCore (hsfDeriveHandshakeSecrets e info))
    onSt (onCore (installHandshakeKeys e))
    setStep .awaitEncryptedExtensions

def stepEncryptedExtensions : Proc ClientTcp Rc Unit := do
  onSt (hsfReadEncryptedExtensions e)
  let r ← Proc.get
  setStep (if r.st.t.pskSelected then .awaitFinished else .awaitCertificate)

def stepCertificate : Proc ClientTcp Rc Unit := do
  onSt (hsaServerAuth e)
  setStep .awaitCertificateVerify

def stepCertificateVerify : Proc ClientTcp Rc Unit := do
  onSt (hsaReadCertificateVerify e)
  setStep .awaitFinished

def stepFinished : Proc ClientTcp Rc Unit := do
  onSt (hsfReadFinished e)
  onSt hsrCheckRecordEnd
  onSt (onCore (commitEpoch e))
  let finished ← onSt (onCore (hsfComplete e))
  stageSealed e finished
  onSt (onCore (installTrafficKeys e))
  Proc.modify fun r => { r with st := wipeHs { r.st with rx := r.st.rx.reset } }
  setStep .complete

def tcpNonblockingAdvance : Proc ClientTcp Rc Unit := fun r =>
  match r.step with
  | .awaitServerHello | .awaitRetryHello => stepServerHello e r
  | .awaitEncryptedExtensions => stepEncryptedExtensions e r
  | .awaitCertificate => stepCertificate e r
  | .awaitCertificateVerify => stepCertificateVerify e r
  | .awaitFinished => stepFinished e r
  | .complete => onSt (stopAlert Alert.unexpectedMessage .eproto) r

def clientTcpFail (r : ClientTcp) : ClientTcp :=
  let (rec, r) := tcpNonblockingFail e r
  stage rec r

def clientDriver : TcpDriver ClientStep where
  advance := tcpNonblockingAdvance e
  fail := clientTcpFail e
  driveDone := fun r => r.txLen != 0
  inDone := fun r => r.txLen != 0

/-- `tcp_in`: the result and how many bytes were consumed. -/
def tcpIn (p : Bytes) (r : ClientTcp) : (Except Rc Unit × Nat) × ClientTcp :=
  if tcpNonblockingSessionDead r then ((.error .eproto, 0), r)
  else if r.txLen ≠ 0 then ((.error .einval, 0), r)
  else (clientDriver e).inLoop e (p.length + 1) p 0 r

def tcpOut (cap : Nat) : Proc ClientTcp Rc Bytes := fun r =>
  if tcpNonblockingSessionDead r && r.txLen == 0 then (.error .einval, r)
  else if cap = 0 then (.error .ecap, r)
  else if r.txLen - r.txOff = 0 then (.ok [], r)
  else
    let out := ((r.st.io.tx.take r.txLen).drop r.txOff).take cap
    let txOff := r.txOff + min cap (r.txLen - r.txOff)
    if txOff ≠ r.txLen then (.ok out, { r with txOff := txOff })
    else
      let r := { r with txLen := 0, txOff := 0 }
      if r.step = .complete ∧ r.st.t.state = .start then
        (.ok out, { r with st := { r.st with t := { r.st.t with state := .connected } } })
      else (.ok out, r)

def tcpClose {Step : Type} (r : Tcp Step) : Tcp Step :=
  let r := tcpNonblockingWipe r
  { r with st := { r.st with t := { r.st.t with state := .closed } } }

/-- `tcp_nonblocking_refuse_init`: a zeroed session that keeps the epochs. -/
def refusedTls (t : Tls) : Tls :=
  { Tls.fresh .unset with
    epoch := t.epoch
    epochSeen := t.epochSeen
    epochStatus := t.epochStatus
    state := .failed }

def tcpNonblockingRefuseInit (t : Tls) (buf : Bytes) (io : Io) (step : ClientStep) :
    Except Rc Unit × ClientTcp :=
  (.error .einval, { st := blankSt e (refusedTls t) buf io, step := step, txLen := 0, txOff := 0 })

/-- `tcp_init` over a configuration, its buffer and its transport. -/
def tcpInit (cfg : Cfg) (buf : Bytes) (io : Io) : Except Rc Unit × ClientTcp :=
  match tcpClientSetup e cfg with
  | (.error _, t) => tcpNonblockingRefuseInit e t buf io .awaitServerHello
  | (.ok t, _) =>
    match (do hsfBegin e; hsfBuildClientHello e : Handler (Option Bytes))
        (clientStart e (e.build.webpki || e.build.roleServer) t) with
    | (.error rc, c) =>
      (.error rc, { st := (blankSt e t buf io).putCore c, step := .awaitServerHello
                    txLen := 0, txOff := 0 })
    | (.ok none, c) => tcpNonblockingRefuseInit e c.t buf io .awaitServerHello
    | (.ok (some hello), c) =>
      (.ok (), tcpNonblockingStagePlain hello
        { st := (blankSt e t buf io).putCore c, step := .awaitServerHello
          txLen := 0, txOff := 0 })

/-! ### What the steps leave alone -/

theorem stageSealed_settings (pt : Bytes) : Keeps (fun r => r.st.settings) (stageSealed e pt) := by
  intro r
  unfold stageSealed
  split <;> rfl

theorem stepServerHello_settings : Keeps (fun r => r.st.settings) (stepServerHello e) := by
  refine .bind (onSt_settings (hsfReadServerHello_exchange e).fixes) fun info => .ite ?_ ?_
  · refine .bind keeps_get fun r => .ite (fun _ => rfl) ?_
    refine .bind (onSt_settings (onCore_fixes (hsfBuildClientHello_steady e).fixes)) fun hello => ?_
    cases hello with
    | none => exact keeps_stop _
    | some hello =>
      exact .bind (keeps_modify fun _ => rfl) fun _ => keeps_modify fun _ => rfl
  · exact .bind (onSt_settings (onCore_fixes (hsfAcceptServerHello_steady e info).fixes)) fun _ =>
      .bind (onSt_settings hsrCheckRecordEnd_still.fixes) fun _ =>
        .bind (onSt_settings
          (onCore_fixes (hsfDeriveHandshakeSecrets_steady e info).fixes)) fun _ =>
          .bind (onSt_settings (onCore_fixes (installHandshakeKeys_fixes e))) fun _ =>
            keeps_modify fun _ => rfl

theorem stepFinished_settings : Keeps (fun r => r.st.settings) (stepFinished e) :=
  .bind (onSt_settings (hsfReadFinished_exchange e).fixes) fun _ =>
    .bind (onSt_settings hsrCheckRecordEnd_still.fixes) fun _ =>
      .bind (onSt_settings (onCore_fixes (commitEpoch_steady e).fixes)) fun _ =>
        .bind (onSt_settings (onCore_fixes (hsfComplete_steady e).fixes)) fun finished =>
          .bind (stageSealed_settings e finished) fun _ =>
            .bind (onSt_settings (onCore_fixes (installTrafficKeys_fixes e))) fun _ =>
              .bind (keeps_modify fun _ => rfl) fun _ => keeps_modify fun _ => rfl

theorem tcpNonblockingAdvance_settings :
    Keeps (fun r => r.st.settings) (tcpNonblockingAdvance e) := by
  intro r
  unfold tcpNonblockingAdvance
  have extended : Keeps (fun r : ClientTcp => r.st.settings) (stepEncryptedExtensions e) :=
    .bind (onSt_settings (hsfReadEncryptedExtensions_flight e).fixes) fun _ =>
      .bind keeps_get fun _ => keeps_modify fun _ => rfl
  have authenticated : Keeps (fun r : ClientTcp => r.st.settings) (stepCertificate e) :=
    .bind (onSt_settings (hsaServerAuth_exchange e).fixes) fun _ => keeps_modify fun _ => rfl
  have verified : Keeps (fun r : ClientTcp => r.st.settings) (stepCertificateVerify e) :=
    .bind (onSt_settings (hsaReadCertificateVerify_exchange e).fixes) fun _ =>
      keeps_modify fun _ => rfl
  cases r.step with
  | awaitServerHello => exact stepServerHello_settings e r
  | awaitRetryHello => exact stepServerHello_settings e r
  | awaitEncryptedExtensions => exact extended r
  | awaitCertificate => exact authenticated r
  | awaitCertificateVerify => exact verified r
  | awaitFinished => exact stepFinished_settings e r
  | complete => rfl

theorem onSt_stopAlert_returns {Step α : Type} {post : Tcp Step → Prop} (alert : Nat) (rc : Rc) :
    Returns post (onSt (stopAlert alert rc) : Proc (Tcp Step) Rc α) := by
  intro r value next ran
  have result := congrArg Prod.fst ran
  cases result

/-- A session the client's Finished is staged in, with nothing left to read. -/
def Tcp.Finishing (r : ClientTcp) : Prop :=
  r.txLen ≠ 0 ∧ r.st.rx.ptLen = 0 ∧ r.st.h.encrypted = false

theorem stepFinished_returns : Returns Tcp.Finishing (stepFinished e) := by
  refine .bind fun _ => .bind fun _ => .bind fun _ => .bind fun finished => ?_
  have staged : Returns (fun r : ClientTcp => r.txLen ≠ 0) (stageSealed e finished) := by
    intro r value next ran
    unfold stageSealed at ran
    split at ran
    · exact @onSt_stopAlert_returns _ _ (fun r => r.txLen ≠ 0) _ _ r value next ran
    · rename_i rec wr sealed
      cases ran
      change rec.length ≠ 0
      have long := recSeal_length_pos sealed
      omega
  intro r value last ran
  obtain ⟨_,next,first,ran⟩ := bind_eq_ok.mp ran
  have long := staged r _ next first
  cases ran
  exact ⟨long,rfl,rfl⟩

/-- A step that completes the handshake has staged its last record. -/
theorem tcpNonblockingAdvance_returns :
    Returns (fun r => r.step = .complete → Tcp.Finishing r) (tcpNonblockingAdvance e) := by
  have hello : Returns (fun r => r.step ≠ .complete) (stepServerHello e) := by
    refine .bind fun info => .ite ?_ ?_
    · refine .bind fun r => .ite (onSt_stopAlert_returns _ _) (.bind fun hello => ?_)
      cases hello with
      | none => exact returns_stop _
      | some hello => exact .bind fun _ => returns_modify fun _ => nofun
    · exact .bind fun _ => .bind fun _ => .bind fun _ => .bind fun _ =>
        returns_modify fun _ => nofun
  have extended : Returns (fun r => r.step ≠ .complete) (stepEncryptedExtensions e) := by
    refine .bind fun _ => .bind fun r => returns_modify fun _ => ?_
    dsimp only
    split <;> nofun
  have authenticated : Returns (fun r => r.step ≠ .complete) (stepCertificate e) :=
    .bind fun _ => returns_modify fun _ => nofun
  have verified : Returns (fun r => r.step ≠ .complete) (stepCertificateVerify e) :=
    .bind fun _ => returns_modify fun _ => nofun
  have early {step : Proc ClientTcp Rc Unit} (stays : Returns (fun r => r.step ≠ .complete) step) :
      Returns (fun r => r.step = .complete → Tcp.Finishing r) step :=
    fun r value next ran done => absurd done (stays r value next ran)
  intro r
  unfold tcpNonblockingAdvance
  cases r.step with
  | awaitServerHello => exact early hello r
  | awaitRetryHello => exact early hello r
  | awaitEncryptedExtensions => exact early extended r
  | awaitCertificate => exact early authenticated r
  | awaitCertificateVerify => exact early verified r
  | awaitFinished => exact fun value next ran _ => stepFinished_returns e r value next ran
  | complete => exact early (onSt_stopAlert_returns _ _) r

end NonblockingClient

end Chapulin
