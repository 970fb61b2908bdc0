/-
The tcp-nonblocking server (`srv_tcp_nonblocking.c`).
-/

import Chapulin.Client.Nonblocking

namespace Chapulin

open Lib Proc

inductive ServerStep where
  | awaitClientHello | awaitRetryHello | awaitClientFinished | complete
  deriving DecidableEq, Repr

abbrev ServerTcp := Tcp ServerStep

abbrev Endpoint.Step : Endpoint → Type
  | .client => ClientStep
  | .server => ServerStep

section NonblockingServer

variable (e : Env)

def setSrvStep (step : ServerStep) : Proc ServerTcp Rc Unit :=
  Proc.modify fun r => { r with step := step }

def serverFlight (ch : ClientHello) (sel : Selection) : Act Unit := do
  hsrCheckRecordEnd
  srvSendServerHello e ch sel
  srvSendCompatCcs e ch
  onCore (srvStoreSelection e ch sel)
  onCore (srvDeriveHandshakeSecrets e ch sel)
  srvProtectedFlight e sel

def stepClientHello : Proc ServerTcp Rc Unit := do
  let ch ← onSt (srvReadClientHello e)
  let sel ← onSt (onCore (srvSelect e ch))
  if sel.needRetry then
    onSt (srvSendHelloRetryRequest e ch sel)
    onSt (srvSendCompatCcs e ch)
    setSrvStep .awaitRetryHello
  else
    onSt (serverFlight e ch sel)
    setSrvStep .awaitClientFinished

def stepRetryHello : Proc ServerTcp Rc Unit := do
  let ch ← onSt (srvReadClientHello e)
  let sel ← onSt (onCore (srvCheckRetryHello e ch .zero))
  onSt (serverFlight e ch sel)
  setSrvStep .awaitClientFinished

def stepClientFinished : Proc ServerTcp Rc Unit := do
  onSt (srvReadClientFinished e)
  onSt hsrCheckRecordEnd
  onSt (srvComplete e)
  setSrvStep .complete
  onSt (srvSendNewSessionTicket e)
  Proc.modify fun r => { r with st := wipeHs r.st }

def srvTcpAdvance : Proc ServerTcp Rc Unit := fun r =>
  match r.step with
  | .awaitClientHello => stepClientHello e r
  | .awaitRetryHello => stepRetryHello e r
  | .awaitClientFinished => stepClientFinished e r
  | .complete => onSt (stopAlert Alert.unexpectedMessage .eproto) r

/-- `fail`: hands the alert record to the callback. -/
def srvTcpFail (r : ServerTcp) : ServerTcp :=
  let (record, r) := tcpNonblockingFail e r
  if record = [] then r
  else { r with st := { r.st with io := (onRecordOut record r.st.io).2 } }

def serverDriver : TcpDriver ServerStep where
  advance := srvTcpAdvance e
  fail := srvTcpFail e
  driveDone := fun _ => false
  inDone := fun r => r.step == .complete

/-- `srv_tcp_init` over a configuration, its buffer and its transport. -/
def srvTcpInit (cfg : Cfg) (buf : Bytes) (io : Io) : Except Rc Unit × ServerTcp :=
  if !srvConfigOk e cfg then
    (.error .einval, { st := blankSt e (refusedTls (Tls.fresh cfg)) buf io
                       step := .awaitClientHello, txLen := 0, txOff := 0 })
  else
    match srvBegin e (srvStart e cfg) with
    | (result, c) =>
      (result, { st := (blankSt e (Tls.fresh cfg) buf io).putCore c
                 step := .awaitClientHello, txLen := 0, txOff := 0 })

/-- `srv_tcp_in`: the result and how many bytes were consumed. -/
def srvTcpIn (p : Bytes) (r : ServerTcp) : (Except Rc Unit × Nat) × ServerTcp :=
  if tcpNonblockingSessionDead r then ((.error .eproto, 0), r)
  else (serverDriver e).inLoop e (p.length + 1) p 0 r

/-! ### What the steps leave alone -/

theorem serverFlight_flight (ch : ClientHello) (sel : Selection) :
    Flight e .server (serverFlight e ch sel) :=
  hsrCheckRecordEnd_still.exchange.flight.bind fun _ =>
    (srvSendServerHello_exchange e ch sel).flight.bind fun _ =>
      (srvSendCompatCcs_exchange e ch).flight.bind fun _ => .bind (.one (.stores ch sel)) fun _ =>
        .bind (.one (.derives ch sel)) fun _ => srvProtectedFlight_flight e sel

theorem stepClientHello_settings : Keeps (fun r => r.st.settings) (stepClientHello e) := by
  refine .bind (onSt_settings (srvReadClientHello_exchange e).fixes) fun ch =>
    .bind (onSt_settings (onCore_fixes (srvSelect_steady e ch).fixes)) fun sel => .ite ?_ ?_
  · exact .bind (onSt_settings (srvSendHelloRetryRequest_exchange e ch sel).fixes) fun _ =>
      .bind (onSt_settings (srvSendCompatCcs_exchange e ch).fixes) fun _ =>
        keeps_modify fun _ => rfl
  · exact .bind (onSt_settings (serverFlight_flight e ch sel).fixes) fun _ =>
      keeps_modify fun _ => rfl

theorem stepRetryHello_settings : Keeps (fun r => r.st.settings) (stepRetryHello e) :=
  .bind (onSt_settings (srvReadClientHello_exchange e).fixes) fun ch =>
    .bind (onSt_settings (onCore_fixes (srvCheckRetryHello_steady e ch .zero).fixes)) fun sel =>
      .bind (onSt_settings (serverFlight_flight e ch sel).fixes) fun _ => keeps_modify fun _ => rfl

theorem stepClientHello_step : Returns (fun r => r.step ≠ .complete) (stepClientHello e) := by
  refine .bind fun ch => .bind fun sel => .ite ?_ ?_
  · exact .bind fun _ => .bind fun _ => returns_modify fun _ => nofun
  · exact .bind fun _ => returns_modify fun _ => nofun

theorem stepRetryHello_step : Returns (fun r => r.step ≠ .complete) (stepRetryHello e) :=
  .bind fun _ => .bind fun _ => .bind fun _ => returns_modify fun _ => nofun

theorem stepClientFinished_opened : Keeps (fun r => r.st.rx.opened) (stepClientFinished e) :=
  .bind ((onSt_settings (srvReadClientFinished_exchange e).fixes).map Prod.snd) fun _ =>
    .bind ((onSt_settings hsrCheckRecordEnd_still.fixes).map Prod.snd) fun _ =>
      .bind (fun _ => rfl) fun _ => .bind (fun _ => rfl) fun _ =>
        .bind ((onSt_settings (srvSendNewSessionTicket_flight e).fixes).map Prod.snd) fun _ =>
          keeps_modify fun _ => rfl

end NonblockingServer

end Chapulin
