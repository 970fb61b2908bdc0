/-
What the functions of a handshake are made of.

They read messages, hand them to handlers and send what the handlers built, and
a few of them seal records or install keys.  Each function is taken apart here
once; what holds of the parts and of a sequence then holds of all of them.
-/

import Chapulin.Client.Blocking
import Chapulin.Server.Blocking

namespace Chapulin

open Lib Proc

/-- An action that leaves the session and what was read alone. -/
abbrev Still {α : Type} (act : Act α) : Prop := Keeps (fun s => (s.t, s.rx)) act

/-- The parts of what is exchanged in the clear, by the side that reads. -/
inductive Part (e : Env) : Endpoint → (α : Type) → Act α → Prop
  | client : Part e .client _ (hsrNextMsg e)
  | server : Part e .server _ (srvNextMsg e)
  | core {endpoint : Endpoint} {α : Type} {handler : Handler α} (steady : Steady handler) :
      Part e endpoint α (onCore handler)
  | still {endpoint : Endpoint} {α : Type} {act : Act α} (still : Still act) : Part e endpoint α act

abbrev Exchange (e : Env) (endpoint : Endpoint) {α : Type} (act : Act α) : Prop :=
  Built (Part e endpoint) act

/-- The parts of what is sent under keys. -/
inductive FlightPart (e : Env) : Endpoint → (α : Type) → Act α → Prop
  | part {endpoint : Endpoint} {α : Type} {act : Act α} (is : Part e endpoint α act) :
      FlightPart e endpoint α act
  | extensions (raw : Bytes) : FlightPart e .client _ (onCore (onEncryptedExtensions e raw))
  | stores (ch : ClientHello) (sel : Selection) :
      FlightPart e .server _ (onCore (srvStoreSelection e ch sel))
  | derives (ch : ClientHello) (sel : Selection) :
      FlightPart e .server _ (onCore (srvDeriveHandshakeSecrets e ch sel))
  | seals (pt : Bytes) : FlightPart e .server _ (srvOutSealed e pt)
  | secrets : FlightPart e .server _ (onCore (srvMasterSecrets e))

abbrev Flight (e : Env) (endpoint : Endpoint) {α : Type} (act : Act α) : Prop :=
  Built (FlightPart e endpoint) act

section Rules

variable {e : Env} {endpoint : Endpoint} {α : Type} {act : Act α}

theorem Still.exchange (still : Still act) : Exchange e endpoint act := .one (.still still)

theorem Steady.exchange {handler : Handler α} (steady : Steady handler) :
    Exchange e endpoint (onCore handler) := .one (.core steady)

theorem exchange_pure (value : α) : Exchange e endpoint (pure value) :=
  Still.exchange (keeps_pure value)

theorem Exchange.flight (exchange : Exchange e endpoint act) : Flight e endpoint act := by
  induction exchange with
  | one is => exact .one (.part is)
  | bind _ _ head tail => exact head.bind tail

theorem Still.fixes (still : Still act) : ActFixes act :=
  still.map fun parts => ((parts.1.cfg, parts.1.state), parts.2.opened)

theorem Part.fixes (is : Part e endpoint α act) : ActFixes act := by
  cases is with
  | client => exact (hsrNextMsg_protocol e).fixes
  | server => exact (srvNextMsg_protocol e).fixes
  | core steady => exact onCore_fixes steady.fixes
  | still still => exact still.fixes

/-- A flight keeps the configuration, the state and the data opened so far. -/
theorem Flight.fixes (flight : Flight e endpoint act) : ActFixes act := by
  induction flight with
  | bind _ _ head tail => exact head.bind tail
  | one is =>
    cases is with
    | part is => exact is.fixes
    | extensions raw =>
      exact onCore_fixes
        ((onEncryptedExtensions_kept e raw).map fun parts => (parts.cfg, parts.state))
    | stores ch sel => exact onCore_fixes fun _ => rfl
    | derives ch sel => exact onCore_fixes (srvDeriveHandshakeSecrets_fixes e ch sel)
    | seals pt => exact (srvOutSealed_unsent e pt).protocol.fixes
    | secrets => exact onCore_fixes fun _ => rfl

theorem Exchange.fixes (exchange : Exchange e endpoint act) : ActFixes act := exchange.flight.fixes

end Rules

section Exchanges

variable (e : Env)

theorem hsrCheckRecordEnd_still : Still hsrCheckRecordEnd := by
  intro s
  unfold hsrCheckRecordEnd
  split <;> rfl

/-! ### The client -/

theorem sendHandshakeRecord_still (rec : Bytes) : Still (sendHandshakeRecord rec) := by
  intro s
  have sent : ((sendStaged rec s).2.t, (sendStaged rec s).2.rx) = (s.t, s.rx) := rfl
  unfold sendHandshakeRecord
  split <;>
    · rename_i ran
      rw [ran] at sent
      exact sent

theorem hsfReadServerHello_exchange : Exchange e .client (hsfReadServerHello e) :=
  .bind (.one .client) fun raw => (onServerHello_steady e raw).exchange

theorem helloExchange_exchange (hello : Bytes) : Exchange e .client (helloExchange e hello) := by
  have sends (hello : Bytes) (retry : Bool) : Exchange e .client (sendClientHello hello retry) :=
    (sendHandshakeRecord_still _).exchange
  have retries : Exchange e .client (retryExchange e) := by
    refine (hsfBuildClientHello_steady e).exchange.bind fun hello => ?_
    cases hello with
    | none => exact Still.exchange (keeps_stop _)
    | some hello =>
      exact (sends hello true).bind fun _ => (hsfReadServerHello_exchange e).bind fun _ =>
        .ite (steady_refuse _ _).exchange (exchange_pure _)
  exact (sends hello false).bind fun _ => (hsfReadServerHello_exchange e).bind fun first =>
    .bind (.ite retries (exchange_pure first)) fun info =>
      (hsfAcceptServerHello_steady e info).exchange.bind fun _ => exchange_pure _

theorem hsaReadCertificateVerify_exchange : Exchange e .client (hsaReadCertificateVerify e) :=
  (Still.exchange (keeps_gets _)).bind fun _ => .bind (.one .client) fun raw =>
    (onCertificateVerify_steady e _ raw).exchange

theorem hsaServerAuth_exchange : Exchange e .client (hsaServerAuth e) :=
  .bind (.one .client) fun raw => (onCertificate_steady e raw).exchange.bind fun _ =>
    .ite (hsaReadCertificateVerify_exchange e) (exchange_pure _)

theorem hsfReadFinished_exchange : Exchange e .client (hsfReadFinished e) :=
  (Still.exchange (keeps_gets _)).bind fun _ => .bind (.one .client) fun raw =>
    (onFinished_steady e _ raw).exchange

theorem hsfReadEncryptedExtensions_flight : Flight e .client (hsfReadEncryptedExtensions e) :=
  .bind (.one (.part .client)) fun raw => .one (.extensions raw)

theorem serverMessages_flight : Flight e .client (serverMessages e) :=
  (hsfReadEncryptedExtensions_flight e).bind fun _ =>
    (Still.exchange keeps_get).flight.bind fun _ =>
    .bind (.ite (exchange_pure _).flight (hsaServerAuth_exchange e).flight) fun _ =>
      (hsfReadFinished_exchange e).flight.bind fun _ => hsrCheckRecordEnd_still.exchange.flight

/-! ### The server -/

theorem orInternalError_still (out : Proc Io Rc Unit) : Still (orInternalError out) := by
  intro s
  have sent : ((onIo out s).2.t, (onIo out s).2.rx) = (s.t, s.rx) := rfl
  unfold orInternalError
  split <;>
    · rename_i ran
      rw [ran] at sent
      exact sent

theorem srvOutRecord_still (rec : Bytes) : Still (srvOutRecord e rec) := orInternalError_still _

theorem pushCrypto_still (p : Bytes) : Still (pushCrypto p) := fun s => orInternalError_still _ s

theorem srvOutPlain_still (msg : Bytes) : Still (srvOutPlain e msg) := by
  intro s
  unfold srvOutPlain
  split
  · exact pushCrypto_still msg (stageTx msg s)
  · exact srvOutRecord_still e _ (stageTx _ s)

theorem srvReadClientHello_exchange : Exchange e .server (srvReadClientHello e) :=
  .bind (.one .server) fun raw => (onClientHello_steady e raw).exchange

theorem srvSendHelloRetryRequest_exchange (ch : ClientHello) (sel : Selection) :
    Exchange e .server (srvSendHelloRetryRequest e ch sel) :=
  (buildHelloRetryRequest_steady e ch sel).exchange.bind fun msg =>
    (srvOutPlain_still e msg).exchange

theorem srvSendServerHello_exchange (ch : ClientHello) (sel : Selection) :
    Exchange e .server (srvSendServerHello e ch sel) :=
  (buildServerHello_steady e ch sel).exchange.bind fun msg => (srvOutPlain_still e msg).exchange

theorem srvSendCompatCcs_exchange (ch : ClientHello) : Exchange e .server (srvSendCompatCcs e ch) :=
  .ite (exchange_pure _) (.bind (Steady.exchange fun _ => rfl) fun _ =>
    (srvOutRecord_still e _).exchange)

theorem srvHelloExchange_exchange : Exchange e .server (srvHelloExchange e) := by
  have retries (ch : ClientHello) (sel : Selection) : Exchange e .server (retryRound e ch sel) :=
    (srvSendHelloRetryRequest_exchange e ch sel).bind fun _ =>
      (srvSendCompatCcs_exchange e ch).bind fun _ => (srvReadClientHello_exchange e).bind fun ch =>
        (srvCheckRetryHello_steady e ch sel).exchange.bind fun sel =>
          hsrCheckRecordEnd_still.exchange.bind fun _ =>
            (srvSendServerHello_exchange e ch sel).bind fun _ => exchange_pure _
  exact (srvBegin_steady e).exchange.bind fun _ => (srvReadClientHello_exchange e).bind fun ch =>
    (srvSelect_steady e ch).exchange.bind fun sel => .ite (retries ch sel)
      (hsrCheckRecordEnd_still.exchange.bind fun _ =>
        (srvSendServerHello_exchange e ch sel).bind fun _ =>
        (srvSendCompatCcs_exchange e ch).bind fun _ => exchange_pure _)

theorem srvReadClientFinished_exchange : Exchange e .server (srvReadClientFinished e) :=
  (Still.exchange (keeps_gets _)).bind fun _ => .bind (.one .server) fun raw =>
    (onClientFinished_steady e _ raw).exchange

theorem srvFragLoop_flight (fuel : Nat) (msg : Bytes) :
    Flight e .server (srvFragLoop e fuel msg) := by
  induction fuel generalizing msg with
  | zero => exact (exchange_pure _).flight
  | succ fuel ih =>
    exact .ite (exchange_pure _).flight ((Still.exchange keeps_get).flight.bind fun _ =>
      (absorbSelected_steady _ _).exchange.flight.bind fun _ =>
        .bind (.one (.seals _)) fun _ => ih _)

theorem srvSendCertificate_flight (sel : Selection) :
    Flight e .server (srvSendCertificate e sel) := by
  refine .of_states (.part (.still keeps_get)) fun s => ?_
  have refuses : Flight e .server (stopAlert Alert.internalError .eauth : Act Unit) :=
    (steady_refuse _ _).exchange.flight
  unfold srvSendCertificate
  split
  · exact ⟨_,refuses,rfl⟩
  split
  · exact ⟨_,refuses,rfl⟩
  · exact ⟨_,srvFragLoop_flight e _ _,rfl⟩

theorem srvProtectedFlight_flight (sel : Selection) :
    Flight e .server (srvProtectedFlight e sel) := by
  have verify : Flight e .server (srvSendCertificateVerify e sel) :=
    (buildCertificateVerify_steady e sel).exchange.flight.bind fun msg =>
      .ite (srvFragLoop_flight e _ msg)
        ((absorbSelected_steady _ _).exchange.flight.bind fun _ => .one (.seals msg))
  have finished : Flight e .server (srvSendFinished e) :=
    .bind (Steady.exchange fun _ => rfl).flight fun msg => .bind (.one (.seals msg)) fun _ =>
      .one .secrets
  exact .bind ((buildEncryptedExtensions_steady e sel).exchange.flight.bind fun msg =>
    .one (.seals msg)) fun _ => .bind (.ite (exchange_pure _).flight
      ((srvSendCertificate_flight e sel).bind fun _ => verify)) fun _ => finished

theorem srvSendNewSessionTicket_flight : Flight e .server (srvSendNewSessionTicket e) := by
  refine (newSessionTicket_steady e).exchange.flight.bind fun msg => ?_
  cases msg with
  | none => exact (exchange_pure _).flight
  | some msg => exact .one (.seals msg)

end Exchanges

end Chapulin
