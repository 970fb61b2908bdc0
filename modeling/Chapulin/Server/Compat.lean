/-
The compatibility change_cipher_spec over whole accepted handshakes.

For each step of the nonblocking server, and for the straight line of the
blocking one, a shape says which messages were read and which types of records
were sent.  The two drivers differ in the retry round: the nonblocking one goes
through `server_flight`, which sends the record after its ServerHello too.
-/

import Chapulin.Server.Records
import Chapulin.Tcp.Run

namespace Chapulin

open Lib Proc List

theorem Emits.seq {α β : Type} {front : List Nat} {shape : List Nat → Prop} {first : Act α}
    {rest : α → Act β} (head : Emits (· = front) first) (tail : ∀ value, Emits shape (rest value)) :
    Emits (fun kinds => ∃ more, kinds = front ++ more ∧ shape more) (first >>= rest) := by
  intro s value next ran
  obtain ⟨middle,between,started,ran⟩ := bind_eq_ok.mp ran
  obtain ⟨taken,filled,kinds,rfl⟩ := head s middle between started
  obtain ⟨taken',more,kinds',shaped⟩ := tail middle between value next ran
  refine ⟨taken'.trans taken,filled ++ more,?_,more,rfl,shaped⟩
  rw [kinds',kinds,append_assoc]

section Shapes

variable (e : Env) (cfg : Cfg)

def helloKinds (sessionId : Bytes) (more : List Nat) : List Nat :=
  recHandshake :: (compatKinds sessionId ++ more)

/-- The messages read and the records sent once the server's flight is out:
`last` are the messages after the hellos, `again` what follows a ServerHello
that answers a second hello. -/
def Flown (again : Bytes → List Nat) (last : List Bytes) (s : St) : Prop :=
  (∃ first more, s.rx.taken = first :: last ∧ AllSealed more ∧
      s.kinds = helloKinds (helloSessionId e cfg first) more) ∨
    ∃ first second more, s.rx.taken = first :: second :: last ∧ AllSealed more ∧
      s.kinds = helloKinds (helloSessionId e cfg first)
        (recHandshake :: (again (helloSessionId e cfg second) ++ more))

def Retried (s : St) : Prop :=
  ∃ first, s.rx.taken = [first] ∧ s.kinds = helloKinds (helloSessionId e cfg first) []

variable {e cfg} {again : Bytes → List Nat} {last : List Bytes} {s next : St}

theorem Flown.seals (flown : Flown e cfg again last s) (taken : next.rx.taken = s.rx.taken)
    {more : List Nat} (sealed : AllSealed more) (kinds : next.kinds = s.kinds ++ more) :
    Flown e cfg again last next := by
  rcases flown with ⟨first,before,read,all,sent⟩ | ⟨first,second,before,read,all,sent⟩
  · refine .inl ⟨first,before ++ more,taken.trans read,all.append sealed,?_⟩
    rw [kinds,sent]
    simp only [helloKinds,cons_append,append_assoc]
  · refine .inr ⟨first,second,before ++ more,taken.trans read,all.append sealed,?_⟩
    rw [kinds,sent]
    simp only [helloKinds,cons_append,append_assoc]

theorem Flown.reads (flown : Flown e cfg again last s) {raw : Bytes}
    (taken : next.rx.taken = s.rx.taken ++ [raw]) (kinds : next.kinds = s.kinds) :
    Flown e cfg again (last ++ [raw]) next := by
  rcases flown with ⟨first,before,read,all,sent⟩ | ⟨first,second,before,read,all,sent⟩
  · exact .inl ⟨first,before,by rw [taken,read,cons_append],all,kinds.trans sent⟩
  · refine .inr ⟨first,second,before,?_,all,kinds.trans sent⟩
    rw [taken,read,cons_append,cons_append]

theorem Flown.of_same (flown : Flown e cfg again last s) (taken : next.rx.taken = s.rx.taken)
    (sent : next.io.sent = s.io.sent) : Flown e cfg again last next :=
  flown.seals taken allSealed_nil (by rw [St.kinds,sent,append_nil,St.kinds])

end Shapes

/-! ### The property -/

/-- One change_cipher_spec, right after the first handshake message, when the
first hello has a session id, and none when it has not. -/
def CompatCcsOnce (e : Env) (cfg : Cfg) (s : St) : Prop :=
  match s.rx.taken with
  | [] => False
  | first :: _ =>
    if helloSessionId e cfg first = [] then recCcs ∉ s.kinds
    else ∃ rest, s.kinds = recHandshake :: recCcs :: rest ∧ recCcs ∉ rest

theorem AllSealed.no_ccs {kinds : List Nat} (all : AllSealed kinds) : recCcs ∉ kinds := by
  intro among
  exact absurd (all recCcs among) (by decide)

theorem compatCcsOnce_iff {e : Env} {cfg : Cfg} {s : St} {first : Bytes} {others : List Bytes}
    {more : List Nat} (taken : s.rx.taken = first :: others)
    (kinds : s.kinds = helloKinds (helloSessionId e cfg first) more) :
    CompatCcsOnce e cfg s ↔ recCcs ∉ more := by
  have differ : recCcs ≠ recHandshake := by decide
  simp only [CompatCcsOnce,taken,kinds,helloKinds,compatKinds]
  split
  · simp only [nil_append,mem_cons,differ,false_or]
  · simp only [singleton_append,cons.injEq,true_and]
    constructor
    · rintro ⟨rest,rfl,absent⟩
      exact absent
    · intro absent
      exact ⟨more,rfl,absent⟩

/-! ### The blocking driver -/

section Blocking

variable {e : Env} (tcp : e.build.quic = false)
include tcp

theorem retryRound_sends {ch : ClientHello} {sel : Selection}
    {s next : St} {value : ClientHello × Selection}
    (ran : retryRound e ch sel s = (.ok value, next)) :
    ∃ second, next.rx.taken = s.rx.taken ++ [second] ∧
      next.kinds = s.kinds ++ helloKinds ch.sessionId [recHandshake] := by
  obtain ⟨_,asked,sent,ran⟩ := bind_eq_ok.mp ran
  obtain ⟨taken₁,_,kinds₁,rfl⟩ := srvSendHelloRetryRequest_emits e tcp ch sel _ _ _ sent
  obtain ⟨_,told,compat,ran⟩ := bind_eq_ok.mp ran
  obtain ⟨taken₂,_,kinds₂,rfl⟩ := srvSendCompatCcs_emits e tcp ch _ _ _ compat
  obtain ⟨again,heard,read,ran⟩ := bind_eq_ok.mp ran
  obtain ⟨second,taken₃,kinds₃,_⟩ := srvReadClientHello_takes e read
  have answers : Emits (· = [recHandshake]) (do
      let sel ← onCore (srvCheckRetryHello e again sel)
      hsrCheckRecordEnd
      srvSendServerHello e again sel
      pure (again, sel)) := by
    refine (onCore_emits _).after fun chosen => hsrCheckRecordEnd_ledger.emits.after fun _ => ?_
    intro s value next ran
    obtain ⟨_,_,sent,ran⟩ := bind_eq_ok.mp ran
    cases ran
    exact srvSendServerHello_emits e tcp again chosen _ _ _ sent
  obtain ⟨taken₄,_,kinds₄,rfl⟩ := answers _ _ _ ran
  refine ⟨second,by rw [taken₄,taken₃,taken₂,taken₁],?_⟩
  rw [kinds₄,kinds₃,kinds₂,kinds₁]
  simp only [helloKinds,append_assoc,cons_append,nil_append]

/-- After the hellos the records sent are those of one or two answers. -/
theorem srvHelloExchange_flown {s next : St}
    {value : ClientHello × Selection} (fresh : s.rx.taken = []) (silent : s.kinds = [])
    (ran : srvHelloExchange e s = (.ok value, next)) : Flown e s.t.cfg (fun _ => []) [] next := by
  obtain ⟨_,begun,start,ran⟩ := bind_eq_ok.mp ran
  have cfg : begun.t.cfg = s.t.cfg :=
    congrArg Tls.Kept.cfg ((Keeps.onCore (srvBegin_steady e)).of_eq start)
  obtain ⟨taken₀,_,kinds₀,rfl⟩ := onCore_emits _ _ _ _ start
  obtain ⟨ch,heard,read,ran⟩ := bind_eq_ok.mp ran
  obtain ⟨first,taken₁,kinds₁,_,id⟩ := srvReadClientHello_takes e read
  obtain ⟨sel,chosen,select,ran⟩ := bind_eq_ok.mp ran
  obtain ⟨taken₂,_,kinds₂,rfl⟩ := onCore_emits _ _ _ _ select
  rw [cfg] at id
  have taken : chosen.rx.taken = [first] := by rw [taken₂,taken₁,taken₀,fresh,nil_append]
  have kinds : chosen.kinds = [] := by
    rw [kinds₂,kinds₁,kinds₀,silent,append_nil,append_nil]
  by_cases retry : sel.needRetry = true
  · rw [if_pos retry] at ran
    obtain ⟨second,taken',kinds'⟩ := retryRound_sends tcp ran
    rw [taken] at taken'
    rw [kinds,id] at kinds'
    exact .inr ⟨first,second,[],taken',allSealed_nil,kinds'⟩
  · rw [if_neg retry] at ran
    have answers := hsrCheckRecordEnd_ledger.emits.after fun _ =>
      (srvSendServerHello_emits e tcp ch sel).seq fun _ =>
        (srvSendCompatCcs_emits e tcp ch).seq fun _ => emits_pure (ch, sel)
    obtain ⟨taken',_,kinds',_,rfl,_,rfl,rfl⟩ := answers _ _ _ ran
    rw [kinds,id] at kinds'
    exact .inl ⟨first,[],taken'.trans taken,allSealed_nil,kinds'⟩

theorem srvRun_flown {s next : St} (fresh : s.rx.taken = [])
    (silent : s.kinds = []) (ran : srvRun e s = (.ok (), next)) :
    ∃ fin, Flown e s.t.cfg (fun _ => []) [fin] next := by
  obtain ⟨⟨ch,sel⟩,hellos,exchanged,ran⟩ := bind_eq_ok.mp ran
  have flown := srvHelloExchange_flown tcp fresh silent exchanged
  have flight := (onCore_emits (srvStoreSelection e ch sel)).after fun _ =>
    (onCore_emits (srvDeriveHandshakeSecrets e ch sel)).after fun _ =>
      srvProtectedFlight_emits e tcp sel
  obtain ⟨_,stored,store,ran⟩ := bind_eq_ok.mp ran
  obtain ⟨_,derived,derive,ran⟩ := bind_eq_ok.mp ran
  obtain ⟨_,done,authed,ran⟩ := bind_eq_ok.mp ran
  obtain ⟨_,sent,protect,authed⟩ := bind_eq_ok.mp authed
  obtain ⟨taken₁,more,kinds₁,all⟩ := flight hellos () sent
    (bind_eq_ok.mpr ⟨_,_,store,bind_eq_ok.mpr ⟨_,_,derive,protect⟩⟩)
  obtain ⟨_,heard,read,ended⟩ := bind_eq_ok.mp authed
  obtain ⟨fin,taken₂,kinds₂⟩ := srvReadClientFinished_takes e read
  have finish := hsrCheckRecordEnd_ledger.emits _ _ _ ended
  obtain ⟨taken₃,_,kinds₃,rfl⟩ := finish
  obtain ⟨_,connected,complete,ticket⟩ := bind_eq_ok.mp ran
  cases complete
  obtain ⟨taken₄,tail,kinds₄,all'⟩ := srvSendNewSessionTicket_emits e tcp _ _ _ ticket
  have answered := (flown.seals taken₁ all kinds₁).reads taken₂ kinds₂
  refine ⟨fin,((answered.seals taken₃ allSealed_nil kinds₃).seals ?_ all' ?_)⟩
  · exact taken₄
  · exact kinds₄

end Blocking

/-! ### The nonblocking driver -/

section Nonblocking

variable {e : Env} {cfg : Cfg}

/-- What the step the server waits in says about the messages read and the
records sent so far. -/
def ServerStep.Sent (e : Env) (cfg : Cfg) (s : St) : ServerStep → Prop
  | .awaitClientHello => s.rx.taken = [] ∧ s.kinds = []
  | .awaitRetryHello => Retried e cfg s
  | .awaitClientFinished => Flown e cfg compatKinds [] s
  | .complete => ∃ fin, Flown e cfg compatKinds [fin] s

structure Serving (e : Env) (cfg : Cfg) (r : ServerTcp) : Prop where
  config : r.st.t.cfg = cfg
  waits : r.step ≠ .complete → r.st.t.state ≠ .connected
  sent : r.step.Sent e cfg r.st

theorem serverFlight_emits (tcp : e.build.quic = false) (ch : ClientHello) (sel : Selection) :
    Emits (fun kinds => ∃ more, kinds = helloKinds ch.sessionId more ∧ AllSealed more)
      (serverFlight e ch sel) := by
  have flight := hsrCheckRecordEnd_ledger.emits.after fun _ =>
    (srvSendServerHello_emits e tcp ch sel).seq fun _ =>
      (srvSendCompatCcs_emits e tcp ch).seq fun _ =>
        (onCore_emits (srvStoreSelection e ch sel)).after fun _ =>
          (onCore_emits (srvDeriveHandshakeSecrets e ch sel)).after fun _ =>
            srvProtectedFlight_emits e tcp sel
  intro s value next ran
  obtain ⟨taken,_,kinds,_,rfl,more,rfl,all⟩ := flight s value next ran
  exact ⟨taken,_,kinds,more,rfl,all⟩

variable {r next : ServerTcp}

theorem onSt_eq_ok {α : Type} {act : Act α} {value : α}
    (ran : onSt act r = (.ok value, next)) : act r.st = (.ok value, next.st) := by
  unfold onSt Proc.within at ran
  rcases inner : act r.st with ⟨result,st⟩
  rw [inner] at ran
  cases ran
  rfl

variable (tcp : e.build.quic = false)
include tcp

/-- The step that answers a ClientHello keeps the account of the records. -/
theorem stepClientHello_serving (serving : Serving e cfg r) (here : r.step = .awaitClientHello)
    (ran : stepClientHello e r = (.ok (), next)) : Serving e cfg next := by
  have settings := (stepClientHello_settings e).of_eq ran
  simp only [St.settings,Core.fixed,St.core,Prod.mk.injEq] at settings
  have config := settings.1.1.trans serving.config
  have waits := serving.waits (by rw [here]; nofun)
  rw [← settings.1.2] at waits
  have sent := serving.sent
  rw [here] at sent
  obtain ⟨ch,heard,read,ran⟩ := bind_eq_ok.mp ran
  obtain ⟨first,taken₁,kinds₁,_,id⟩ := srvReadClientHello_takes e (onSt_eq_ok read)
  obtain ⟨sel,chosen,select,ran⟩ := bind_eq_ok.mp ran
  obtain ⟨taken₂,_,kinds₂,rfl⟩ := onCore_emits _ _ _ _ (onSt_eq_ok select)
  rw [serving.config] at id
  have taken : chosen.st.rx.taken = [first] := by rw [taken₂,taken₁,sent.1,nil_append]
  have kinds : chosen.st.kinds = [] := by rw [kinds₂,kinds₁,sent.2,append_nil]
  by_cases retry : sel.needRetry = true
  · rw [if_pos retry] at ran
    obtain ⟨_,asked,ask,ran⟩ := bind_eq_ok.mp ran
    obtain ⟨taken₃,_,kinds₃,rfl⟩ :=
      srvSendHelloRetryRequest_emits e tcp ch sel _ _ _ (onSt_eq_ok ask)
    obtain ⟨_,told,tell,ran⟩ := bind_eq_ok.mp ran
    obtain ⟨taken₄,_,kinds₄,rfl⟩ := srvSendCompatCcs_emits e tcp ch _ _ _ (onSt_eq_ok tell)
    cases ran
    refine ⟨config,fun _ => waits,first,(taken₄.trans taken₃).trans taken,?_⟩
    change told.st.kinds = _
    rw [kinds₄,kinds₃,kinds,id]
    simp only [helloKinds,append_nil,nil_append,singleton_append]
  · rw [if_neg retry] at ran
    obtain ⟨_,flown,flight,ran⟩ := bind_eq_ok.mp ran
    obtain ⟨taken₃,_,kinds₃,more,rfl,all⟩ :=
      serverFlight_emits tcp ch sel _ _ _ (onSt_eq_ok flight)
    cases ran
    rw [kinds,id,nil_append] at kinds₃
    exact ⟨config,fun _ => waits,.inl ⟨first,more,taken₃.trans taken,all,kinds₃⟩⟩

theorem stepRetryHello_serving (serving : Serving e cfg r) (here : r.step = .awaitRetryHello)
    (ran : stepRetryHello e r = (.ok (), next)) : Serving e cfg next := by
  have settings := (stepRetryHello_settings e).of_eq ran
  simp only [St.settings,Core.fixed,St.core,Prod.mk.injEq] at settings
  have waits := serving.waits (by rw [here]; nofun)
  rw [← settings.1.2] at waits
  have sent := serving.sent
  rw [here] at sent
  obtain ⟨first,taken,kinds⟩ := sent
  obtain ⟨ch,heard,read,ran⟩ := bind_eq_ok.mp ran
  obtain ⟨second,taken₁,kinds₁,_,id⟩ := srvReadClientHello_takes e (onSt_eq_ok read)
  obtain ⟨sel,chosen,select,ran⟩ := bind_eq_ok.mp ran
  obtain ⟨taken₂,_,kinds₂,rfl⟩ := onCore_emits _ _ _ _ (onSt_eq_ok select)
  rw [serving.config] at id
  obtain ⟨_,flown,flight,ran⟩ := bind_eq_ok.mp ran
  obtain ⟨taken₃,_,kinds₃,more,rfl,all⟩ :=
    serverFlight_emits tcp ch sel _ _ _ (onSt_eq_ok flight)
  cases ran
  refine ⟨settings.1.1.trans serving.config,fun _ => waits,.inr ⟨first,second,more,?_,all,?_⟩⟩
  · change flown.st.rx.taken = _
    rw [taken₃,taken₂,taken₁,taken,singleton_append]
  · change flown.st.kinds = _
    rw [kinds₃,kinds₂,kinds₁,kinds,id]
    simp only [helloKinds,append_nil,cons_append]

theorem stepClientFinished_serving
    (serving : Serving e cfg r) (here : r.step = .awaitClientFinished)
    (ran : stepClientFinished e r = (.ok (), next)) : Serving e cfg next := by
  have sent := serving.sent
  rw [here] at sent
  obtain ⟨_,heard,read,ran⟩ := bind_eq_ok.mp ran
  have config₁ := congrArg (fun settings => settings.1.1)
    ((srvReadClientFinished_exchange e).fixes.of_eq (onSt_eq_ok read))
  obtain ⟨fin,taken₁,kinds₁⟩ := srvReadClientFinished_takes e (onSt_eq_ok read)
  obtain ⟨_,ended,ends,ran⟩ := bind_eq_ok.mp ran
  have config₂ := congrArg (fun settings => settings.1.1)
    (hsrCheckRecordEnd_still.fixes.of_eq (onSt_eq_ok ends))
  obtain ⟨taken₂,_,kinds₂,rfl⟩ := hsrCheckRecordEnd_ledger.emits _ _ _ (onSt_eq_ok ends)
  obtain ⟨_,connected,complete,ran⟩ := bind_eq_ok.mp ran
  cases complete
  obtain ⟨_,stepped,set,ran⟩ := bind_eq_ok.mp ran
  cases set
  obtain ⟨_,ticketed,ticket,ran⟩ := bind_eq_ok.mp ran
  have config₃ := congrArg (fun settings => settings.1.1)
    ((srvSendNewSessionTicket_flight e).fixes.of_eq (onSt_eq_ok ticket))
  have step := congrArg (fun r => r.2.step) ticket
  obtain ⟨taken₄,more,kinds₄,all⟩ :=
    srvSendNewSessionTicket_emits e tcp _ _ _ (onSt_eq_ok ticket)
  cases ran
  have done : ticketed.step = .complete := step.symm
  refine ⟨?_,fun unfinished => absurd done unfinished,?_⟩
  · exact config₃.trans (config₂.trans (config₁.trans serving.config))
  · change ticketed.step.Sent e cfg (wipeHs ticketed.st)
    rw [done]
    exact ⟨fin,(((sent.reads taken₁ kinds₁).seals taken₂ allSealed_nil kinds₂).seals taken₄ all
      kinds₄).of_same rfl rfl⟩

theorem srvTcpAdvance_serving
    (serving : Serving e cfg r) (ran : srvTcpAdvance e r = (.ok (), next)) :
    Serving e cfg next := by
  unfold srvTcpAdvance at ran
  cases here : r.step with
  | awaitClientHello =>
    rw [here] at ran
    exact stepClientHello_serving tcp serving here ran
  | awaitRetryHello =>
    rw [here] at ran
    exact stepRetryHello_serving tcp serving here ran
  | awaitClientFinished =>
    rw [here] at ran
    exact stepClientFinished_serving tcp serving here ran
  | complete =>
    rw [here] at ran
    cases ran

omit tcp

theorem Serving.of_same (serving : Serving e cfg r)
    (step : next.step = r.step) (fixed : next.st.core.fixed = r.st.core.fixed)
    (ledger : next.st.ledger = r.st.ledger) : Serving e cfg next := by
  simp only [Core.fixed,St.core,Prod.mk.injEq] at fixed
  simp only [St.ledger,Prod.mk.injEq] at ledger
  have kinds : next.st.kinds = r.st.kinds := by rw [St.kinds,ledger.2.1,St.kinds]
  refine ⟨fixed.1.trans serving.config,?_,?_⟩
  · rw [step,fixed.2]
    exact serving.waits
  · rw [step]
    have sent := serving.sent
    cases here : r.step with
    | awaitClientHello =>
      rw [here] at sent
      exact ⟨ledger.1.trans sent.1,kinds.trans sent.2⟩
    | awaitRetryHello =>
      rw [here] at sent
      obtain ⟨first,taken,shape⟩ := sent
      exact ⟨first,ledger.1.trans taken,kinds.trans shape⟩
    | awaitClientFinished =>
      rw [here] at sent
      exact Flown.of_same sent ledger.1 ledger.2.1
    | complete =>
      rw [here] at sent
      obtain ⟨fin,flown⟩ := sent
      exact ⟨fin,flown.of_same ledger.1 ledger.2.1⟩

theorem serverDriver_serving (tcp : e.build.quic = false) :
    TcpDriver.Respects (serverDriver e) (Serving e cfg) (fun _ => True) where
  advanced _ _ serving ran := srvTcpAdvance_serving tcp serving ran
  stopped _ _ _ _ _ := trivial
  alerted _ _ _ := trivial

theorem srvTcpIn_serving (tcp : e.build.quic = false) {p : Bytes} {r : ServerTcp}
    (serving : Serving e cfg r) (alive : (srvTcpIn e p r).1.1 ≠ .error .assertFail) :
    Serving e cfg (srvTcpIn e p r).2 ∨ (srvTcpIn e p r).2.st.t.state = .failed := by
  unfold srvTcpIn at alive ⊢
  split
  · exact .inl serving
  rename_i living
  rw [if_neg living] at alive
  have settled := TcpDriver.inLoop_settled (serverDriver_serving tcp) (fun _ holds => holds)
    (fun _ holds _ => holds) (fun _ _ _ => trivial) (p.length + 1) p 0
    (fun record _ r next holds took => holds.of_same
      (by rw [← congrArg (fun result => result.2.step) took]; rfl)
      (congrArg Prod.fst ((onSt_settings (tcpNonblockingTakeRecord_protocol e record).fixes).of_eq
        took))
      (((tcpNonblockingTakeRecord_fetched e record).map Prod.snd).of_eq (onSt_eq_ok took)))
    (fun _ _ _ _ _ _ _ => trivial) serving alive
  rcases settled with kept | ⟨before,_,failed⟩
  · exact .inl kept
  · right
    rw [failed]
    change (srvTcpFail e before).st.t.state = .failed
    unfold srvTcpFail
    dsimp only
    split <;> rfl

theorem srvTcpInit_serving {buf : Bytes} {io : Io} {r : ServerTcp} (silent : io.sent = [])
    (admitted : srvTcpInit e cfg buf io = (.ok (), r)) : Serving e cfg r := by
  unfold srvTcpInit at admitted
  split at admitted
  · cases admitted
  rcases begun : srvBegin e (srvStart e cfg) with ⟨result,c⟩
  have fixed := (srvBegin_steady e).of_eq begun
  rw [begun] at admitted
  cases admitted
  refine ⟨congrArg Tls.Kept.cfg fixed,fun _ connected =>
    ?_,rfl,congrArg (List.map recordType) silent⟩
  exact absurd ((congrArg Tls.Kept.state fixed).symm.trans connected) nofun

end Nonblocking

/-! ### Accepted handshakes -/

/-- A handshake that a TCP server of the build accepted over `cfg`, and the
session it left: the one call of the blocking driver, or records delivered to
the nonblocking one in any division. -/
inductive SrvAccepted (e : Env) (cfg : Cfg) : St → Prop
  | blocking {buf : Bytes} {io : Io} {s : St} (build : e.build.transport = .tcpBlocking)
      (silent : io.sent = []) (ran : srvAccept e cfg buf io = (.ok (), s)) : SrvAccepted e cfg s
  | nonblocking {buf : Bytes} {io : Io} {r : Tcp Endpoint.server.Step} {records : List Bytes}
      {tr : TcpTrace .server} (build : e.build.transport = .tcpNonblocking) (silent : io.sent = [])
      (admitted : srvTcpInit e cfg buf io = (.ok (), r))
      (ran : (TcpTrace.start r).run e (records.map .input) = some tr)
      (connected : tr.r.st.t.state = .connected) : SrvAccepted e cfg tr.r.st

section Accepted

variable {e : Env} {cfg : Cfg}

theorem srvAccept_flown (tcp : e.build.quic = false) {buf : Bytes} {io : Io} {s : St}
    (silent : io.sent = []) (ran : srvAccept e cfg buf io = (.ok (), s)) :
    ∃ fin, Flown e cfg (fun _ => []) [fin] s := by
  unfold srvAccept at ran
  split at ran
  · cases ran
  unfold srvHandshake at ran
  split at ran
  · rename_i last went
    cases ran
    obtain ⟨fin,flown⟩ := srvRun_flown tcp (by rfl)
      (by exact congrArg (List.map recordType) silent) went
    exact ⟨fin,flown.of_same rfl rfl⟩
  · cases ran
  · cases ran

theorem run_serving (tcp : e.build.quic = false) {records : List Bytes} {tr last : TcpTrace .server}
    (held : Serving e cfg tr.r ∨ tr.r.st.t.state = .failed)
    (ran : tr.run e (records.map .input) = some last) :
    Serving e cfg last.r ∨ last.r.st.t.state = .failed := by
  refine @invariant_of_calls _ _ _ _ tr last (fun tr => Serving e cfg tr.r ∨
    tr.r.st.t.state = .failed) (fun tr call next among held stepped => ?_) held ran
  obtain ⟨record,_,rfl⟩ := mem_map.mp among
  obtain ⟨state,alive,_⟩ := TcpTrace.step_quiet (fun _ => rfl) stepped
  change next.r = (srvTcpIn e record tr.r).2 at state
  rw [state]
  rcases held with serving | failed
  · refine srvTcpIn_serving tcp serving fun stopped => alive ?_
    simp only [TcpCall.exec,Endpoint.tcpIn,stopped,Except.map]
  · right
    have dead : tcpNonblockingSessionDead tr.r = true := by
      unfold tcpNonblockingSessionDead
      rw [failed]
      rfl
    rw [srvTcpIn,if_pos dead]
    exact failed

/-- Of every accepted handshake: one change_cipher_spec, right after the first
handshake message, exactly when the session id is not empty -- unless the
nonblocking driver answered a second hello with a session id. -/
theorem compatCcs_once_iff {s : St} (accepted : SrvAccepted e cfg s) :
    CompatCcsOnce e cfg s ↔
      ¬ (e.build.transport = .tcpNonblocking ∧ ∃ first second fin,
        s.rx.taken = [first,second,fin] ∧ helloSessionId e cfg second ≠ []) := by
  have sealed {more : List Nat} (all : AllSealed more) : recCcs ∉ recHandshake :: more := by
    rintro (_ | ⟨_,among⟩)
    exact all.no_ccs among
  cases accepted with
  | blocking build silent ran =>
    have tcp : e.build.quic = false := by rw [Build.quic,build]; rfl
    have holds : CompatCcsOnce e cfg s := by
      obtain ⟨fin,⟨first,more,taken,all,kinds⟩ | ⟨first,second,more,taken,all,kinds⟩⟩ :=
        srvAccept_flown tcp silent ran
      · exact (compatCcsOnce_iff taken kinds).mpr all.no_ccs
      · exact (compatCcsOnce_iff taken kinds).mpr (sealed all)
    refine ⟨fun _ => ?_,fun _ => holds⟩
    rintro ⟨other,_⟩
    rw [build] at other
    cases other
  | @nonblocking _ _ _ _ tr build silent admitted ran connected =>
    have tcp : e.build.quic = false := by rw [Build.quic,build]; rfl
    rcases run_serving tcp (.inl (srvTcpInit_serving silent admitted)) ran with serving | failed
    · have done : tr.r.step = .complete := Classical.byContradiction fun unfinished =>
        serving.waits unfinished connected
      have sent := serving.sent
      rw [done] at sent
      obtain ⟨fin,⟨first,more,taken,all,kinds⟩ | ⟨first,second,more,taken,all,kinds⟩⟩ :=
        sent
      · refine ⟨fun _ => ?_,fun _ => (compatCcsOnce_iff taken kinds).mpr all.no_ccs⟩
        rintro ⟨_,_,_,_,three,_⟩
        rw [taken] at three
        cases three
      · rw [compatCcsOnce_iff taken kinds]
        constructor
        · rintro once ⟨_,_,_,_,three,named⟩
          rw [taken] at three
          cases three
          rw [compatKinds,if_neg named] at once
          exact once (.tail _ mem_cons_self)
        · intro excluded
          have unnamed : helloSessionId e cfg second = [] := Classical.byContradiction fun named =>
            excluded ⟨build,first,second,fin,taken,named⟩
          rw [compatKinds,if_pos unnamed,nil_append]
          exact sealed all
    · rw [connected] at failed
      cases failed

def sampleBlockingRetry : Except Rc Unit × St :=
  srvAccept (sampleServerEnv .tcpBlocking) sampleServerCfg (zeros 1024)
    { sampleServerIo with inbox := sampleRetryRecords [1] }

theorem compatCcs_once_blocking_retry : ∃ s,
    SrvAccepted (sampleServerEnv .tcpBlocking) sampleServerCfg s ∧
      s.kinds = [22,20,22,23,23,23,23] ∧
      CompatCcsOnce (sampleServerEnv .tcpBlocking) sampleServerCfg s := by
  have ok : sampleBlockingRetry = (.ok (), sampleBlockingRetry.2) :=
    eq_ok_of_toBool (by decide +kernel)
  have accepted : SrvAccepted (sampleServerEnv .tcpBlocking) sampleServerCfg
      sampleBlockingRetry.2 := .blocking rfl (by rfl) ok
  have kinds : sampleBlockingRetry.2.kinds = [22,20,22,23,23,23,23] := by decide +kernel
  generalize sampleBlockingRetry.2 = s at accepted kinds
  refine ⟨s,accepted,kinds,(compatCcs_once_iff accepted).mpr ?_⟩
  rintro ⟨other,_⟩
  cases other

/-- The nonblocking server sends a second change_cipher_spec after its
ServerHello when it asked for a retry. -/
theorem compatCcs_twice_after_retry : ∃ s,
    SrvAccepted (sampleServerEnv .tcpNonblocking) sampleServerCfg s ∧
      s.rx.taken = [sampleFirstHello [1],sampleSecondHello [1],[20,0,0,32] ++ replicate 32 2] ∧
      s.kinds = [22,20,22,20,23,23,23,23] ∧
      ¬ CompatCcsOnce (sampleServerEnv .tcpNonblocking) sampleServerCfg s := by
  obtain ⟨tr,ran⟩ := Option.isSome_iff_exists.mp
    (by decide +kernel : (sampleServerRun (sampleRetryRecords [1])).isSome = true)
  have facts : (sampleServerRun (sampleRetryRecords [1])).map (fun tr =>
      decide (tr.r.st.t.state = .connected ∧
        tr.r.st.rx.taken = [sampleFirstHello [1],sampleSecondHello [1],
          [20,0,0,32] ++ replicate 32 2] ∧
        tr.r.st.kinds = [22,20,22,20,23,23,23,23])) = some true := by decide +kernel
  rw [ran] at facts
  obtain ⟨connected,taken,kinds⟩ := of_decide_eq_true (Option.some.inj facts)
  have admitted : sampleServerInit = (.ok (), sampleServerInit.2) :=
    eq_ok_of_toBool (by decide +kernel)
  refine ⟨tr.r.st,.nonblocking rfl rfl admitted ran connected,taken,kinds,?_⟩
  have named : helloSessionId (sampleServerEnv .tcpNonblocking) sampleServerCfg
      (sampleFirstHello [1]) ≠ [] := by decide +kernel
  simp only [CompatCcsOnce,taken,if_neg named,kinds]
  rintro ⟨rest,same,once⟩
  cases same
  exact absurd once (by decide)

end Accepted

end Chapulin
