/-
The states TCP sessions reach: those of a blocking session after `ch_connect` or
`ch_accept` and any calls of `tls.h`, and those of a tcp-nonblocking session
after its init call and any calls.

Between two calls a session is at its start, connected, or over.
-/

import Chapulin.Tcp.Data
import Chapulin.Tcp.Numbers

namespace Chapulin

open Lib Relation Proc ViewMoves

/-! ### Between two calls -/

section Between

variable (e : Env)

structure St.Starting (s : St) : Prop where
  sound : s.guarded.Sound e
  calm : s.guarded.Calm
  state : s.t.state = .start
  fresh : s.t.wr.seq = 0

structure St.Live (s : St) : Prop where
  sound : s.guarded.Sound e
  calm : s.guarded.Calm
  state : s.t.state = .connected
  keys : s.t.keys = true
  room : Room e s.t.wr

def St.Between (s : St) : Prop := s.Starting e ∨ s.Live e ∨ s.Over e

variable {e} {s next : St}

theorem room_of_few {d : RecDir} (few : d.seq ≤ flightMax) : Room e d := fun _ =>
  Nat.lt_of_le_of_lt few (by decide)

theorem St.Starting.owing (starting : s.Starting e) : s.Owing e where
  sound := starting.sound
  alerts := starting.calm.alerts
  sent := starting.calm.sent
  reserve := (room_of_few (by rw [starting.fresh]; exact Nat.zero_le _)).reserve
  speaks := .inr starting.state

theorem St.Live.owing (live : s.Live e) : s.Owing e where
  sound := live.sound
  alerts := live.calm.alerts
  sent := live.calm.sent
  reserve := live.room.reserve
  speaks := .inl live.keys

theorem move_live (move : Move e (Spare e) s next) (live : s.Live e) : next.Live e where
  sound := move_sound move live.sound
  calm := move_calm move live.calm
  state := by
    cases move with
    | quiet same => exact (congrArg Guarded.state same).trans live.state
    | connect => rfl
    | seals _ _ | opens | writeKeys | readKeys | keyed | keyUpdate _ | readEnds => exact live.state
  keys := move_keys move live.keys
  room := move_room move live.room

theorem Going.live (going : Going e (Spare e) s next) (live : s.Live e) : next.Live e := by
  induction going with
  | refl => exact live
  | tail _ move ih => exact move_live move ih

theorem Halt.sound (halt : Halt s next) (sound : s.guarded.Sound e) : next.guarded.Sound e := by
  cases halt with
  | still same =>
    rw [same]
    exact sound
  | heard same =>
    rw [same]
    exact ⟨sound.rd,sound.wr,sound.spent⟩

theorem Halt.silent (halt : Halt s next) (calm : s.guarded.Calm) :
    next.t.alerts = [] ∧ next.t.alertSent = 0 := by
  cases halt with
  | still same =>
    exact ⟨(congrArg Guarded.alerts same).trans calm.alerts,
      (congrArg Guarded.alertSent same).trans calm.sent⟩
  | heard same =>
    exact ⟨(congrArg Guarded.alerts same).trans calm.alerts,
      (congrArg Guarded.alertSent same).trans calm.sent⟩

theorem Failing.owing (failing : Failing e s next) (live : s.Live e) : next.Owing e := by
  cases failing with
  | halts halt =>
    obtain ⟨alerts,sent⟩ := halt.silent live.calm
    refine ⟨halt.sound live.sound,alerts,sent,?_,.inl (halt.keys.trans live.keys)⟩
    rw [halt.wr]
    exact live.room.reserve
  | untaken sealed same part =>
    have wr : next.t.wr = _ := congrArg Guarded.wr same
    refine ⟨?_,(congrArg Guarded.alerts same).trans live.calm.alerts,
      (congrArg Guarded.alertSent same).trans live.calm.sent,?_,
      .inl ((congrArg Guarded.keys same).trans live.keys)⟩
    · rw [same]
      exact ⟨live.sound.rd,recSeal_sound live.sound.wr sealed,live.sound.spent⟩
    · rw [wr]
      exact recSeal_reserve sealed part

theorem St.Live.of_guarded (live : s.Live e) (same : next.guarded = s.guarded) : next.Live e :=
  move_live (.quiet same) live

theorem Settles.live_or_over (tcp : e.build.quic = false) (settles : Settles e s next)
    (live : s.Live e) : next.Live e ∨ next.Over e := by
  obtain ⟨last,going,stop⟩ := settles
  have there := Going.live going live
  cases stop with
  | still same => exact .inl (there.of_guarded same)
  | failed description failing =>
    exact .inr (tlsiFail_over tcp (failing.owing there) description)

end Between

/-! ### Calls on a session -/

inductive TlsCall where
  | read (n : Nat)
  | write (parts : List Bytes)
  | fail (description : Nat)
  | close

section TlsCalls

variable (e : Env)

def TlsCall.exec : TlsCall → Act Bytes
  | .read n => tlsRead e n
  | .write parts => do
      tlsWriteParts e parts
      pure []
  | .fail description => do
      tlsFail e description
      pure []
  | .close => fun s => (.ok [], tlsClose e s)

structure TlsTrace where
  st : St
  returned : Bytes

def TlsTrace.step (tr : TlsTrace) (call : TlsCall) : Option TlsTrace :=
  match call.exec e tr.st with
  | (.ok bytes, st) => some { st := st, returned := tr.returned ++ bytes }
  | (.error .assertFail, _) => none
  | (.error _, st) => some { tr with st := st }

def TlsTrace.run (tr : TlsTrace) (calls : List TlsCall) : Option TlsTrace :=
  calls.foldlM (TlsTrace.step e) tr

variable {e} {s : St}

theorem tlsWriteParts_idle (parts : List Bytes) (idle : s.t.state ≠ .connected) :
    (tlsWriteParts e parts s).2 = s := by
  simp only [tlsWriteParts,idle,ne_eq,not_false_eq_true,if_true]

theorem tlsFail_idle (description : Nat) (idle : s.t.state ≠ .connected) :
    (tlsFail e description s).2 = s := by
  simp only [tlsFail,idle,ne_eq,not_false_eq_true,if_true]
  split <;> rfl

theorem bind_state {α β : Type} (act : Act α) (value : β) (s : St) :
    ((do let _ ← act; pure value : Act β) s).2 = (act s).2 := by
  rw [Proc.bind_apply]
  rcases act s with ⟨_ | _,_⟩ <;> rfl

theorem TlsCall.exec_idle (call : TlsCall) (idle : s.t.state ≠ .connected) :
    (call.exec e s).2 = s ∨ (call.exec e s).2 = tlsClose e s := by
  cases call with
  | read n => exact .inl (tlsRead_idle n idle).1
  | write parts => exact .inl ((bind_state _ _ s).trans (tlsWriteParts_idle parts idle))
  | fail description => exact .inl ((bind_state _ _ s).trans (tlsFail_idle description idle))
  | close => exact .inr rfl

theorem TlsCall.exec_live (tcp : e.build.quic = false) (call : TlsCall)
    (live : s.Live e) : (call.exec e s).2.Live e ∨ (call.exec e s).2.Over e := by
  cases call with
  | read n => exact (tlsRead_settles e n s).live_or_over tcp live
  | write parts =>
    have same : ((TlsCall.write parts).exec e s).2 = (tlsWriteParts e parts s).2 :=
      bind_state _ _ s
    rw [same]
    exact (tlsWriteParts_settles e parts s).live_or_over tcp live
  | fail description =>
    have same : ((TlsCall.fail description).exec e s).2 = (tlsFail e description s).2 :=
      bind_state _ _ s
    rw [same]
    exact (tlsFail_settles e description s).live_or_over tcp live
  | close => exact .inr (tlsClose_over tcp live.owing live.calm.received)

theorem St.Over.idle (done : s.Over e) : s.t.state ≠ .connected := by
  rcases done.ended with closed | failed
  · rw [closed]
    nofun
  · rw [failed]
    nofun

theorem TlsCall.exec_over (call : TlsCall) (done : s.Over e) : (call.exec e s).2.Over e := by
  rcases call.exec_idle done.idle with same | closes
  · rw [same]
    exact done
  · rw [closes]
    exact done.tlsClose

theorem TlsCall.exec_between (tcp : e.build.quic = false) (call : TlsCall)
    (between : s.Between e) : (call.exec e s).2.Between e := by
  rcases between with starting | live | done
  · have idle : s.t.state ≠ .connected := by
      rw [starting.state]
      nofun
    rcases call.exec_idle idle with same | closes
    · rw [same]
      exact .inl starting
    · rw [closes]
      exact .inr (.inr (tlsClose_over tcp starting.owing starting.calm.received))
  · exact .inr (call.exec_live tcp live)
  · exact .inr (.inr (call.exec_over done))

end TlsCalls

/-! ### Handshakes -/

section Handshakes

variable (e : Env)

structure St.Fair (s : St) : Prop where
  sound : s.guarded.Sound e
  calm : s.guarded.Calm

structure St.Sober (s : St) : Prop where
  sound : s.guarded.Sound e
  alerts : s.t.alerts = []
  sent : s.t.alertSent = 0

structure Unkeyed (s : St) : Prop where
  unused : s.t.wr.seq = 0
  state : s.t.state = .start

structure Keyed (s : St) : Prop where
  unused : s.t.wr.seq = 0
  keys : s.t.keys = true

variable {e} {α : Type} {fits : RecDir → Prop}

theorem Halt.sober {s next : St} (halt : Halt s next) (fair : s.Fair e) : next.Sober e :=
  ⟨halt.sound fair.sound,(halt.silent fair.calm).1,(halt.silent fair.calm).2⟩

theorem ViewMoves.fair {σ : Type} {view : σ → St} {proc : Proc σ Rc α}
    (moves : ViewMoves e fits view proc) :
    Triple (fun s => (view s).Fair e) proc (fun _ s => (view s).Fair e)
      (fun _ s => (view s).Sober e) :=
  moves.triple (fun _ _ move fair => ⟨move_sound move fair.sound,move_calm move fair.calm⟩)
    fun _ _ _ halt fair => halt.sober fair

theorem ActMoves.fair {act : Act α} (moves : ActMoves e fits act) :
    Triple (St.Fair e) act (fun _ => St.Fair e) (fun _ => St.Sober e) :=
  @ViewMoves.fair e α fits St (fun s => s) act moves

variable {s : St}

theorem St.Sober.owing (sober : s.Sober e) (low : Low s) : s.Owing e :=
  ⟨sober.sound,sober.alerts,sober.sent,(room_of_few low.few).reserve,low.speaks⟩

theorem St.Owing.withHs (owing : s.Owing e) (h : Hs) : St.Owing e { s with h := h } :=
  ⟨owing.sound,owing.alerts,owing.sent,owing.reserve,owing.speaks⟩

theorem Unkeyed.low (fresh : Unkeyed s) : Low s where
  few := by
    rw [fresh.unused]
    exact Nat.zero_le _
  speaks := .inr fresh.state

theorem Keyed.low (keyed : Keyed s) : Low s where
  few := by
    rw [keyed.unused]
    exact Nat.zero_le _
  speaks := .inl keyed.keys

theorem Idle.fresh {act : Act α} (idle : Idle e act) :
    Triple Unkeyed act (fun _ => Unkeyed) (fun _ => Low) := by
  intro s fresh
  have same := idle.terms s
  simp only [St.terms,Prod.mk.injEq] at same
  have bound := ActMoves.seq_le idle.moves s
  rw [fresh.unused] at bound
  exact ends_of_state _ ⟨Nat.le_zero.mp bound,same.2.2.2.trans fresh.state⟩ fun _ still =>
    still.low

theorem ViewMoves.keyed {σ : Type} {view : σ → St} {proc : Proc σ Rc α}
    (moves : ViewMoves e Never view proc) :
    Triple (fun s => Keyed (view s)) proc (fun _ s => Keyed (view s))
      (fun _ s => Low (view s)) := by
  intro s keyed
  have bound := seq_le moves s
  rw [keyed.unused] at bound
  exact ends_of_state (fun s => Keyed (view s))
    ⟨Nat.le_zero.mp bound,keys moves keyed.keys⟩ fun _ still => still.low

theorem ActMoves.keyed {act : Act α} (moves : ActMoves e Never act) :
    Triple Keyed act (fun _ => Keyed) (fun _ => Low) :=
  @ViewMoves.keyed e α St (fun s => s) act moves

/-! #### The blocking client -/

variable (e)

theorem sendClientFinished_triple (msg : Bytes) :
    Triple Keyed (sendClientFinished e msg) (fun _ s => s.t.keys = true) (fun _ => Low) := by
  intro s keyed
  unfold sendClientFinished
  split
  · exact ⟨keyed.low.few,keyed.low.speaks⟩
  · rename_i rec wr sealed
    obtain ⟨_,_,_,_,_,next⟩ := recSeal_eq_some.mp sealed
    have same := ((sendHandshakeRecord_still rec).map fun parts =>
        parts.1.kept.guarded parts.2.alertReceived) (s.withWr wr)
    have keys := (congrArg Guarded.keys same).trans keyed.keys
    have seq : (sendHandshakeRecord rec (s.withWr wr)).2.t.wr.seq = 0 + 1 := by
      refine (congrArg (fun g => g.wr.seq) same).trans ?_
      change wr.seq = 0 + 1
      rw [next,← keyed.unused]
      rfl
    change Ends _ _ (sendHandshakeRecord rec (s.withWr wr))
    rcases ran : sendHandshakeRecord rec (s.withWr wr) with ⟨rc | value,next⟩
    · rw [ran] at keys seq
      exact ⟨by rw [seq]; decide,.inl keys⟩
    · rw [ran] at keys
      exact keys

/-- The blocking client ends connected under keys it has not used, or fails. -/
theorem run_triple (hello : Bytes) :
    Triple Unkeyed (run e hello) (fun _ s => Keyed s ∧ s.t.state = .connected)
      (fun _ => Low) := by
  have installs : Triple Unkeyed (onCore (installHandshakeKeys e)) (fun _ => Keyed)
      (fun _ => Low) := fun s _ => ⟨rfl,rfl⟩
  have messages : ActMoves e Never (serverMessages e) := (serverMessages_flight e).client_moves
  have traffic : Triple (fun s => s.t.keys = true) (onCore (installTrafficKeys e))
      (fun _ => Keyed) (fun _ => Low) := fun s keys => ⟨rfl,keys⟩
  have connects : Triple Keyed (Proc.modify fun s =>
      { s with rx := s.rx.reset, t := { s.t with state := .connected } } : Act Unit)
      (fun _ s => Keyed s ∧ s.t.state = .connected) (fun _ => Low) :=
    fun s keyed => ⟨⟨keyed.unused,keyed.keys⟩,rfl⟩
  have derives (info : ServerHelloInfo) : Idle e (onCore (hsfDeriveHandshakeSecrets e info)) :=
    (hsfDeriveHandshakeSecrets_steady e info).idle
  have commits : ActMoves e Never (onCore (commitEpoch e)) := (commitEpoch_steady e).moves
  have completes : ActMoves e Never (onCore (hsfComplete e)) := (hsfComplete_steady e).moves
  exact (helloExchange_exchange e hello).idle.fresh.bind fun info =>
    (hsrCheckRecordEnd_still.idle e).fresh.bind
    fun _ => (derives info).fresh.bind fun _ => installs.bind fun _ =>
      (ActMoves.keyed messages).bind fun _ => (ActMoves.keyed commits).bind fun _ =>
        (ActMoves.keyed completes).bind fun finished =>
          (sendClientFinished_triple e finished).bind fun _ => traffic.bind fun _ => connects

/-- What is drawn at the start of a handshake touches nothing else of a session. -/
def Tls.undrawn (t : Tls) : Tls :=
  { t with randPos := 0, transcript := transcriptInit, hellos := [] }

theorem drawNonzero_undrawn (n : Nat) : Keeps (fun c => c.t.undrawn) (drawNonzero n) :=
  .bind (fun _ => rfl) fun _ => .bind (keeps_require _ _) fun _ => keeps_pure _

theorem drawKeyPair_undrawn : Keeps (fun c => c.t.undrawn) (drawKeyPair e) :=
  (drawNonzero_undrawn 32).bind fun _ => fun _ => rfl

theorem hsfBegin_undrawn : Keeps (fun c => c.t.undrawn) (hsfBegin e) := by
  have seed : Keeps (fun c => c.t.undrawn) drawKemSeed :=
    .bind (fun _ => rfl) fun _ => .bind (keeps_require _ _) fun _ =>
      .bind (keeps_require _ _) fun _ => fun _ => rfl
  have early : Keeps (fun c => c.t.undrawn) (pskSecrets e) := by
    refine keeps_modify fun c => ?_
    split <;> rfl
  exact .bind (.ite (keeps_pure _) (drawKeyPair_undrawn e)) fun _ =>
    (drawNonzero_undrawn 32).bind fun _ => .bind (fun _ => rfl) fun _ =>
      .bind (.ite seed (keeps_pure _)) fun _ => early.bind fun _ => fun _ => rfl

theorem hsfBuildClientHello_undrawn : Keeps (fun c => c.t.undrawn) (hsfBuildClientHello e) := by
  intro c
  unfold hsfBuildClientHello
  cases unboundHello e c <;> rfl

def Tls.holding (t : Tls) :=
  (t.rd, t.wr, t.rdSecret, t.wrSecret, t.resMaster, t.expMaster, t.keys, t.alerts, t.alertSent,
    t.spent)

structure St.Unused (s : St) : Prop where
  holding : s.t.holding = (Tls.fresh s.t.cfg).holding
  heard : s.rx.alertReceived = 0

variable {e}

theorem St.Unused.fair (unused : s.Unused) : s.Fair e := by
  have held := unused.holding
  simp only [Tls.holding,Tls.fresh,Prod.mk.injEq] at held
  obtain ⟨rd,wr,_,_,_,_,_,alerts,sent,spent⟩ := held
  refine ⟨⟨?_,?_,?_⟩,⟨alerts,sent,unused.heard⟩⟩
  · change KeySound e .read s.t.rd
    rw [rd]
    exact keySound_wiped _
  · change KeySound e .write s.t.wr
    rw [wr]
    exact keySound_wiped _
  · change ∀ entry ∈ s.t.spent, _
    rw [spent]
    nofun

theorem St.Unused.fresh (unused : s.Unused) (state : s.t.state = .start) : Unkeyed s := by
  have held := unused.holding
  simp only [Tls.holding,Tls.fresh,Prod.mk.injEq] at held
  exact ⟨congrArg RecDir.seq held.2.1,state⟩

theorem St.Unused.starting (unused : s.Unused) (state : s.t.state = .start) : s.Starting e :=
  have fair : s.Fair e := unused.fair
  ⟨fair.sound,fair.calm,state,(unused.fresh state).unused⟩

theorem St.Unused.over (unused : s.Unused) (state : s.t.state = .failed) : s.Over e := by
  have held := unused.holding
  simp only [Tls.holding,Tls.fresh,Prod.mk.injEq] at held
  obtain ⟨rd,wr,rdSecret,wrSecret,resMaster,expMaster,keys,alerts,sent,_⟩ := held
  refine ⟨unused.fair.sound,.inr state,keys,⟨rd,wr,rdSecret,wrSecret,resMaster,expMaster⟩,?_,
    fun _ => alerts,fun owed => absurd sent owed⟩
  rw [alerts]
  exact Nat.zero_le _

variable (e)

variable {e} in
theorem St.Unused.of_undrawn {c : Core} (unused : s.Unused) (state : s.t.state = .start)
    (same : c.t.undrawn = s.t.undrawn) : (s.putCore c).Unused ∧ (s.putCore c).t.state = .start := by
  have kept := congrArg (fun t : Tls => (t.holding, t.cfg, t.state)) same
  obtain ⟨held,cfg,still⟩ : c.t.holding = s.t.holding ∧ c.t.cfg = s.t.cfg ∧
      c.t.state = s.t.state := by
    simp only [Prod.mk.injEq] at kept
    exact kept
  refine ⟨⟨?_,unused.heard⟩,still.trans state⟩
  change c.t.holding = (Tls.fresh c.t.cfg).holding
  rw [cfg,held]
  exact unused.holding

theorem begin_undrawn : Keeps (fun c => c.t.undrawn)
    (do hsfBegin e; hsfBuildClientHello e : Handler (Option Bytes)) :=
  (hsfBegin_undrawn e).bind fun _ => hsfBuildClientHello_undrawn e

theorem begin_unused {s next : St} {result : Except Rc (Option Bytes)}
    (ran : onCore (do hsfBegin e; hsfBuildClientHello e) s = (result, next)) (unused : s.Unused)
    (state : s.t.state = .start) : next.Unused ∧ next.t.state = .start := by
  have last : next = s.putCore _ := (congrArg Prod.snd ran).symm
  rw [last]
  exact unused.of_undrawn state (begin_undrawn e s.core)

variable (tcp : e.build.quic = false)
include tcp

theorem chHandshake_between (unused : s.Unused)
    (state : s.t.state = .start) (alive : (chHandshake e s).1 ≠ .error .assertFail) :
    (chHandshake e s).2.Between e := by
  unfold chHandshake at alive ⊢
  rcases begun : onCore (do hsfBegin e; hsfBuildClientHello e) s with ⟨rc | hello,first⟩
  · obtain ⟨unused,state⟩ := begin_unused e begun unused state
    exact .inl (unused.starting state)
  obtain ⟨unused,state⟩ := begin_unused e begun unused state
  rw [begun] at alive
  cases hello with
  | none => exact .inr (.inr (St.Unused.over ⟨unused.holding,unused.heard⟩ rfl))
  | some hello =>
    dsimp only at alive ⊢
    rcases ran : run e hello first with ⟨rc | _,last⟩
    · rw [ran] at alive
      have sober := (ActMoves.fair (run_moves e hello)).of_error unused.fair ran
      have owing := sober.owing ((run_triple e hello).of_error (unused.fresh state) ran)
      cases rc with
      | assertFail => exact absurd rfl alive
      | _ => exact .inr (.inr (tlsiFail_over tcp (owing.withHs _) _))
    · have fair := (ActMoves.fair (run_moves e hello)).of_ok unused.fair ran
      obtain ⟨keyed,connected⟩ := (run_triple e hello).of_ok (unused.fresh state) ran
      exact .inr (.inl ⟨fair.sound,fair.calm,connected,keyed.keys,room_of_few keyed.low.few⟩)

theorem tlsConnect_between {cfg : Cfg} {buf : Bytes} {io : Io}
    (alive : (tlsConnect e cfg buf io).1 ≠ .error .assertFail) :
    (tlsConnect e cfg buf io).2.Between e := by
  obtain ⟨presented,before⟩ := tcpClientSetup_beforeSetup e cfg
  have held := congrArg Tls.holding before
  unfold tlsConnect at alive ⊢
  rcases set : tcpClientSetup e cfg with ⟨rc | t,last⟩
  · rw [set] at before held
    exact .inr (.inr (St.Unused.over ⟨held,rfl⟩ rfl))
  · rw [set] at alive
    obtain ⟨presented,_,before⟩ := tcpClientSetup_ok e set
    have held := congrArg Tls.holding before
    have state := congrArg Tls.state before
    exact chHandshake_between e tcp (s := (blankSt e t buf io).putCore _) ⟨held,rfl⟩ state alive

theorem srvHandshake_between (fair : s.Fair e)
    (waits : Waits e s) (alive : (srvHandshake e s).1 ≠ .error .assertFail) :
    (srvHandshake e s).2.Between e := by
  unfold srvHandshake at alive ⊢
  rcases ran : srvRun e s with ⟨rc | _,last⟩
  · rw [ran] at alive
    have sober := (ActMoves.fair (srvRun_moves e)).of_error fair ran
    have owing := sober.owing ((srvRun_triple e tcp).of_error waits ran)
    cases rc with
    | assertFail => exact absurd rfl alive
    | _ => exact .inr (.inr (tlsiFail_over tcp (owing.withHs _) _))
  · have fair := (ActMoves.fair (srvRun_moves e)).of_ok fair ran
    have welcomed := (srvRun_triple e tcp).of_ok waits ran
    exact .inr (.inl ⟨fair.sound,fair.calm,welcomed.state,welcomed.keys,
      room_of_few (Nat.le_trans welcomed.few (by decide))⟩)

theorem srvAccept_between {cfg : Cfg} {buf : Bytes} {io : Io}
    (alive : (srvAccept e cfg buf io).1 ≠ .error .assertFail) :
    (srvAccept e cfg buf io).2.Between e := by
  unfold srvAccept at alive ⊢
  split
  · exact .inr (.inr (St.Unused.over ⟨rfl,rfl⟩ rfl))
  · rename_i configured
    rw [if_neg configured] at alive
    have unused : ((blankSt e (Tls.fresh cfg) buf io).putCore (srvStart e cfg)).Unused := ⟨rfl,rfl⟩
    have accepted : srvConfigOk e cfg = true := by simpa using configured
    exact srvHandshake_between e tcp unused.fair ⟨accepted,rfl,rfl,rfl⟩ alive

end Handshakes

/-! ### The nonblocking drivers -/

section Drivers

variable {e : Env} {Step α : Type} {fits : RecDir → Prop}

theorem TcpMoves.fresh {proc : Proc (Tcp Step) Rc α} (moves : TcpMoves e Never proc)
    (kept : Keeps (fun r => r.st.settings) proc) :
    Triple (fun r => Unkeyed r.st) proc (fun _ r => Unkeyed r.st) (fun _ r => Low r.st) := by
  intro r fresh
  have bound := seq_le moves r
  rw [fresh.unused] at bound
  have state := congrArg (fun settings => settings.1.2) (kept r)
  exact ends_of_state (fun r : Tcp Step => Unkeyed r.st)
    ⟨Nat.le_zero.mp bound,state.trans fresh.state⟩ fun _ still => still.low

/-! #### The client's steps -/

variable (e)

theorem stepServerHello_keys :
    Returns (fun r => r.step = .awaitRetryHello ∨ r.st.t.keys = true) (stepServerHello e) := by
  refine .bind fun info => .ite ?_ ?_
  · refine .bind fun r => .ite (onSt_stopAlert_returns _ _) (.bind fun hello => ?_)
    cases hello with
    | none => exact returns_stop _
    | some hello => exact .bind fun _ => returns_modify fun _ => .inl rfl
  · refine .bind fun _ => .bind fun _ => .bind fun _ => ?_
    intro r value next ran
    cases ran
    exact .inr rfl

theorem stageSealed_triple (pt : Bytes) :
    Triple (fun r => Keyed r.st) (stageSealed e pt) (fun _ r => r.st.t.keys = true)
      (fun _ r => Low r.st) := by
  intro r keyed
  unfold stageSealed
  split
  · exact ⟨keyed.low.few,keyed.low.speaks⟩
  · exact keyed.keys

theorem stepFinished_triple :
    Triple (fun r => Keyed r.st) (stepFinished e) (fun _ r => Keyed r.st)
      (fun _ r => Low r.st) := by
  have reads : TcpMoves e Never (onSt (hsfReadFinished e) : Proc ClientTcp Rc Unit) :=
    (hsfReadFinished_exchange e).moves.onSt
  have ends : TcpMoves e Never (onSt hsrCheckRecordEnd : Proc ClientTcp Rc Unit) :=
    hsrCheckRecordEnd_still.moves.onSt
  have commits : TcpMoves e Never (onSt (onCore (commitEpoch e)) : Proc ClientTcp Rc Unit) :=
    (commitEpoch_steady e).moves.onSt
  have completes : TcpMoves e Never (onSt (onCore (hsfComplete e)) : Proc ClientTcp Rc Bytes) :=
    (hsfComplete_steady e).moves.onSt
  have traffic : Triple (fun r : ClientTcp => r.st.t.keys = true)
      (onSt (onCore (installTrafficKeys e))) (fun _ r => Keyed r.st) (fun _ r => Low r.st) :=
    fun r keys => ⟨rfl,keys⟩
  have wipes : Triple (fun r : ClientTcp => Keyed r.st)
      (Proc.modify fun r => { r with st := wipeHs { r.st with rx := r.st.rx.reset } } :
        Proc ClientTcp Rc Unit)
      (fun _ r => Keyed r.st) (fun _ r => Low r.st) := fun r keyed => ⟨keyed.unused,keyed.keys⟩
  have completed : Triple (fun r : ClientTcp => Keyed r.st) (setStep .complete)
      (fun _ r => Keyed r.st) (fun _ r => Low r.st) := fun r keyed => ⟨keyed.unused,keyed.keys⟩
  exact (keyed reads).bind fun _ => (keyed ends).bind fun _ =>
    (keyed commits).bind fun _ => (keyed completes).bind fun finished =>
      (stageSealed_triple e finished).bind fun _ => traffic.bind fun _ =>
        wipes.bind fun _ => completed

/-! #### Calls with records -/

variable {e} {role : Endpoint}

/-- What a driver has when its handshake runs: a client past the hellos has keys,
a server has settled nothing before its flight is out. -/
def Endpoint.underway (e : Env) : (role : Endpoint) → Tcp role.Step → Prop
  | .client, r => r.step = ClientStep.awaitServerHello ∨ r.step = ClientStep.awaitRetryHello ∨
      r.st.t.keys = true
  | .server, r => (r.step = ServerStep.awaitClientHello ∨ r.step = ServerStep.awaitRetryHello) ∧
      Waits e r.st ∨ r.step = ServerStep.awaitClientFinished ∧ FlightSent e r.st

structure Tcp.Begun (e : Env) (r : Tcp role.Step) : Prop where
  starting : r.st.Starting e
  underway : role.underway e r

structure Tcp.Up (e : Env) (r : Tcp role.Step) : Prop where
  live : r.st.Live e
  done : role.done r

theorem tcpNonblockingAdvance_triple :
    Triple (fun r => Unkeyed r.st ∧ Endpoint.underway e .client r) (tcpNonblockingAdvance e)
      (fun _ r => r.st.t.wr.seq = 0 ∧ Endpoint.underway e .client r) (fun _ r => Low r.st) := by
  rintro r ⟨fresh,underway⟩
  have hello : Ends (fun _ r => r.st.t.wr.seq = 0 ∧ Endpoint.underway e .client r)
      (fun _ r => Low r.st) (stepServerHello e r) := by
    have kept := TcpMoves.fresh (stepServerHello_moves e) (stepServerHello_settings e) r fresh
    rcases ran : stepServerHello e r with ⟨rc | _,next⟩
    · rw [ran] at kept
      exact kept
    · rw [ran] at kept
      exact ⟨Unkeyed.unused kept,.inr (stepServerHello_keys e r () next ran)⟩
  have later {proc : Proc ClientTcp Rc Unit} (triple : Triple (fun r => Keyed r.st) proc
      (fun _ r => Keyed r.st) (fun _ r => Low r.st)) (keys : r.st.t.keys = true) :
      Ends (fun _ r => r.st.t.wr.seq = 0 ∧ Endpoint.underway e .client r)
        (fun _ r => Low r.st) (proc r) := by
    exact (triple r ⟨fresh.unused,keys⟩).mono
      (fun _ _ keyed => ⟨keyed.unused,.inr (.inr keyed.keys)⟩) fun _ _ low => low
  unfold tcpNonblockingAdvance
  simp only [Endpoint.underway] at underway
  cases step : r.step with
  | awaitServerHello => exact hello
  | awaitRetryHello => exact hello
  | awaitEncryptedExtensions =>
    simp only [step,reduceCtorEq,false_or] at underway
    exact later (keyed (stepEncryptedExtensions_moves e)) underway
  | awaitCertificate =>
    simp only [step,reduceCtorEq,false_or] at underway
    exact later (keyed (stepCertificate_moves e)) underway
  | awaitCertificateVerify =>
    simp only [step,reduceCtorEq,false_or] at underway
    exact later (keyed (stepCertificateVerify_moves e)) underway
  | awaitFinished =>
    simp only [step,reduceCtorEq,false_or] at underway
    exact later (stepFinished_triple e) underway
  | complete => exact ⟨fresh.low.few,fresh.low.speaks⟩

theorem begun_client {r next : ClientTcp} (begun : @Tcp.Begun .client e r)
    (ran : tcpNonblockingAdvance e r = (.ok (), next)) : @Tcp.Begun .client e next := by
  have fair := (fair (tcpNonblockingAdvance_moves e)).of_ok
    ⟨begun.starting.sound,begun.starting.calm⟩ ran
  have state := congrArg (fun settings => settings.1.2)
    ((tcpNonblockingAdvance_settings e).of_eq ran)
  obtain ⟨unused,underway⟩ := tcpNonblockingAdvance_triple.of_ok
    ⟨⟨begun.starting.fresh,begun.starting.state⟩,begun.underway⟩ ran
  exact ⟨⟨fair.sound,fair.calm,state.trans begun.starting.state,unused⟩,underway⟩

theorem begun_client_stops {r next : ClientTcp} {rc : Rc} (begun : @Tcp.Begun .client e r)
    (ran : tcpNonblockingAdvance e r = (.error rc, next)) : next.st.Owing e :=
  ((fair (tcpNonblockingAdvance_moves e)).of_error
    ⟨begun.starting.sound,begun.starting.calm⟩ ran).owing
    (tcpNonblockingAdvance_triple.of_error
      ⟨⟨begun.starting.fresh,begun.starting.state⟩,begun.underway⟩ ran)

/-! #### The server's steps -/

theorem triple_onSt {pre : St → Prop} {act : Act α} {post : α → St → Prop} {fault : Rc → St → Prop}
    (triple : Triple pre act post fault) :
    Triple (fun r : Tcp Step => pre r.st) (onSt act) (fun value r => post value r.st)
      (fun rc r => fault rc r.st) := by
  intro r holds
  have met := triple r.st holds
  unfold onSt Proc.within
  rcases ran : act r.st with ⟨rc | value,st⟩ <;>
    · rw [ran] at met
      exact met

def Onward (e : Env) (r : ServerTcp) : Prop :=
  r.step = .awaitRetryHello ∧ Waits e r.st ∨ r.step = .awaitClientFinished ∧ FlightSent e r.st

variable (tcp : e.build.quic = false)
include tcp

theorem onward_flight {ch : ClientHello} {sel : Selection}
    (fair : ch.LimitFair) (short : sel.hashLen ≤ sha384Len) :
    Triple (fun r => Waits e r.st) (do
      onSt (serverFlight e ch sel)
      setSrvStep .awaitClientFinished) (fun _ => Onward e) (fun _ r => Low r.st) :=
  (triple_onSt (serverFlight_triple e tcp fair short)).bind fun _ =>
    fun _ flown => .inr ⟨rfl,flown⟩

theorem stepClientHello_triple :
    Triple (fun r => Waits e r.st) (stepClientHello e) (fun _ => Onward e)
      (fun _ r => Low r.st) := by
  refine (triple_onSt (srvReadClientHello_triple e)).bind fun ch => .given fun fair =>
    (triple_onSt (srvSelect_triple e ch)).bind fun sel => .given fun short => .ite ?_ ?_
  · exact (triple_onSt (srvSendHelloRetryRequest_exchange e ch sel).idle.quiet).bind fun _ =>
      (triple_onSt (srvSendCompatCcs_exchange e ch).idle.quiet).bind fun _ => fun _ waits =>
        .inl ⟨rfl,waits⟩
  · exact onward_flight tcp fair short

theorem stepRetryHello_triple :
    Triple (fun r => Waits e r.st) (stepRetryHello e) (fun _ => Onward e)
      (fun _ r => Low r.st) :=
  (triple_onSt (srvReadClientHello_triple e)).bind fun ch => .given fun fair =>
    (triple_onSt (srvCheckRetryHello_triple e ch .zero)).bind fun _ => .given fun short =>
      onward_flight tcp fair short

/-- The last server step connects with few records sealed. -/
theorem stepClientFinished_triple :
    Triple (fun r => FlightSent e r.st) (stepClientFinished e)
      (fun _ r => r.step = .complete ∧ Welcomed r.st) (fun _ r => Low r.st) := by
  have completes : Triple (fun r : ServerTcp => FlightSent e r.st ∧ r.st.t.state = .connected)
      (setSrvStep .complete)
      (fun _ r => (FlightSent e r.st ∧ r.st.t.state = .connected) ∧ r.step = .complete)
      (fun _ r => Low r.st) := fun r flown => ⟨flown,rfl⟩
  have tickets : Triple
      (fun r : ServerTcp => (FlightSent e r.st ∧ r.st.t.state = .connected) ∧ r.step = .complete)
      (onSt (srvSendNewSessionTicket e)) (fun _ r => r.step = .complete ∧ Welcomed r.st)
      (fun _ r => Low r.st) := by
    rintro r ⟨flown,complete⟩
    have met := triple_onSt (srvTicket_triple e tcp) r flown
    unfold onSt Proc.within at met ⊢
    rcases ran : srvSendNewSessionTicket e r.st with ⟨rc | _,st⟩
    · rw [ran] at met
      exact met
    · rw [ran] at met
      exact ⟨complete,met⟩
  have wipes : Triple (fun r : ServerTcp => r.step = .complete ∧ Welcomed r.st)
      (Proc.modify fun r => { r with st := wipeHs r.st } : Proc ServerTcp Rc Unit)
      (fun _ r => r.step = .complete ∧ Welcomed r.st) (fun _ r => Low r.st) :=
    fun r both => ⟨both.1,both.2.few,both.2.keys,both.2.state⟩
  exact (triple_onSt ((srvReadClientFinished_exchange e).idle.flown e)).bind fun _ =>
    (triple_onSt ((hsrCheckRecordEnd_still.idle e).flown e)).bind fun _ =>
      (triple_onSt (srvComplete_flown e)).bind fun _ => completes.bind fun _ =>
        tickets.bind fun _ => wipes

/-- A server step goes on or connects. -/
theorem begun_server {r next : ServerTcp}
    (begun : @Tcp.Begun .server e r) (ran : srvTcpAdvance e r = (.ok (), next)) :
    @Tcp.Begun .server e next ∨ @Tcp.Up .server e next := by
  have fair := (fair (srvTcpAdvance_moves e)).of_ok
    ⟨begun.starting.sound,begun.starting.calm⟩ ran
  have onward {proc : Proc ServerTcp Rc Unit} (kept : Keeps (fun r => r.st.settings) proc)
      (ran : proc r = (.ok (), next)) (went : Onward e next) :
      @Tcp.Begun .server e next ∨ @Tcp.Up .server e next := by
    have state := congrArg (fun settings => settings.1.2) (kept.of_eq ran)
    rcases went with ⟨step,waits⟩ | ⟨step,flown⟩
    · exact .inl ⟨⟨fair.sound,fair.calm,waits.start,waits.fresh⟩,.inl ⟨.inr step,waits⟩⟩
    · exact .inl ⟨⟨fair.sound,fair.calm,state.trans begun.starting.state,
        Nat.le_zero.mp flown.cut.2⟩,.inr ⟨step,flown⟩⟩
  unfold srvTcpAdvance at ran
  rcases begun.underway with ⟨first | second,waits⟩ | ⟨step,flown⟩
  · simp only [first] at ran
    exact onward (stepClientHello_settings e) ran ((stepClientHello_triple tcp).of_ok waits ran)
  · simp only [second] at ran
    exact onward (stepRetryHello_settings e) ran ((stepRetryHello_triple tcp).of_ok waits ran)
  · simp only [step] at ran
    obtain ⟨complete,welcomed⟩ := (stepClientFinished_triple tcp).of_ok flown ran
    exact .inr ⟨⟨fair.sound,fair.calm,welcomed.state,welcomed.keys,
      room_of_few (Nat.le_trans welcomed.few (by decide))⟩,complete⟩

theorem begun_server_stops {r next : ServerTcp} {rc : Rc}
    (begun : @Tcp.Begun .server e r) (ran : srvTcpAdvance e r = (.error rc, next)) :
    next.st.Owing e := by
  refine ((fair (srvTcpAdvance_moves e)).of_error
    ⟨begun.starting.sound,begun.starting.calm⟩ ran).owing ?_
  unfold srvTcpAdvance at ran
  rcases begun.underway with ⟨first | second,waits⟩ | ⟨step,flown⟩
  · simp only [first] at ran
    exact (stepClientHello_triple tcp).of_error waits ran
  · simp only [second] at ran
    exact (stepRetryHello_triple tcp).of_error waits ran
  · simp only [step] at ran
    exact (stepClientFinished_triple tcp).of_error flown ran

omit tcp

/-! #### Records -/

def Tcp.Alive (e : Env) (r : Tcp role.Step) : Prop := r.Begun e ∨ r.Up e

variable {r : Tcp role.Step}

theorem Tcp.Alive.owing (alive : r.Alive e) : r.st.Owing e := by
  rcases alive with begun | up
  · exact begun.starting.owing
  · exact up.live.owing

theorem respects_alive (tcp : e.build.quic = false) :
    TcpDriver.Respects (role.tcpDriver e) (Tcp.Alive e) (fun r => r.st.Owing e) where
  advanced r next alive ran := by
    rcases alive with begun | up
    · cases role with
      | client => exact .inl (begun_client begun ran)
      | server => exact begun_server tcp begun ran
    · rw [advance_of_done up.done] at ran
      cases ran
  stopped r rc next alive ran := by
    rcases alive with begun | up
    · cases role with
      | client => exact begun_client_stops begun ran
      | server => exact begun_server_stops tcp begun ran
    · rw [advance_of_done up.done] at ran
      cases ran
      exact up.live.owing.withHs _
  alerted r alert alive := alive.owing.withHs _

theorem tcpNonblockingTakeRecord_idle (record : Bytes) :
    Idle e (tcpNonblockingTakeRecord e record) :=
  (tcpNonblockingTakeRecord_protocol e record).idle (tcpNonblockingTakeRecord_moves e record)

theorem onSt_eq {r next : Tcp Step} {act : Act α} {result : Except Rc α}
    (ran : onSt act r = (result, next)) :
    ∃ st, act r.st = (result, st) ∧ next = { r with st := st } := by
  unfold onSt Proc.within at ran
  rcases took : act r.st with ⟨given,st⟩
  rw [took] at ran
  cases ran
  exact ⟨st,rfl,rfl⟩

theorem takeRecord_alive {record : Bytes} {r next : Tcp role.Step} (alive : r.Alive e)
    (took : onSt (tcpNonblockingTakeRecord e record) r = (.ok (), next)) : next.Alive e := by
  obtain ⟨st,inner,rfl⟩ := onSt_eq took
  have idle := @tcpNonblockingTakeRecord_idle e record
  have moves : ActMoves e (Spare e) (tcpNonblockingTakeRecord e record) :=
    tcpNonblockingTakeRecord_moves e record
  rcases alive with begun | up
  · have fair := (ActMoves.fair idle.moves).of_ok ⟨begun.starting.sound,begun.starting.calm⟩ inner
    have fresh := idle.fresh.of_ok ⟨begun.starting.fresh,begun.starting.state⟩ inner
    refine .inl ⟨⟨fair.sound,fair.calm,fresh.state,fresh.unused⟩,?_⟩
    cases role with
    | client =>
      rcases begun.underway with first | second | keys
      · exact .inl first
      · exact .inr (.inl second)
      · have kept := ActMoves.keys idle.moves keys
        rw [inner] at kept
        exact .inr (.inr kept)
    | server =>
      rcases begun.underway with ⟨step,waits⟩ | ⟨step,flown⟩
      · exact .inl ⟨step,idle.quiet.of_ok waits inner⟩
      · exact .inr ⟨step,(idle.flown e).of_ok flown inner⟩
  · have went := moves r.st
    rw [inner] at went
    refine .inr ⟨Going.live went up.live,?_⟩
    cases role <;> exact up.done

theorem takeRecord_stops {record : Bytes} {r next : Tcp role.Step} {rc : Rc} (alive : r.Alive e)
    (took : onSt (tcpNonblockingTakeRecord e record) r = (.error rc, next)) : next.st.Owing e := by
  obtain ⟨st,inner,rfl⟩ := onSt_eq took
  have idle := @tcpNonblockingTakeRecord_idle e record
  have moves : ActMoves e (Spare e) (tcpNonblockingTakeRecord e record) :=
    tcpNonblockingTakeRecord_moves e record
  rcases alive with begun | up
  · have sober := (ActMoves.fair idle.moves).of_error
      ⟨begun.starting.sound,begun.starting.calm⟩ inner
    exact sober.owing
      (idle.fresh.of_error ⟨begun.starting.fresh,begun.starting.state⟩ inner)
  · have went := moves r.st
    rw [inner] at went
    obtain ⟨last,going,halt⟩ := went
    exact Failing.owing (.halts halt) (Going.live going up.live)

theorem St.Over.withIo {s : St} (done : s.Over e) {io : Io}
    (kept : s.t.alerts = [(2, s.t.alertSent)] ∨ io.sent = s.io.sent) :
    St.Over e { s with io := io } := by
  refine ⟨done.sound,done.ended,done.keys,done.wiped,done.single,done.unanswered,fun sent => ?_⟩
  rcases kept with alert | same
  · exact .inl alert
  · rw [same]
    exact done.owed sent

theorem tcpNonblockingFail_sent {Step : Type} {r : Tcp Step} (silent : r.st.t.alerts = [])
    (full : (tcpNonblockingFail e r).1 ≠ []) :
    (tcpNonblockingFail e r).2.st.t.alerts =
      [(2, (tcpNonblockingFail e r).2.st.t.alertSent)] := by
  have alerts : (tcpNonblockingFail e r).2.st.t.alerts =
      if (tcpNonblockingFail e r).1 = [] then r.st.t.alerts else r.st.t.alerts ++ [_] := rfl
  rw [alerts,if_neg full,silent]
  rfl

theorem driver_fail_over (owing : r.st.Owing e) : ((role.tcpDriver e).fail r).st.Over e := by
  cases role with
  | client => exact (tcpNonblockingFail_over owing).withIo (.inr rfl)
  | server =>
    simp only [Endpoint.tcpDriver,serverDriver,srvTcpFail]
    split
    · exact tcpNonblockingFail_over owing
    · rename_i full
      exact (tcpNonblockingFail_over owing).withIo
        (.inl (tcpNonblockingFail_sent owing.alerts full))

def Tcp.Standing (e : Env) (r : Tcp role.Step) : Prop := r.Alive e ∨ r.st.Over e

theorem St.Owing.refusedLength {s : St} (owing : s.Owing e) (h : Hs) (refused : Option Bytes) :
    St.Owing e { s with h := h, rx := s.rx.noteRefused refused room held } where
  sound := by
    have same :
        St.guarded { s with h := h, rx := s.rx.noteRefused refused room held } = s.guarded :=
      congrArg s.t.kept.guarded (Rx.noteRefused_alert s.rx refused room held)
    rw [same]
    exact owing.sound
  alerts := owing.alerts
  sent := owing.sent
  reserve := owing.reserve
  speaks := owing.speaks

theorem St.Over.dead (done : r.st.Over e) : tcpNonblockingSessionDead r = true := by
  rcases done.ended with closed | failed
  · simp [tcpNonblockingSessionDead,closed]
  · simp [tcpNonblockingSessionDead,failed]

theorem input_standing (tcp : e.build.quic = false) {p : Bytes}
    (standing : r.Standing e) (alive : (role.tcpIn e p r).1.1 ≠ .error .assertFail) :
    Tcp.Standing e (role.tcpIn e p r).2 := by
  rcases standing with up | done
  · rcases Endpoint.tcpIn_cases (e := e) p r with same | ⟨_,loop⟩
    · rw [same]
      exact .inl up
    rw [loop] at alive ⊢
    have settled := TcpDriver.inLoop_settled (respects_alive tcp) (fun _ ready => ready)
      (fun _ kept _ => kept) (fun _ _ ready => (Tcp.Alive.owing ready).refusedLength _ _) _ p 0
      (fun _ _ _ _ ready took => takeRecord_alive ready took)
      (fun _ _ _ _ _ ready took => takeRecord_stops ready took) up alive
    rcases settled with kept | ⟨before,owing,failed⟩
    · exact .inl kept
    · rw [failed]
      exact .inr (driver_fail_over owing)
  · rw [Endpoint.tcpIn_dead p done.dead]
    exact .inr done

theorem tlsCall_standing (tcp : e.build.quic = false) (call : TlsCall)
    (standing : r.Standing e) : Tcp.Standing e { r with st := (call.exec e r.st).2 } := by
  rcases standing with (begun | up) | done
  · have idle : r.st.t.state ≠ .connected := by
      rw [begun.starting.state]
      nofun
    rcases call.exec_idle idle with same | closes
    · rw [same]
      exact .inl (.inl begun)
    · rw [closes]
      exact .inr (tlsClose_over tcp begun.starting.owing begun.starting.calm.received)
  · rcases call.exec_live tcp up.live with live | done
    · refine .inl (.inr ⟨live,?_⟩)
      cases role <;> exact up.done
    · exact .inr done
  · exact .inr (call.exec_over done)

/-- Taking output keeps the invariant of a client. -/
theorem output_standing_client {cap : Nat} {r : ClientTcp} (standing : @Tcp.Standing .client e r) :
    @Tcp.Standing .client e (tcpOut cap r).2 := by
  rcases tcpOut_cases cap r with ⟨st,step,_⟩ | ⟨complete,start,step,st⟩
  · rcases standing with (begun | up) | done
    · refine .inl (.inl ⟨?_,?_⟩)
      · rw [st]
        exact begun.starting
      · have underway := begun.underway
        simp only [Endpoint.underway] at underway ⊢
        rw [step,st]
        exact underway
    · refine .inl (.inr ⟨?_,step.trans up.done⟩)
      rw [st]
      exact up.live
    · refine .inr ?_
      rw [st]
      exact done
  · rcases standing with (begun | up) | done
    · have keys : r.st.t.keys = true := by
        rcases begun.underway with first | second | keys
        · cases complete.symm.trans first
        · cases complete.symm.trans second
        · exact keys
      refine .inl (.inr ⟨?_,step⟩)
      rw [st]
      have few : r.st.t.wr.seq ≤ flightMax := by
        rw [begun.starting.fresh]
        exact Nat.zero_le _
      exact ⟨⟨begun.starting.sound.rd,begun.starting.sound.wr,begun.starting.sound.spent⟩,
        ⟨begun.starting.calm.alerts,begun.starting.calm.sent,begun.starting.calm.received⟩,rfl,keys,
        room_of_few few⟩
    · cases start.symm.trans up.live.state
    · rcases done.ended with closed | failed
      · cases start.symm.trans closed
      · cases start.symm.trans failed

/-- Every call keeps the invariant of a session. -/
theorem exec_standing (tcp : e.build.quic = false) (call : TcpCall)
    (standing : r.Standing e) (alive : (call.exec e r).1 ≠ .error .assertFail) :
    Tcp.Standing e (call.exec e r).2 := by
  cases call with
  | input p => exact input_standing tcp standing (exec_input_alive alive)
  | output cap =>
    cases role with
    | client => exact output_standing_client standing
    | server => exact standing
  | read n => exact tlsCall_standing tcp (.read n) standing
  | write parts =>
    have same := (@write_runs e role parts).state r
    rw [same]
    have stands := tlsCall_standing tcp (.write parts) standing
    simp only [TlsCall.exec,bind_state] at stands
    exact stands
  | fail description =>
    have same := (@fail_runs e role description).state r
    rw [same]
    have stands := tlsCall_standing tcp (.fail description) standing
    simp only [TlsCall.exec,bind_state] at stands
    exact stands
  | close => exact tlsCall_standing tcp .close standing
  | tcpClose =>
    rcases standing with (begun | up) | done
    · exact .inr (tcpClose_over begun.starting.sound begun.starting.calm)
    · exact .inr (tcpClose_over up.live.sound up.live.calm)
    · exact .inr done.tcpClose

theorem run_standing (tcp : e.build.quic = false) {calls : List TcpCall} {tr last : TcpTrace role}
    (standing : tr.r.Standing e) (ran : tr.run e calls = some last) : last.r.Standing e := by
  refine @invariant_of_calls _ _ _ calls tr last (fun tr => tr.r.Standing e)
    (fun tr call next _ standing one => ?_) standing ran
  rw [(TcpTrace.step_eq_some one).1]
  exact exec_standing tcp call standing (TcpTrace.step_alive one)

/-! #### Init calls -/

theorem tcpInit_standing_client (cfg : Cfg) (buf : Bytes) (io : Io) :
    @Tcp.Standing .client e (tcpInit e cfg buf io).2 := by
  unfold tcpInit
  rcases set : tcpClientSetup e cfg with ⟨rc | t,last⟩
  · exact .inr (St.Unused.over ⟨rfl,rfl⟩ rfl)
  obtain ⟨presented,_,before⟩ := tcpClientSetup_ok e set
  have held := congrArg Tls.holding before
  have state := congrArg Tls.state before
  have same := begin_undrawn e (clientStart e (e.build.webpki || e.build.roleServer) t)
  dsimp only
  rcases begun : (do hsfBegin e; hsfBuildClientHello e : Handler (Option Bytes))
    (clientStart e (e.build.webpki || e.build.roleServer) t) with ⟨rc | (_ | hello),c⟩
  · rw [begun] at same
    obtain ⟨unused,start⟩ := St.Unused.of_undrawn
      (s := (blankSt e t buf io).putCore (clientStart e (e.build.webpki || e.build.roleServer) t))
      ⟨held,rfl⟩ state same
    exact .inl (.inl ⟨unused.starting start,.inl rfl⟩)
  · exact .inr (St.Unused.over ⟨rfl,rfl⟩ rfl)
  · rw [begun] at same
    obtain ⟨unused,start⟩ := St.Unused.of_undrawn
      (s := (blankSt e t buf io).putCore (clientStart e (e.build.webpki || e.build.roleServer) t))
      ⟨held,rfl⟩ state same
    exact .inl (.inl ⟨St.Unused.starting ⟨unused.holding,unused.heard⟩ start,.inl rfl⟩)

theorem srvTcpInit_standing (cfg : Cfg) (buf : Bytes) (io : Io) :
    @Tcp.Standing .server e (srvTcpInit e cfg buf io).2 := by
  unfold srvTcpInit
  split
  · exact .inr (St.Unused.over ⟨rfl,rfl⟩ rfl)
  rename_i configured
  have accepted : srvConfigOk e cfg = true := by simpa using configured
  have drawn : Keeps (fun c => c.t.undrawn) (srvBegin e) :=
    .bind (.ite (keeps_pure _) (drawKeyPair_undrawn e)) fun _ => fun _ => rfl
  have same := drawn (srvStart e cfg)
  have steady := srvBegin_steady e (srvStart e cfg)
  rcases begun : srvBegin e (srvStart e cfg) with ⟨result,c⟩
  rw [begun] at same steady
  obtain ⟨unused,start⟩ := St.Unused.of_undrawn
    (s := (blankSt e (Tls.fresh cfg) buf io).putCore (srvStart e cfg)) ⟨rfl,rfl⟩ rfl same
  have starting : ((blankSt e (Tls.fresh cfg) buf io).putCore c).Starting e :=
    unused.starting start
  refine .inl (.inl ⟨starting,.inl ⟨.inl rfl,?_,?_,starting.fresh,starting.state⟩⟩)
  · have kept : c.t.cfg = cfg := congrArg Tls.Kept.cfg steady
    change srvConfigOk e c.t.cfg = true
    rw [kept]
    exact accepted
  · exact congrArg Tls.Kept.peerLimit steady

theorem tcpInit_standing (cfg : Cfg) (buf : Bytes) (io : Io) :
    Tcp.Standing e (role.tcpInit e cfg buf io).2 := by
  cases role with
  | client => exact tcpInit_standing_client cfg buf io
  | server => exact srvTcpInit_standing cfg buf io

end Drivers

/-! ### Every reached state -/

section Reached

def TlsTrace.start (st : St) : TlsTrace := { st := st, returned := [] }

/-- The states of TCP sessions of either role on every TCP transport, between
two calls of the program. -/
inductive TcpReached (e : Env) : St → Prop
  | connected {cfg : Cfg} {buf : Bytes} {io : Io} {calls : List TlsCall} {last : TlsTrace}
      (alive : (tlsConnect e cfg buf io).1 ≠ .error .assertFail)
      (ran : (TlsTrace.start (tlsConnect e cfg buf io).2).run e calls = some last) :
      TcpReached e last.st
  | accepted {cfg : Cfg} {buf : Bytes} {io : Io} {calls : List TlsCall} {last : TlsTrace}
      (alive : (srvAccept e cfg buf io).1 ≠ .error .assertFail)
      (ran : (TlsTrace.start (srvAccept e cfg buf io).2).run e calls = some last) :
      TcpReached e last.st
  | nonblocking {role : Endpoint} {cfg : Cfg} {buf : Bytes} {io : Io} {calls : List TcpCall}
      {last : TcpTrace role}
      (ran : (TcpTrace.start (role.tcpInit e cfg buf io).2).run e calls = some last) :
      TcpReached e last.r.st

variable {e : Env}

theorem TlsTrace.step_st {tr next : TlsTrace} {call : TlsCall} (one : tr.step e call = some next) :
    next.st = (call.exec e tr.st).2 := by
  unfold TlsTrace.step at one
  rcases ran : call.exec e tr.st with ⟨rc | bytes,st⟩
  · rw [ran] at one
    cases rc <;> first
      | cases one; done
      | (cases one; rfl)
  · rw [ran] at one
    cases one
    rfl

theorem TlsTrace.run_between (tcp : e.build.quic = false) {calls : List TlsCall}
    {tr last : TlsTrace} (between : tr.st.Between e) (ran : tr.run e calls = some last) :
    last.st.Between e := by
  refine @invariant_of_calls _ _ _ calls tr last (fun tr => tr.st.Between e)
    (fun tr call next _ between one => ?_) between ran
  rw [TlsTrace.step_st one]
  exact call.exec_between tcp between

/-- A session some run reaches is starting, live or over. -/
theorem TcpReached.between {s : St} (tcp : e.build.quic = false) (reached : TcpReached e s) :
    s.Between e := by
  cases reached with
  | connected alive ran => exact TlsTrace.run_between tcp (tlsConnect_between e tcp alive) ran
  | accepted alive ran => exact TlsTrace.run_between tcp (srvAccept_between e tcp alive) ran
  | nonblocking ran =>
    rcases run_standing tcp (tcpInit_standing _ _ _) ran with (begun | up) | done
    · exact .inl begun.starting
    · exact .inr (.inl up.live)
    · exact .inr (.inr done)

end Reached

end Chapulin
