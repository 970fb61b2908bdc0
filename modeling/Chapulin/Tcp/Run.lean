/-
Runs of a tcp-nonblocking session: the calls of `tcp_nonblocking.h` and `tls.h`
in any order, from either side's init call on.

What the transport gives to `ch_read` is the inbox the session was set up with;
an empty entry of it is a moment at which no bytes were there.
-/

import Chapulin.Lib.Moves
import Chapulin.Server.Nonblocking

namespace Chapulin

open Lib List

namespace Endpoint

/-- The side's init call over a configuration, its buffer and its transport. -/
def tcpInit (e : Env) : (role : Endpoint) → Cfg → Bytes → Io → Except Rc Unit × Tcp role.Step
  | .client => Chapulin.tcpInit e
  | .server => Chapulin.srvTcpInit e

def tcpDriver (e : Env) : (role : Endpoint) → TcpDriver role.Step
  | .client => clientDriver e
  | .server => serverDriver e

/-- `ch_tcp_in` and `ch_srv_tcp_in`. -/
def tcpIn (e : Env) : (role : Endpoint) → Bytes → Tcp role.Step →
    (Except Rc Unit × Nat) × Tcp role.Step
  | .client => Chapulin.tcpIn e
  | .server => Chapulin.srvTcpIn e

def tcpOut : (role : Endpoint) → Nat → Proc (Tcp role.Step) Rc Bytes
  | .client => Chapulin.tcpOut
  | .server => fun _ => Proc.ret []

end Endpoint

inductive TcpCall where
  | input (p : Bytes)
  | output (cap : Nat)
  | read (n : Nat)
  | write (parts : List Bytes)
  | fail (description : Nat)
  | close
  | tcpClose

section TcpRuns

variable (e : Env) {role : Endpoint}

def TcpCall.exec : TcpCall → Proc (Tcp role.Step) Rc Bytes
  | .input p => fun r => ((role.tcpIn e p r).1.1.map fun _ => [], (role.tcpIn e p r).2)
  | .output cap => role.tcpOut cap
  | .read n => onSt (tlsRead e n)
  | .write parts => do
      onSt (tlsWriteParts e parts)
      pure []
  | .fail description => do
      onSt (tlsFail e description)
      pure []
  | .close => fun r => (.ok [], { r with st := Chapulin.tlsClose e r.st })
  | .tcpClose => fun r => (.ok [], Chapulin.tcpClose r)

def TcpCall.data : TcpCall → Bytes → Bytes
  | .read _, bytes => bytes
  | _, _ => []

structure TcpTrace (role : Endpoint) where
  r : Tcp role.Step
  returned : Bytes

def TcpTrace.step (tr : TcpTrace role) (call : TcpCall) : Option (TcpTrace role) :=
  match call.exec e tr.r with
  | (.ok bytes, r) => some { r := r, returned := tr.returned ++ call.data bytes }
  | (.error .assertFail, _) => none
  | (.error _, r) => some { tr with r := r }

def TcpTrace.run (tr : TcpTrace role) (calls : List TcpCall) : Option (TcpTrace role) :=
  calls.foldlM (TcpTrace.step e) tr

def TcpTrace.Meets (may : TcpTrace role → TcpCall → Prop) (tr : TcpTrace role) :
    List TcpCall → Prop
  | [] => True
  | call :: calls => may tr call ∧ ∀ next, tr.step e call = some next → next.Meets may calls

instance TcpTrace.decidableMeets (may : TcpTrace role → TcpCall → Prop)
    [decides : ∀ tr call, Decidable (may tr call)] :
    (tr : TcpTrace role) → (calls : List TcpCall) → Decidable (tr.Meets e may calls)
  | _, [] => inferInstanceAs (Decidable True)
  | tr, call :: calls =>
    match decides tr call with
    | .isFalse refused => .isFalse fun meets => refused meets.1
    | .isTrue allowed =>
      match stepped : tr.step e call with
      | none => .isTrue ⟨allowed,fun _ one => by rw [stepped] at one; cases one⟩
      | some next =>
        match TcpTrace.decidableMeets may next calls with
        | .isTrue rest => .isTrue ⟨allowed,fun other one => by
            rw [stepped] at one
            cases one
            exact rest⟩
        | .isFalse refused => .isFalse fun meets => refused (meets.2 next stepped)

def TcpTrace.start (r : Tcp role.Step) : TcpTrace role := { r := r, returned := [] }

variable {e}

theorem TcpTrace.run_invariant {may : TcpTrace role → TcpCall → Prop} {inv : TcpTrace role → Prop}
    (stepped : ∀ tr call next, may tr call → inv tr → tr.step e call = some next → inv next)
    {calls : List TcpCall} {tr last : TcpTrace role} (meets : tr.Meets e may calls)
    (holds : inv tr) (ran : tr.run e calls = some last) : inv last := by
  induction calls generalizing tr with
  | nil =>
    cases ran
    exact holds
  | cons call calls ih =>
    obtain ⟨next,one,ran⟩ := foldlM_cons_eq_some.mp ran
    exact ih (meets.2 next one) (stepped tr call next meets.1 holds one) ran

theorem TcpTrace.run_append {tr middle last : TcpTrace role} {first second : List TcpCall}
    (before : tr.run e first = some middle) (after : middle.run e second = some last) :
    tr.run e (first ++ second) = some last := by
  rw [TcpTrace.run,foldlM_append]
  exact Option.bind_eq_some_iff.mpr ⟨middle,before,after⟩

theorem TcpTrace.run_one {tr next : TcpTrace role} {call : TcpCall}
    (one : tr.step e call = some next) : tr.run e [call] = some next :=
  foldlM_cons_eq_some.mpr ⟨next,one,rfl⟩

/-- What one call does to the session and to the bytes returned so far. -/
theorem TcpTrace.step_eq_some {tr next : TcpTrace role} {call : TcpCall}
    (stepped : tr.step e call = some next) :
    next.r = (call.exec e tr.r).2 ∧
      ((∃ bytes, (call.exec e tr.r).1 = .ok bytes ∧
          next.returned = tr.returned ++ call.data bytes) ∨
        (∃ rc, rc ≠ .assertFail ∧ (call.exec e tr.r).1 = .error rc ∧
          next.returned = tr.returned)) := by
  unfold TcpTrace.step at stepped
  rcases ran : call.exec e tr.r with ⟨rc | bytes,r⟩
  · rw [ran] at stepped
    by_cases stops : rc = .assertFail
    · subst stops
      cases stepped
    · have went : some { tr with r := r } = some next := by
        rw [← stepped]
        cases rc <;> first | rfl | exact absurd rfl stops
      cases went
      exact ⟨rfl,.inr ⟨rc,stops,rfl,rfl⟩⟩
  · rw [ran] at stepped
    cases stepped
    exact ⟨rfl,.inl ⟨bytes,rfl,rfl⟩⟩

theorem TcpTrace.step_alive {tr next : TcpTrace role} {call : TcpCall}
    (stepped : tr.step e call = some next) : (call.exec e tr.r).1 ≠ .error .assertFail := by
  obtain ⟨_,⟨bytes,ok,_⟩ | ⟨rc,alive,failed,_⟩⟩ := TcpTrace.step_eq_some stepped
  · rw [ok]
    nofun
  · rw [failed]
    exact fun same => alive (Except.error.inj same)

theorem TcpTrace.step_quiet {tr next : TcpTrace role} {call : TcpCall}
    (quiet : ∀ bytes, call.data bytes = []) (stepped : tr.step e call = some next) :
    next.r = (call.exec e tr.r).2 ∧ (call.exec e tr.r).1 ≠ .error .assertFail ∧
      next.returned = tr.returned := by
  obtain ⟨state,⟨bytes,_,returned⟩ | ⟨_,_,_,returned⟩⟩ := TcpTrace.step_eq_some stepped
  · rw [quiet,append_nil] at returned
    exact ⟨state,TcpTrace.step_alive stepped,returned⟩
  · exact ⟨state,TcpTrace.step_alive stepped,returned⟩

end TcpRuns

/-! ### A connected client -/

def sampleTcpCfg : Cfg :=
  { Cfg.unset with
    psk := some (replicate 16 7)
    pskId := some [1]
    bufLen := 1024
    send := true
    recv := true
    rand := fun _ => 1 }

def sampleTcpEnv : Env := .sample (.plain .tcpNonblocking .client)

def sampleTcpRecord (type : Nat) (content : Bytes) : Bytes :=
  let d := recDirInitSuite sampleTcpEnv [] suiteChacha20Poly1305Sha256
  ((recSeal sampleTcpEnv d type content 4096).map Prod.fst).getD []

def sampleTcpInit : Except Rc Unit × Tcp Endpoint.client.Step :=
  Endpoint.client.tcpInit sampleTcpEnv sampleTcpCfg (zeros 1024)
    { inbox := [sampleTcpRecord recAppdata [1,2,3],sampleTcpRecord recAppdata [4,5]]
      sendPlan := [], sent := [], crypto := [], tx := [] }

def sampleTcpFlight : Bytes := [8,0,0,2,0,0] ++ [20,0,0,32] ++ replicate 32 2

def sampleTcpCalls : List TcpCall :=
  [.output 2048,.input (recordHeader recHandshake samplePskHello.length ++ samplePskHello),
    .input (sampleTcpRecord recHandshake sampleTcpFlight),.output 2048]

def sampleTcpRun (more : List TcpCall) : Option (TcpTrace .client) :=
  (TcpTrace.start sampleTcpInit.2).run sampleTcpEnv (sampleTcpCalls ++ more)

/-! ### A connected server -/

def sampleServerEnv (transport : Transport) : Env :=
  .sample { Build.plain transport .server with pin := .ecdsa, mldsaPin := nofun }

def sampleServerCfg : Cfg :=
  { Cfg.unset with
    bufLen := 1024
    send := true
    recv := true
    rand := fun _ => 1
    srv := { Cfg.unset.srv with
      ecdsaP256 :=
        { chain := [[1]], priv := some (replicate 32 1), pub := some (replicate 64 1) }
      cookieKey := some (replicate 32 1)
      onOut := true } }

def sampleExtension (type : Nat) (data : Bytes) : Bytes := be16 type ++ be16 data.length ++ data

/-- A hello for X25519 and ECDSA with the extensions `more`. -/
def sampleHello (sessionId more : Bytes) : Bytes :=
  let exts := sampleExtension extSupportedVersions [2,3,4] ++
    sampleExtension extSupportedGroups [0,2,0,0x1d] ++
    sampleExtension extSignatureAlgorithms [0,2,4,3] ++ more
  let body := [3,3] ++ replicate 32 9 ++ (byte sessionId.length :: sessionId) ++
    [0,2,0x13,0x03,1,0] ++ be16 exts.length ++ exts
  [1,0] ++ be16 body.length ++ body

def sampleFirstHello (sessionId : Bytes) : Bytes :=
  sampleHello sessionId (sampleExtension extKeyShare [0,0])

def sampleShare : Bytes :=
  sampleExtension extKeyShare ([0,36,0,0x1d,0,32] ++ replicate 32 7)

/-- The cookie of the server's HelloRetryRequest; the hash is constant here. -/
def sampleCookie : Bytes :=
  (srvCookieMint (sampleServerEnv .tcpNonblocking) (replicate 32 1)
    suiteChacha20Poly1305Sha256 groupX25519 (replicate 32 1) (replicate 32 1) 32).getD []

def sampleSecondHello (sessionId : Bytes) : Bytes :=
  sampleHello sessionId (sampleShare ++
    sampleExtension extCookie (be16 sampleCookie.length ++ sampleCookie))

def samplePlainRecord (msg : Bytes) : Bytes := recordHeader recHandshake msg.length ++ msg

def sampleFinishedRecord : Bytes :=
  sampleTcpRecord recHandshake ([20,0,0,32] ++ replicate 32 2)

def sampleRetryRecords (sessionId : Bytes) : List Bytes :=
  [samplePlainRecord (sampleFirstHello sessionId),samplePlainRecord (sampleSecondHello sessionId),
    sampleFinishedRecord]

def sampleServerIo : Io := { inbox := [], sendPlan := [], sent := [], crypto := [], tx := [] }

def sampleServerInit : Except Rc Unit × Tcp Endpoint.server.Step :=
  Endpoint.server.tcpInit (sampleServerEnv .tcpNonblocking) sampleServerCfg (zeros 1024)
    sampleServerIo

def sampleServerRun (records : List Bytes) : Option (TcpTrace .server) :=
  (TcpTrace.start sampleServerInit.2).run (sampleServerEnv .tcpNonblocking) (records.map .input)

end Chapulin
