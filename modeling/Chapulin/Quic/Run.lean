/-
Runs of a QUIC session: the calls of `quic.h` in any order, from either role's
init call on.

A run also counts the key updates that were made and notes whether a previous
read set should be there.  A call that fails an assertion ends the program, so
no run goes on behind it.
-/

import Chapulin.Lib.Moves
import Chapulin.Quic.Server

namespace Chapulin

open Lib

namespace Endpoint

/-- The role's init call over a configuration, its buffer and what a server's
output callback answers. -/
def init (e : Env) : (role : Endpoint) → Cfg → Bytes → List Nat → Except Rc Unit × Quic role.Step
  | .client, cfg, buf, _ => quicInit e cfg buf
  | .server, cfg, buf, plan => srvQuicInit e cfg buf plan

def driver (e : Env) : (role : Endpoint) → QuicDriver role.Step
  | .client => quicClientDriver e
  | .server => quicServerDriver e

def cryptoIn (e : Env) : (role : Endpoint) → Nat → Bytes → Proc (Quic role.Step) Rc Unit
  | .client => quicCryptoIn e
  | .server => srvQuicCryptoIn e

/-- `ch_quic_crypto_out`; a server stages nothing. -/
def cryptoOut : (role : Endpoint) → Nat → Nat → Proc (Quic role.Step) Rc Unit
  | .client, level, cap => fun q =>
    match quicCryptoOut level cap q with
    | (.ok _, q) => (.ok (), q)
    | (.error rc, q) => (.error rc, q)
  | .server, _, _ => Proc.ret ()

/-- `ch_quic_switch_version`, a client's call. -/
def switchVersion : (role : Endpoint) → Nat → Proc (Quic role.Step) Rc Unit
  | .client, version => quicSwitchVersion version
  | .server, _ => Proc.stop .einval

end Endpoint

inductive QuicCall where
  | cryptoIn (level : Nat) (p : Bytes)
  | cryptoOut (level cap : Nat)
  | switchVersion (version : Nat)
  | initialKeys (dcid : Bytes)
  | discard (level : Nat)
  | keyUpdate
  | dropPreviousKeys
  | sealPacket (level version pn pnLen : Nat) (hdr pt : Bytes) (cap : Nat)
  | sealClose (level version pn pnLen : Nat) (hdr pt : Bytes) (cap : Nat)
  | openPacket (level version : Nat) (pkt : Bytes) (pnOff : Nat)
      (largestPn currentPhaseLowestPn : UInt64)
  | close

def QuicCall.updatesKeys : QuicCall → Bool
  | .keyUpdate => true
  | _ => false

def QuicCall.dropsKeys : QuicCall → Bool
  | .dropPreviousKeys => true
  | _ => false

section QuicRuns

variable (e : Env)

def QuicCall.exec {role : Endpoint} : QuicCall → Quic role.Step → Option Rc × Quic role.Step
  | .cryptoIn level p, q => returned (role.cryptoIn e level p q)
  | .cryptoOut level cap, q => returned (role.cryptoOut level cap q)
  | .switchVersion version, q => returned (role.switchVersion version q)
  | .initialKeys dcid, q => returned (quicInitialKeys dcid q)
  | .discard level, q => returned (quicDiscard level q)
  | .keyUpdate, q => returned (quicKeyUpdate e q)
  | .dropPreviousKeys, q => (none, quicDropPreviousKeys q)
  | .sealPacket level version pn pnLen hdr pt cap, q =>
    returned (quicSeal e level version pn pnLen hdr pt cap q)
  | .sealClose level version pn pnLen hdr pt cap, q =>
    returned (quicSealClose e level version pn pnLen hdr pt cap q)
  | .openPacket level version pkt pnOff largestPn currentPhaseLowestPn, q =>
    returned (quicOpen e level version pkt pnOff largestPn currentPhaseLowestPn q)
  | .close, q => (none, quicClose q)
where
  /-- The code of a result, none for `CH_OK`. -/
  returned {α : Type} {role : Endpoint} : Except Rc α × Quic role.Step → Option Rc × Quic role.Step
    | (.ok _, q) => (none, q)
    | (.error rc, q) => (some rc, q)

@[simp] theorem QuicCall.exec.returned_snd {α : Type} {role : Endpoint}
    (result : Except Rc α × Quic role.Step) : (returned result).2 = result.2 := by
  rcases result with ⟨_ | _,q⟩ <;> rfl

theorem QuicCall.exec.returned_fst {α : Type} {role : Endpoint}
    {result : Except Rc α × Quic role.Step} {rc : Rc} (alive : (returned result).1 ≠ some rc) :
    result.1 ≠ .error rc := by
  rcases result with ⟨_ | _,q⟩
  · rintro ⟨⟩
    exact alive rfl
  · rintro ⟨⟩

/-- A session with the history of its key updates: how many were made, and
whether one was made since the previous read set was last dropped. -/
structure QuicTrace (role : Endpoint) where
  q : Quic role.Step
  updates : Nat
  kept : Bool

def QuicTrace.step {role : Endpoint} (tr : QuicTrace role) (call : QuicCall) :
    Option (QuicTrace role) :=
  match call.exec e tr.q with
  | (some .assertFail, _) => none
  | (code, q) =>
    let updated := call.updatesKeys && code == none
    some { q := q
           updates := if updated then tr.updates + 1 else tr.updates
           kept := if updated then true
             else if call.dropsKeys then false else tr.kept }

/-- What one call does to the session and to the record kept of it. -/
theorem QuicTrace.step_eq_some {role : Endpoint} {tr next : QuicTrace role} {call : QuicCall}
    (stepped : tr.step e call = some next) :
    (call.exec e tr.q).1 ≠ some .assertFail ∧ next.q = (call.exec e tr.q).2 ∧
      (call ≠ .keyUpdate ∨ (call.exec e tr.q).1 ≠ none →
        next.updates = tr.updates ∧
          next.kept = if call.dropsKeys then false else tr.kept) ∧
      (call = .keyUpdate → (call.exec e tr.q).1 = none →
        next.updates = tr.updates + 1 ∧ next.kept = true) := by
  unfold QuicTrace.step at stepped
  rcases ran : call.exec e tr.q with ⟨code,q⟩
  rw [ran] at stepped
  dsimp only at stepped ⊢
  split at stepped
  · cases stepped
  rename_i alive given
  cases given
  cases stepped
  refine ⟨alive,rfl,?_,?_⟩
  · intro otherwise
    have quiet : (call.updatesKeys && code == none) = false := by
      rcases otherwise with other | failed
      · cases call <;> first | rfl | exact absurd rfl other
      · cases code with
        | none => exact absurd rfl failed
        | some rc => exact Bool.and_false _
    simp only [quiet,Bool.false_eq_true,if_false,and_self]
  · rintro rfl rfl
    exact ⟨rfl,rfl⟩

def QuicTrace.run {role : Endpoint} (tr : QuicTrace role) (calls : List QuicCall) :
    Option (QuicTrace role) :=
  calls.foldlM (QuicTrace.step e) tr

def QuicTrace.start {role : Endpoint} (q : Quic role.Step) : QuicTrace role :=
  { q := q, updates := 0, kept := false }

end QuicRuns

/-! ### Rules for handshake input -/

section QuicInput

variable {Step : Type} {inv : Quic Step → Prop}

/-- What holds after a call over handshake bytes: the invariant still does, or
the session failed. -/
def Settled (inv : Quic Step → Prop) (q : Quic Step) : Prop := inv q ∨ ∃ before, q = quicFail before

theorem settled_fail (q : Quic Step) : Settled inv (quicFail q) := .inr ⟨q,rfl⟩

theorem QuicDriver.turn_preserves {d : QuicDriver Step} {left : Bytes}
    {more : Proc (Quic Step) Rc Unit}
    (advanced : ∀ q next, inv q → d.advance q = (.ok (), next) → inv next)
    (goesOn : ∀ q, inv q → (more q).1 ≠ .error .assertFail → Settled inv (more q).2)
    {q : Quic Step} (holds : inv q) (alive : (d.turn left more q).1 ≠ .error .assertFail) :
    Settled inv (d.turn left more q).2 := by
  unfold QuicDriver.turn at alive ⊢
  generalize hsrPeekMessage q.st.t.cfg.bufLen q.st.rx.window = front at alive ⊢
  rcases front with ⟨rc,alert⟩ | (_ | raw)
  · exact settled_fail _
  · exact .inl holds
  dsimp only at alive ⊢
  rcases ran : d.advance q with ⟨rc | _,next⟩
  · have known : rc ≠ .assertFail := by
      rintro rfl
      simp [ran] at alive
    simpa only [QuicDriver.stopped,known,if_false] using settled_fail next
  · rw [ran] at alive
    dsimp only at alive ⊢
    split
    · exact settled_fail _
    · rename_i open'
      rw [if_neg open'] at alive
      exact goesOn next (advanced q next holds ran) alive

/-- What feeding and a completed step preserve, the loop over the bytes of a
call preserves. -/
theorem QuicDriver.driveLoop_preserves {d : QuicDriver Step}
    (fed : ∀ q rx, inv q → inv { q with st := { q.st with rx := rx } })
    (advanced : ∀ q next, inv q → d.advance q = (.ok (), next) → inv next) (fuel : Nat)
    (p : Bytes) {q : Quic Step} (holds : inv q)
    (alive : (d.driveLoop fuel p q).1 ≠ .error .assertFail) :
    Settled inv (d.driveLoop fuel p q).2 := by
  induction fuel generalizing p q with
  | zero => exact .inl holds
  | succ fuel ih =>
    exact QuicDriver.turn_preserves advanced (fun _ start => ih _ start) (fed q _ holds) alive

theorem QuicDriver.atLevel_preserves {d : QuicDriver Step}
    (fed : ∀ q rx, inv q → inv { q with st := { q.st with rx := rx } })
    (advanced : ∀ q next, inv q → d.advance q = (.ok (), next) → inv next) (level : Nat)
    (p : Bytes) {q : Quic Step} (holds : inv q)
    (alive : (d.atLevel level p q).1 ≠ .error .assertFail) :
    Settled inv (d.atLevel level p q).2 := by
  unfold QuicDriver.atLevel at alive ⊢
  split
  · split
    · exact .inl holds
    · exact settled_fail _
  split
  · exact settled_fail _
  rename_i notAbove notBelow
  rw [if_neg notAbove,if_neg notBelow] at alive
  exact QuicDriver.driveLoop_preserves fed advanced _ p holds alive

theorem Endpoint.cryptoIn_preserves {e : Env} {role : Endpoint} {inv : Quic role.Step → Prop}
    (fed : ∀ q rx, inv q → inv { q with st := { q.st with rx := rx } })
    (advanced : ∀ q next, inv q → (role.driver e).advance q = (.ok (), next) → inv next)
    (level : Nat) (p : Bytes) {q : Quic role.Step} (holds : inv q)
    (alive : (role.cryptoIn e level p q).1 ≠ .error .assertFail) :
    Settled inv (role.cryptoIn e level p q).2 := by
  cases role with
  | client =>
    simp only [Endpoint.cryptoIn,quicCryptoIn] at alive ⊢
    split
    · exact .inl holds
    split
    · exact .inl holds
    rename_i live known
    rw [if_neg live,if_neg known] at alive
    exact QuicDriver.atLevel_preserves fed advanced level p holds alive
  | server =>
    simp only [Endpoint.cryptoIn,srvQuicCryptoIn] at alive ⊢
    split
    · exact .inl holds
    split
    · exact .inl holds
    rename_i live known
    rw [if_neg live,if_neg known] at alive
    exact QuicDriver.atLevel_preserves fed advanced level p holds alive

end QuicInput

/-! ### A connected client -/

def sampleQuicCfg : Cfg :=
  { Cfg.unset with
    psk := some (List.replicate 16 7)
    pskId := some [1]
    bufLen := 1024
    rand := fun _ => 1
    alpnProtocols := [[0x68,0x33]]
    quicOriginalVersion := quicVersion1
    transportParams := [1]
    onLevelReady := true }

/-- EncryptedExtensions with the protocol and the parameters, then Finished. -/
def samplePskFlight : Bytes :=
  [8,0,0,16,0,14,0,16,0,5,0,3,2,0x68,0x33,0,0x39,0,1,1] ++
    [20,0,0,32] ++ List.replicate 32 2

def sampleQuicCalls : List QuicCall :=
  [.cryptoOut levelInitial 2048,.cryptoIn levelInitial samplePskHello,
    .cryptoIn levelHandshake samplePskFlight,.cryptoOut levelHandshake 2048]

def sampleQuicEnv : Env := .sample (.plain .quic .client)

def sampleQuicInit : Except Rc Unit × Quic Endpoint.client.Step :=
  Endpoint.client.init sampleQuicEnv sampleQuicCfg (zeros 1024) []

def sampleQuicRun (more : List QuicCall) : Option (QuicTrace .client) :=
  (QuicTrace.start sampleQuicInit.2).run sampleQuicEnv (sampleQuicCalls ++ more)

theorem sampleQuicInit_ok : sampleQuicInit = (.ok (), sampleQuicInit.2) :=
  eq_ok_of_toBool (by decide +kernel)

end Chapulin
