/-
Closing packets (`quic_fail.c`, `ch_quic_seal_close`).

A failed session keeps the write keys of its levels for one closing packet each.
-/

import Chapulin.Quic.Generations

namespace Chapulin

open Lib

variable {role : Endpoint} {e : Env} {level used version pn pnLen cap : Nat} {hdr pt : Bytes}
  {call : QuicCall} {calls : List QuicCall} {q next : Quic role.Step} {tr last : QuicTrace role}

/-- Whether a level's write keys are ready, and the keys; those of an Initial packet are derived
from the connection id. -/
def Quic.writes {Step : Type} (level : Nat) (q : Quic Step) : Bool × Bytes × QuicKeys × QuicHpKey :=
  (q.ready level .write,
    if level = levelInitial then (q.initialDcid, .wiped, .wiped)
    else if level = levelHandshake then ([], q.handshakeTx, q.handshakeHpTx)
    else ([], q.appTx, q.appHpTx))

/-- What is left of a level whose write keys are wiped. -/
def writesGone : Bool × Bytes × QuicKeys × QuicHpKey := (false, [], .wiped, .wiped)

/-- The call seals a packet at the level. -/
def QuicCall.seals (e : Env) (level : Nat) (q : Quic role.Step) (call : QuicCall) : Bool :=
  (call.exec e q).1 == none && match call with
    | .sealPacket used .. | .sealClose used .. => used == level
    | _ => false

/-- The packets a run seals at a level. -/
def QuicTrace.sealed (e : Env) (level : Nat) (tr : QuicTrace role) : List QuicCall → Nat
  | [] => 0
  | call :: calls => (call.seals e level tr.q).toNat +
      ((tr.step e call).elim 0 fun next => next.sealed e level calls)

section Keys

variable (known : level ≤ levelApplication)
include known

theorem levels_eq : level = levelInitial ∨ level = levelHandshake ∨ level = levelApplication := by
  simp only [levelInitial,levelHandshake,levelApplication] at known ⊢
  omega

theorem writes_wiped (among : used ≤ levelApplication) :
    (quicWipeWriteKeys used q).writes level =
      (if level = used then writesGone else q.writes level) ∧
      (quicDiscard used q).2.writes level =
        if level = used then writesGone else q.writes level := by
  rcases levels_eq known with rfl | rfl | rfl <;> rcases levels_eq among with rfl | rfl | rfl <;>
    simp [Quic.writes,Quic.ready,quicWipeWriteKeys,quicDiscard,levelInitial,levelHandshake,
      levelApplication,writesGone]

theorem writes_closed : (quicClose q).writes level = writesGone := by
  change (quicWipeWriteKeys levelApplication (quicWipeWriteKeys levelHandshake
    (quicWipeWriteKeys levelInitial (wipeAllButWriteKeys q)))).writes level = _
  rw [(writes_wiped known _).1,(writes_wiped known _).1,(writes_wiped known _).1]
  · rcases levels_eq known with rfl | rfl | rfl <;> rfl
  all_goals decide

/-- Sealing needs the level's keys and touches no other level's. -/
theorem sealAtLevel_ok {out : Bytes}
    (ran : sealAtLevel e used version pn pnLen hdr pt cap q = (.ok out, next)) :
    used ≤ levelApplication ∧ q.ready used .write = true ∧
      (level ≠ used → next.writes level = q.writes level) := by
  unfold sealAtLevel at ran
  split at ran
  · cases ran
  rename_i admitted
  simp only [Bool.or_eq_true,decide_eq_true_eq,Bool.not_eq_true',not_or,Nat.not_lt,
    Bool.not_eq_false] at admitted
  refine ⟨admitted.1.1,admitted.2,fun other => ?_⟩
  repeat' split at ran
  all_goals cases ran
  all_goals
    rcases levels_eq known with rfl | rfl | rfl <;> first | rfl | exact absurd (Eq.symm ‹_›) other

end Keys

theorem sealAtLevel_error {rc : Rc}
    (ran : sealAtLevel e used version pn pnLen hdr pt cap q = (.error rc, next)) : next = q := by
  unfold sealAtLevel at ran
  repeat' split at ran
  all_goals cases ran <;> rfl

/-- One call of a dead session leaves a level's keys unused or takes them away. -/
theorem QuicCall.exec_writes (known : level ≤ levelApplication) (dead : quicDead q = true) :
    ((call.exec e q).2.writes level = q.writes level ∧ call.seals e level q = false) ∨
      ((call.exec e q).2.writes level = writesGone ∧
        (call.seals e level q = true → q.ready level .write = true)) := by
  have state : q.st.t.state = .closed ∨ q.st.t.state = .failed := by simpa [quicDead] using dead
  cases call with
  | cryptoIn | cryptoOut =>
    cases role <;>
      simp [seals,exec,Endpoint.cryptoIn,quicCryptoIn,srvQuicCryptoIn,Endpoint.cryptoOut,
        quicCryptoOut,Proc.ret,dead]
  | switchVersion =>
    cases role with
    | client =>
        rcases state with state | state <;>
          simp [seals,exec,Endpoint.switchVersion,quicSwitchVersion,switchOpen,state]
    | server => exact .inl ⟨rfl,Bool.and_false _⟩
  | keyUpdate =>
    rcases state with state | state <;> simp [seals,exec,quicKeyUpdate,state]
  | initialKeys | sealPacket | openPacket =>
    simp [seals,exec,exec.returned,quicInitialKeys,quicSeal,quicOpen,dead]
  | dropPreviousKeys => exact .inl ⟨rfl,Bool.and_false _⟩
  | close => exact .inr ⟨writes_closed known,fun _ => by contradiction⟩
  | discard used =>
    simp only [exec,seals,exec.returned_snd,Bool.and_false]
    by_cases among : used ≤ levelApplication
    · rw [(writes_wiped known among).2]
      split <;> simp
    · simp [quicDiscard,Nat.lt_of_not_le among]
  | sealClose used version pn pnLen hdr pt cap =>
    simp only [exec,seals,quicSealClose]
    split
    · exact .inl ⟨rfl,rfl⟩
    split
    · rename_i failed
      rw [sealAtLevel_error failed]
      exact .inl ⟨rfl,rfl⟩
    · rename_i ran
      obtain ⟨among,ready,others⟩ := sealAtLevel_ok known ran
      simp only [exec.returned]
      rw [(writes_wiped known among).1]
      by_cases same : level = used
      · subst same
        rw [if_pos rfl]
        exact .inr ⟨rfl,fun _ => ready⟩
      · rw [if_neg same,others same]
        exact .inl ⟨rfl,by simp [Ne.symm same]⟩

/-- After a session died, whatever is called, a level's write keys are as they were and unused, or
they are gone and sealed at most one packet. -/
theorem quicDead_closes (known : level ≤ levelApplication) (dead : quicDead tr.q = true)
    (ran : tr.run e calls = some last) :
    quicDead last.q = true ∧
      (last.q.writes level = tr.q.writes level ∧ tr.sealed e level calls = 0 ∨
        last.q.writes level = writesGone ∧
          tr.sealed e level calls ≤ (tr.q.ready level .write).toNat) := by
  induction calls generalizing tr with
  | nil =>
    cases ran
    exact ⟨dead,.inl ⟨rfl,rfl⟩⟩
  | cons call calls ih =>
    obtain ⟨next,stepped,ran⟩ := foldlM_cons_eq_some.mp ran
    have moved := (QuicTrace.step_eq_some e stepped).2.1
    obtain ⟨ended,keys⟩ := ih (moved ▸ QuicCall.exec_dead call dead) ran
    refine ⟨ended,?_⟩
    have one := @QuicCall.exec_writes role e level call tr.q known dead
    rw [← moved] at one
    simp only [QuicTrace.sealed,stepped,Option.elim_some]
    change _ ∨ _ ∧ _ ≤ (next.q.writes level).1.toNat at keys
    rcases one with ⟨same,unused⟩ | ⟨gone,used⟩
    · rw [same] at keys
      rw [unused,Bool.toNat_false,Nat.zero_add]
      exact keys
    · -- once the keys are gone no later call seals
      rw [gone] at keys
      have later : next.sealed e level calls = 0 := keys.elim And.right (Nat.le_zero.1 ·.2)
      refine .inr ⟨keys.elim And.left And.left,?_⟩
      rw [later]
      cases sealed : call.seals e level tr.q with
      | true => rw [used sealed]; exact Nat.le_refl 1
      | false => exact Nat.zero_le _

def sampleFailed : QuicTrace .client := .start (quicFail (quicInitialKeys [1] sampleQuicInit.2).2)

/-- The second packet is refused. -/
def sampleCloses : List QuicCall :=
  List.replicate 2 (.sealClose levelInitial quicVersion1 0 1 [0] (zeros 3) 32)

theorem quicDead_closes_twice : ∃ last, sampleFailed.run sampleQuicEnv sampleCloses = some last ∧
    last.q.writes levelInitial = writesGone := by
  obtain ⟨last,ran⟩ : ∃ last, sampleFailed.run sampleQuicEnv sampleCloses = some last :=
    Option.isSome_iff_exists.1 (by decide +kernel)
  refine ⟨last,ran,?_⟩
  rcases (quicDead_closes (Nat.zero_le _) (by rfl) ran).2 with unused | gone
  · exact absurd unused.2 (by decide +kernel)
  · exact gone.1

end Chapulin
