/-
A chain of secrets with the keys each of them stands for.

A sender holds the keys of one secret and a receiver those of two in a row, with
the secret of the later ones.  Each moves on when it likes, so the two may be
apart; what they share is the secret they started from.
-/

import Mathlib.Logic.Function.Iterate

namespace Chapulin.Lib

structure Ratchet (σ κ : Type) where
  next : σ → σ
  keys : σ → κ

namespace Ratchet

variable {σ κ : Type} (chain : Ratchet σ κ)

def secretAt (seed : σ) (n : Nat) : σ := chain.next^[n] seed

def keysAt (seed : σ) (n : Nat) : κ := chain.keys (chain.secretAt seed n)

theorem secretAt_succ (seed : σ) (n : Nat) :
    chain.secretAt seed (n + 1) = chain.next (chain.secretAt seed n) :=
  Function.iterate_succ_apply' _ _ _

structure Sends (seed : σ) (n : Nat) (secret : σ) (keys : κ) : Prop where
  secret_eq : secret = chain.secretAt seed n
  keys_eq : keys = chain.keysAt seed n

structure Receives (seed : σ) (n : Nat) (ahead : σ) (current upcoming : κ) : Prop where
  ahead_eq : ahead = chain.secretAt seed (n + 1)
  current_eq : current = chain.keysAt seed n
  upcoming_eq : upcoming = chain.keysAt seed (n + 1)

def Retains (seed : σ) (n : Nat) (previous : κ) : Prop :=
  ∃ before, n = before + 1 ∧ previous = chain.keysAt seed before

variable {chain} {seed : σ} {n m : Nat} {secret ahead : σ} {keys current upcoming previous : κ}

theorem sends_start : chain.Sends seed 0 seed (chain.keys seed) := ⟨rfl,rfl⟩

theorem receives_start :
    chain.Receives seed 0 (chain.next seed) (chain.keys seed) (chain.keys (chain.next seed)) :=
  ⟨rfl,rfl,rfl⟩

theorem Sends.update (sends : chain.Sends seed n secret keys) :
    chain.Sends seed (n + 1) (chain.next secret) (chain.keys (chain.next secret)) := by
  have moved : chain.next secret = chain.secretAt seed (n + 1) := by
    rw [sends.secret_eq,secretAt_succ]
  exact ⟨moved,congrArg chain.keys moved⟩

/-- An update makes the next generation current. -/
theorem Receives.update (receives : chain.Receives seed n ahead current upcoming) :
    chain.Receives seed (n + 1) (chain.next ahead) upcoming (chain.keys (chain.next ahead)) := by
  have moved : chain.next ahead = chain.secretAt seed (n + 2) := by
    rw [receives.ahead_eq,← secretAt_succ]
  exact ⟨moved,receives.upcoming_eq,congrArg chain.keys moved⟩

theorem Receives.retains (receives : chain.Receives seed n ahead current upcoming) :
    chain.Retains seed (n + 1) current := ⟨n,rfl,receives.current_eq⟩

theorem Receives.keys_ahead (receives : chain.Receives seed n ahead current upcoming) :
    upcoming = chain.keys ahead := by
  rw [receives.upcoming_eq,receives.ahead_eq]
  rfl

/-! ### A sender and its receiver -/

theorem Sends.eq_current (sends : chain.Sends seed n secret keys)
    (receives : chain.Receives seed m ahead current upcoming) (level : n = m) : keys = current := by
  rw [sends.keys_eq,receives.current_eq,level]

theorem Sends.eq_upcoming (sends : chain.Sends seed n secret keys)
    (receives : chain.Receives seed m ahead current upcoming) (leads : n = m + 1) :
    keys = upcoming := by
  rw [sends.keys_eq,receives.upcoming_eq,leads]

theorem Sends.eq_previous (sends : chain.Sends seed n secret keys)
    (retains : chain.Retains seed m previous) (trails : n + 1 = m) : keys = previous := by
  obtain ⟨before,count,kept⟩ := retains
  rw [sends.keys_eq,kept,Nat.succ.inj (trails.trans count)]

end Ratchet

end Chapulin.Lib
