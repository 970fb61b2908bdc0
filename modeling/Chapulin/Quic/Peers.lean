/-
Two QUIC sessions that are connected to each other.

Calls on the two sides come in any order.  The sides share the secrets their
handshake installed, and from there on each keeps its own count of updates.
-/

import Chapulin.Quic.Generations

namespace Chapulin

open Lib List

structure QuicPair (near far : Endpoint) where
  left : QuicTrace near
  right : QuicTrace far

section Pairs

variable {near far : Endpoint} (e f : Env)

def QuicPair.step (pair : QuicPair near far) : QuicCall ⊕ QuicCall → Option (QuicPair near far)
  | .inl call => (pair.left.step e call).map fun left => { pair with left := left }
  | .inr call => (pair.right.step f call).map fun right => { pair with right := right }

def QuicPair.run (pair : QuicPair near far) (calls : List (QuicCall ⊕ QuicCall)) :
    Option (QuicPair near far) :=
  calls.foldlM (QuicPair.step e f) pair

variable {e f}

/-- A run of the pair is a run of each side. -/
theorem QuicPair.run_sides {pair last : QuicPair near far} {calls : List (QuicCall ⊕ QuicCall)}
    (ran : pair.run e f calls = some last) :
    pair.left.run e (calls.filterMap Sum.getLeft?) = some last.left ∧
      pair.right.run f (calls.filterMap Sum.getRight?) = some last.right := by
  induction calls generalizing pair with
  | nil =>
    cases ran
    exact ⟨rfl,rfl⟩
  | cons call calls ih =>
    obtain ⟨next,stepped,ran⟩ := foldlM_cons_eq_some.mp ran
    obtain ⟨left,right⟩ := ih ran
    cases call with
    | inl call =>
      obtain ⟨moved,one,same⟩ := Option.map_eq_some_iff.mp stepped
      cases same
      refine ⟨?_,right⟩
      exact foldlM_cons_eq_some.mpr ⟨moved,one,left⟩
    | inr call =>
      obtain ⟨moved,one,same⟩ := Option.map_eq_some_iff.mp stepped
      cases same
      refine ⟨left,?_⟩
      exact foldlM_cons_eq_some.mpr ⟨moved,one,right⟩

structure QuicPeers {Near Far : Type} (e f : Env) (q : Quic Near) (p : Quic Far) : Prop where
  crypto : e.toCrypto = f.toCrypto
  version : q.st.t.quicNegotiatedVersion = p.st.t.quicNegotiatedVersion
  suite : keySuite e.build q.st.t.suite = keySuite f.build p.st.t.suite
  hashLen : suiteHashLen e.build (keySuite e.build q.st.t.suite) =
    suiteHashLen f.build (keySuite f.build p.st.t.suite)
  written : q.appSecrets.1 = p.appSecrets.2
  read : q.appSecrets.2 = p.appSecrets.1

theorem QuicPeers.symm {Near Far : Type} {q : Quic Near} {p : Quic Far}
    (peers : QuicPeers e f q p) : QuicPeers f e p q :=
  ⟨peers.crypto.symm,peers.version.symm,peers.suite.symm,peers.hashLen.symm,peers.read.symm,
    peers.written.symm⟩

/-- Peers derive the same generations of keys. -/
theorem QuicPeers.ratchet {Near Far : Type} {q : Quic Near} {p : Quic Far}
    (peers : QuicPeers e f q p) : q.ratchet e = p.ratchet f := by
  have expand : e.hkdfExpandLabel = f.hkdfExpandLabel :=
    congrArg Crypto.hkdfExpandLabel peers.crypto
  have next : quicNextSecret e q.st.t.quicNegotiatedVersion q.st.t.suite =
      quicNextSecret f p.st.t.quicNegotiatedVersion p.st.t.suite := by
    funext secret
    unfold quicNextSecret
    rw [expand,peers.hashLen,peers.version]
  have keys : ∀ secret,
      quicKeysInitSuite e q.st.t.quicNegotiatedVersion secret q.st.t.suite =
        quicKeysInitSuite f p.st.t.quicNegotiatedVersion secret p.st.t.suite := by
    intro secret
    unfold quicKeysInitSuite
    dsimp only
    rw [expand,peers.hashLen,peers.suite,peers.version]
  rw [Quic.ratchet,Quic.ratchet,quicRatchet,quicRatchet,next,funext keys]

theorem QuicPeers.of_installation {Near Far : Type} {q q' : Quic Near} {p p' : Quic Far}
    (peers : QuicPeers e f q p) (near : q'.installation = q.installation)
    (far : p'.installation = p.installation) : QuicPeers e f q' p' := by
  simp only [Quic.installation,Prod.mk.injEq] at near far
  obtain ⟨suite,version,secrets,_⟩ := near
  obtain ⟨suite',version',secrets',_⟩ := far
  constructor
  · exact peers.crypto
  · rw [version,version']
    exact peers.version
  · rw [suite,suite']
    exact peers.suite
  · rw [suite,suite']
    exact peers.hashLen
  · rw [secrets,secrets']
    exact peers.written
  · rw [secrets,secrets']
    exact peers.read

/-- The read set of the peer that a side's write keys are, by how far apart the
two are in their updates. -/
def WritesInto (side : QuicTrace near) (peer : QuicTrace far) : Prop :=
  (side.updates = peer.updates → side.q.appTx.material = peer.q.appRx.current) ∧
  (side.updates = peer.updates + 1 → side.q.appTx.material = peer.q.appRx.next) ∧
  (side.updates + 1 = peer.updates → peer.kept = true →
    side.q.appTx.material = peer.q.appRx.previous)

theorem writesInto_of_generations {side : QuicTrace near} {peer : QuicTrace far}
    (sends : Generations e side.q side.updates side.kept)
    (receives : Generations f peer.q peer.updates peer.kept) (peers : QuicPeers e f side.q peer.q) :
    WritesInto side peer := by
  have writes := sends.sends
  rw [peers.ratchet,peers.written] at writes
  exact ⟨writes.eq_current receives.receives,writes.eq_upcoming receives.receives,
    fun trails kept => writes.eq_previous (receives.retains kept) trails⟩

structure UpdatedFrom (e : Env) (before side : QuicTrace near) : Prop where
  ahead : side.q.appRx.next =
    quicKeysInitSuite e side.q.st.t.quicNegotiatedVersion side.q.st.t.rdSecret side.q.st.t.suite
  phase : ∀ first, ((quicClearFirst levelApplication side.q.keyPhase.toNat first &&& 0x04) >>>
    2).toNat = side.updates % 2
  hpTx : side.q.appHpTx = before.q.appHpTx
  hpRx : side.q.appHpRx = before.q.appHpRx

theorem quicClearFirst_phase {keyPhase : Nat} (bit : keyPhase < 2) (first : UInt8) :
    ((quicClearFirst levelApplication keyPhase first &&& 0x04) >>> 2).toNat = keyPhase := by
  rcases first with ⟨bits⟩
  obtain rfl | rfl : keyPhase = 0 ∨ keyPhase = 1 := by omega
  · revert bits
    decide +kernel
  · revert bits
    decide +kernel

theorem updatedFrom_of_generations {before side : QuicTrace near}
    (holds : Generations e side.q side.updates side.kept)
    (same : side.q.installation = before.q.installation) : UpdatedFrom e before side where
  ahead := holds.receives.keys_ahead
  phase first := by
    rw [quicClearFirst_phase (holds.phase ▸ Nat.mod_lt _ (by decide)),holds.phase]
  hpTx := congrArg (fun installed => installed.2.2.2.1) same
  hpRx := congrArg (fun installed => installed.2.2.2.2) same

end Pairs

/-- Two connected sessions with any interleaving of calls behind them: whatever
updates either side made, its write keys are the read set of the other that the
difference of the counts names. -/
theorem keyUpdates_agree {near far : Endpoint} {e f : Env} {cfg cfg' : Cfg} {buf buf' : Bytes}
    {plan plan' : List Nat} {q : Quic near.Step} {p : Quic far.Step}
    (began : near.init e cfg buf plan = (.ok (), q))
    (began' : far.init f cfg' buf' plan' = (.ok (), p))
    {calls more : List (QuicCall ⊕ QuicCall)} {pair last : QuicPair near far}
    (keeps : ∀ call ∈ calls ++ more,
      call ≠ .inl (.discard levelApplication) ∧ call ≠ .inr (.discard levelApplication))
    (ran : QuicPair.run e f ⟨.start q,.start p⟩ calls = some pair)
    (connected : pair.left.q.st.t.state = .connected ∧ pair.right.q.st.t.state = .connected)
    (peers : QuicPeers e f pair.left.q pair.right.q) (went : pair.run e f more = some last)
    (still : last.left.q.st.t.state = .connected ∧ last.right.q.st.t.state = .connected) :
    WritesInto last.left last.right ∧ WritesInto last.right last.left ∧
      UpdatedFrom e pair.left last.left ∧ UpdatedFrom f pair.right last.right := by
  have nearKeeps : ∀ list, list ⊆ calls ++ more →
      ∀ call ∈ list.filterMap Sum.getLeft?, QuicCall.KeepsLevel call := by
    intro list within call among
    obtain ⟨side,member,is⟩ := mem_filterMap.mp among
    rw [Sum.getLeft?_eq_some_iff] at is
    rintro rfl
    exact (keeps side (within member)).1 is
  have farKeeps : ∀ list, list ⊆ calls ++ more →
      ∀ call ∈ list.filterMap Sum.getRight?, QuicCall.KeepsLevel call := by
    intro list within call among
    obtain ⟨side,member,is⟩ := mem_filterMap.mp among
    rw [Sum.getRight?_eq_some_iff] at is
    rintro rfl
    exact (keeps side (within member)).2 is
  have head : calls ⊆ calls ++ more := subset_append_left _ _
  have tail : more ⊆ calls ++ more := subset_append_right _ _
  obtain ⟨ranNear,ranFar⟩ := QuicPair.run_sides ran
  obtain ⟨wentNear,wentFar⟩ := QuicPair.run_sides went
  have keyedNear := (QuicTrace.run_tracked began (nearKeeps calls head) ranNear).keyed connected.1
  have keyedFar := (QuicTrace.run_tracked began' (farKeeps calls head) ranFar).keyed connected.2
  obtain ⟨lastNear,sameNear⟩ :=
    QuicTrace.run_keyed (nearKeeps more tail) keyedNear wentNear still.1
  obtain ⟨lastFar,sameFar⟩ := QuicTrace.run_keyed (farKeeps more tail) keyedFar wentFar still.2
  have paired := peers.of_installation sameNear sameFar
  exact ⟨writesInto_of_generations lastNear.keys lastFar.keys paired,
    writesInto_of_generations lastFar.keys lastNear.keys paired.symm,
    updatedFrom_of_generations lastNear.keys sameNear,
    updatedFrom_of_generations lastFar.keys sameFar⟩

/-! ### A connected pair -/

def sampleEcdsaBuild (role : Role) : Build :=
  { Build.plain .quic role with pin := .ecdsa, mldsaPin := nofun }

def sampleNearEnv : Env := .sample (sampleEcdsaBuild .client)

def sampleFarEnv : Env := .sample (sampleEcdsaBuild .server)

def samplePairCfg : Cfg :=
  { Cfg.unset with
    bufLen := 1024
    rand := fun _ => 1
    alpnProtocols := [[0x68,0x33]]
    quicOriginalVersion := quicVersion1
    transportParams := [1]
    onLevelReady := true }

def sampleServerSlots : SrvCfg :=
  { Cfg.unset.srv with
    ecdsaP256 :=
      { chain := [[1]], priv := some (replicate 32 1), pub := some (replicate 64 1) }
    cookieKey := some (replicate 32 1)
    onOut := true }

def sampleNear : Except Rc Unit × Quic Endpoint.client.Step :=
  Endpoint.client.init sampleNearEnv
    { samplePairCfg with serverPubkey := some (replicate 64 1) } (zeros 1024) []

def sampleFar : Except Rc Unit × Quic Endpoint.server.Step :=
  Endpoint.server.init sampleFarEnv { samplePairCfg with srv := sampleServerSlots } (zeros 1024) []

def stagedCrypto (q : ClientQuic) : Bytes := q.st.io.tx.take q.txLen

def sentCrypto (level : Nat) (q : ServerQuic) : Bytes :=
  ((q.st.io.crypto.filter (·.1 == level)).map Prod.snd).flatten

def sampleFarFlight : ServerQuic :=
  (srvQuicCryptoIn sampleFarEnv levelInitial (stagedCrypto sampleNear.2) sampleFar.2).2

/-- The handshake of the two, message by message; a Finished is constant here. -/
def sampleHandshake : List (QuicCall ⊕ QuicCall) :=
  [.inl (.cryptoOut levelInitial 2048),.inr (.cryptoIn levelInitial (stagedCrypto sampleNear.2)),
    .inl (.cryptoIn levelInitial (sentCrypto levelInitial sampleFarFlight)),
    .inl (.cryptoIn levelHandshake (sentCrypto levelHandshake sampleFarFlight)),
    .inl (.cryptoOut levelHandshake 2048),
    .inr (.cryptoIn levelHandshake ([20,0,0,32] ++ replicate 32 2))]

def samplePair : Option (QuicPair .client .server) :=
  QuicPair.run sampleNearEnv sampleFarEnv ⟨.start sampleNear.2,.start sampleFar.2⟩ sampleHandshake

def sampleUpdates : List (QuicCall ⊕ QuicCall) :=
  [.inl .keyUpdate,.inr .keyUpdate,.inl .keyUpdate]

theorem keyUpdates_agree_sample : ∃ pair last, samplePair = some pair ∧
    pair.run sampleNearEnv sampleFarEnv sampleUpdates = some last ∧
    last.left.updates = 2 ∧ last.right.updates = 1 ∧
    last.left.q.appTx.material = last.right.q.appRx.next ∧
    last.right.q.appTx.material = last.left.q.appRx.previous := by
  obtain ⟨pair,ran⟩ := Option.isSome_iff_exists.mp
    (by decide +kernel : samplePair.isSome = true)
  obtain ⟨last,went⟩ := Option.isSome_iff_exists.mp
    (by decide +kernel : (samplePair.bind fun pair =>
      pair.run sampleNearEnv sampleFarEnv sampleUpdates).isSome = true)
  have counts : (samplePair.bind fun pair =>
      pair.run sampleNearEnv sampleFarEnv sampleUpdates).map (fun last =>
        decide (last.left.updates = 2 ∧ last.right.updates = 1 ∧ last.left.kept = true ∧
          last.left.q.st.t.state = .connected ∧ last.right.q.st.t.state = .connected)) =
      some true := by decide +kernel
  have agreed : samplePair.map (fun pair =>
      decide ((pair.left.q.st.t.state = .connected ∧ pair.right.q.st.t.state = .connected) ∧
        pair.left.q.st.t.quicNegotiatedVersion = pair.right.q.st.t.quicNegotiatedVersion ∧
        keySuite sampleNearEnv.build pair.left.q.st.t.suite =
          keySuite sampleFarEnv.build pair.right.q.st.t.suite ∧
        suiteHashLen sampleNearEnv.build (keySuite sampleNearEnv.build pair.left.q.st.t.suite) =
          suiteHashLen sampleFarEnv.build (keySuite sampleFarEnv.build pair.right.q.st.t.suite) ∧
        pair.left.q.appSecrets.1 = pair.right.q.appSecrets.2 ∧
        pair.left.q.appSecrets.2 = pair.right.q.appSecrets.1)) = some true := by decide +kernel
  rw [ran] at went counts agreed
  rw [Option.bind_some] at went counts
  rw [went] at counts
  obtain ⟨left,right,kept,still⟩ := of_decide_eq_true (Option.some.inj counts)
  obtain ⟨connected,version,suite,hashLen,written,read⟩ :=
    of_decide_eq_true (Option.some.inj agreed)
  have began : sampleNear = (.ok (), sampleNear.2) := eq_ok_of_toBool (by decide +kernel)
  have began' : sampleFar = (.ok (), sampleFar.2) := eq_ok_of_toBool (by decide +kernel)
  have keeps : ∀ call ∈ sampleHandshake ++ sampleUpdates,
      call ≠ .inl (.discard levelApplication) ∧ call ≠ .inr (.discard levelApplication) := by
    simp [sampleHandshake,sampleUpdates]
  have result := keyUpdates_agree began began' keeps ran connected
    ⟨rfl,version,suite,hashLen,written,read⟩ went still
  refine ⟨pair,last,ran,went,left,right,result.1.2.1 ?_,result.2.1.2.2 ?_ kept⟩
  · rw [left,right]
  · rw [left,right]

end Chapulin
