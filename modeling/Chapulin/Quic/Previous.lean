/-
The previous read set of a QUIC session.

Before the first key update, and again once it was dropped, the set is wiped
storage: a key and an IV of zeros.  The packet code selects it like the other
two and opens with whatever it holds, so a packet of the old phase is refused
exactly when it is not one that was sealed under zeros.
-/

import Chapulin.Quic.Generations

namespace Chapulin

open Lib

/-! ### What a step does to the read sets -/

section ReadSets

variable (e : Env) {inv : QuicKeySets → Prop}

def Installs (inv : QuicKeySets → Prop) : Prop :=
  ∀ sets version current next suite nextSuite, inv sets →
    inv { sets with
      current := quicKeysInitSuite e version current suite
      next := quicKeysInitSuite e version next nextSuite }

theorem advance_sets (installs : Installs e inv) {role : Endpoint} {q next : Quic role.Step}
    (holds : inv q.appRx) (ran : (role.driver e).advance q = (.ok (), next)) : inv next.appRx := by
  by_cases late : role.installed q.step
  · have same : next.appRx = q.appRx :=
      congrArg (fun keyed => keyed.2.2.1) (advance_late e late ran).2
    exact same ▸ holds
  rcases advance_waits e late ran with ⟨_,same⟩ | ⟨before,sets,_,keyed⟩
  · have same : next.appRx = q.appRx := congrArg (fun waiting => waiting.2.2) same
    exact same ▸ holds
  · have derived : next.appRx = (deriveApplicationKeys e before).appRx :=
      congrArg (fun keyed => keyed.2.2.1) keyed
    have same : before.appRx = q.appRx := congrArg Prod.snd sets
    rw [derived]
    exact installs before.appRx _ _ _ _ _ (same ▸ holds)

end ReadSets

/-- Every call but a key update keeps a property of the read sets that wiping
and installing them keep. -/
theorem QuicCall.exec_sets {e : Env} {role : Endpoint} {inv : QuicKeySets → Prop}
    (installs : Installs e inv) (wiped : inv .wiped)
    (dropped : ∀ sets, inv sets → inv { sets with previous := .wiped }) {call : QuicCall}
    (other : call ≠ .keyUpdate) {q : Quic role.Step} (holds : inv q.appRx)
    (alive : (call.exec e q).1 ≠ some .assertFail) : inv (call.exec e q).2.appRx := by
  rcases call.rests_or with rests | ⟨level,p,rfl⟩ | rfl | rfl | rfl
  · rcases QuicCall.exec_rests rests q with ended | rested
    · rw [ended.2]
      exact wiped
    · have same : (call.exec e q).2.appRx = q.appRx := congrArg Prod.snd rested.sets
      exact same ▸ holds
  · simp only [QuicCall.exec,QuicCall.exec.returned_snd] at alive ⊢
    have settled := @Endpoint.cryptoIn_preserves e role (fun q => inv q.appRx)
      (fun _ _ given => given) (fun q next given ran => advance_sets e installs given ran) level p q
      holds (QuicCall.exec.returned_fst alive)
    rcases settled with kept | ⟨before,failed⟩
    · exact kept
    · rw [failed,quicFail_sets]
      exact wiped
  · exact absurd rfl other
  · exact dropped _ holds
  · exact wiped

/-! ### The previous set over a run -/

theorem wiped_sized : QuicKeySets.wiped.Sized := by
  refine ⟨⟨?_,?_⟩,⟨?_,?_⟩,?_,?_⟩ <;> rfl

theorem quicKeysInitSuite_sized (e : Env) (version : Nat) (secret : Bytes) (suite : Nat) :
    (quicKeysInitSuite e version secret suite).Sized :=
  ⟨fitTo_length _ _,fitTo_length _ _⟩

def QuicKeySets.WithoutPrevious (sets : QuicKeySets) : Prop :=
  sets.Sized ∧ sets.previous = .wiped

section PreviousRuns

variable {e : Env} {role : Endpoint}

theorem sized_installs : Installs e QuicKeySets.Sized :=
  fun _ _ _ _ _ _ sized =>
    ⟨sized.1,quicKeysInitSuite_sized e _ _ _,quicKeysInitSuite_sized e _ _ _⟩

theorem withoutPrevious_installs : Installs e QuicKeySets.WithoutPrevious :=
  fun sets _ _ _ _ _ holds => ⟨sized_installs sets _ _ _ _ _ holds.1,holds.2⟩

theorem QuicKeySets.Sized.dropped {sets : QuicKeySets} (sized : sets.Sized) :
    QuicKeySets.WithoutPrevious { sets with previous := .wiped } :=
  ⟨⟨wiped_sized.1,sized.2⟩,rfl⟩

theorem quicKeyUpdate_sized {Step : Type} {q next : Quic Step} (sized : q.appRx.Sized)
    (result : Except Rc Unit) (ran : quicKeyUpdate e q = (result, next)) : next.appRx.Sized := by
  unfold quicKeyUpdate at ran
  split at ran
  · cases ran
    exact sized
  · cases ran
    exact ⟨sized.2.1,sized.2.2,quicKeysInitSuite_sized e _ _ _⟩

theorem quicKeyUpdate_failed {Step : Type} {q next : Quic Step} {rc : Rc}
    (ran : quicKeyUpdate e q = (.error rc, next)) : next = q := by
  unfold quicKeyUpdate at ran
  split at ran
  · cases ran
    rfl
  · cases ran

def QuicTrace.PreviousOk (tr : QuicTrace role) : Prop :=
  tr.q.appRx.Sized ∧ (tr.kept = false → tr.q.appRx.previous = .wiped)

/-- A call keeps the previous keys sized, and wiped once they are dropped. -/
theorem QuicTrace.step_previousOk {tr next : QuicTrace role} {call : QuicCall}
    (holds : tr.PreviousOk) (stepped : tr.step e call = some next) : next.PreviousOk := by
  obtain ⟨alive,state,plain,updated⟩ := QuicTrace.step_eq_some e stepped
  by_cases update : call = .keyUpdate
  · subst update
    rcases ran : quicKeyUpdate e tr.q with ⟨rc | _,q⟩
    · simp only [QuicCall.exec,ran,QuicCall.exec.returned] at state plain
      have history := plain (.inr (Option.some_ne_none rc))
      unfold QuicTrace.PreviousOk
      rw [state,quicKeyUpdate_failed ran,history.2]
      exact holds
    · simp only [QuicCall.exec,ran,QuicCall.exec.returned] at state updated
      refine ⟨?_,fun unkept => ?_⟩
      · rw [state]
        exact quicKeyUpdate_sized holds.1 _ ran
      · rw [(updated trivial trivial).2] at unkept
        cases unkept
  · have history := (plain (.inl update)).2
    have sized : (call.exec e tr.q).2.appRx.Sized :=
      QuicCall.exec_sets sized_installs wiped_sized (fun _ sized => sized.dropped.1) update
        holds.1 alive
    refine ⟨state ▸ sized,fun unkept => ?_⟩
    rw [state]
    cases drops : call.dropsKeys with
    | true =>
      cases call with
      | dropPreviousKeys => rfl
      | _ => cases drops
    | false =>
      simp only [drops,Bool.false_eq_true,if_false] at history
      have before : tr.q.appRx.WithoutPrevious := ⟨holds.1,holds.2 (history ▸ unkept)⟩
      exact (QuicCall.exec_sets withoutPrevious_installs ⟨wiped_sized,rfl⟩
        (fun _ given => given.1.dropped) update before alive).2

theorem QuicTrace.run_previousOk {cfg : Cfg} {buf : Bytes} {plan : List Nat} {q : Quic role.Step}
    (began : role.init e cfg buf plan = (.ok (), q)) {calls : List QuicCall} {tr : QuicTrace role}
    (ran : (QuicTrace.start q).run e calls = some tr) : tr.PreviousOk := by
  have empty := (init_early began).2
  refine invariant_of_calls (fun _ _ _ _ holds => QuicTrace.step_previousOk holds) ?_ ran
  unfold QuicTrace.PreviousOk QuicTrace.start
  rw [empty]
  exact ⟨wiped_sized,fun _ => rfl⟩

end PreviousRuns

/-! ### What the previous set opens -/

section PreviousPackets

variable (e : Env) {Step : Type} (q : Quic Step) (level version : Nat) (pkt : Bytes) (pnOff : Nat)
  (largestPn currentPhaseLowestPn : UInt64)

/-- `ch_quic_open` gets to the packet, and the header the packet has once its
protection is off selects the previous set. -/
def SelectsPrevious (header : QuicHeader) : Prop :=
  (quicDead q = false ∧ level = levelApplication ∧ versionOk q level version = true ∧
    q.ready level .read = true ∧ q.st.t.state = .connected) ∧
  quicUnprotectHeader e q.appHpRx pkt pnOff levelApplication largestPn = some header ∧
  quicSelected q.keyPhase header currentPhaseLowestPn = quicKeyPrevious

/-- The packet's body was sealed under a key and an IV of zeros, for the suite
of the session and the number and header of the packet. -/
def SealedUnderZeros (header : QuicHeader) : Prop :=
  let zeroKeys := { QuicKeys.wiped with suite := q.appRx.current.suite }
  ∃ pt, header.pkt.drop (pnOff + header.pnLen) =
    (quicSealBody e zeroKeys (nonceOf zeroKeys.iv header.pn.toNat)
      (header.pkt.take (pnOff + header.pnLen)) pt).1

/-- No open under the previous set succeeds, and a packet that selects it is a
discard, or the one too many that ends the session. -/
def PreviousRefused : Prop :=
  let result := (quicOpen e level version pkt pnOff largestPn currentPhaseLowestPn q).1
  (∀ opened, result = .ok opened → opened.keySet ≠ quicKeyPrevious) ∧
  ∀ header, SelectsPrevious e q level version pkt pnOff largestPn currentPhaseLowestPn header →
    result = .error .quicDiscard ∨ result = .error .quicAeadLimit

def openedUnderZeros (header : QuicHeader) : Option Bytes :=
  let zeroKeys := { QuicKeys.wiped with suite := q.appRx.current.suite }
  quicOpenPayload e zeroKeys header.pkt (pnOff + header.pnLen) header.pn

variable {e q pnOff}

theorem sealedUnderZeros_iff (exact : AeadExact e.toCrypto) (header : QuicHeader) :
    SealedUnderZeros e q pnOff header ↔ ∃ pt, openedUnderZeros e q pnOff header = some pt :=
  exists_congr fun pt => (exact.opens _ _ _ _ _ pt).symm

variable {level version pkt largestPn currentPhaseLowestPn}

theorem openAtLevel_previous (without : q.appRx.WithoutPrevious) {header : QuicHeader}
    (selects : SelectsPrevious e q level version pkt pnOff largestPn currentPhaseLowestPn header) :
    openAtLevel e level version pkt pnOff largestPn currentPhaseLowestPn q =
      match openedUnderZeros e q pnOff header with
      | none => .error .quicDiscard
      | some pt => .ok { keySet := quicKeyPrevious, pn := header.pn
                         hdr := header.pkt.take (pnOff + header.pnLen), pt := pt } := by
  obtain ⟨⟨_,application,_⟩,unprotected,selected⟩ := selects
  have chosen : quicKeysSelect q.appRx quicKeyPrevious =
      { QuicKeys.wiped with suite := q.appRx.current.suite } := by
    rw [quicKeysSelect_named without.1 (by decide),QuicKeySets.named_previous,without.2]
    rfl
  simp only [openAtLevel,application,if_true,quicPacketOpenApplication,unprotected,
    Option.bind_eq_bind,Option.bind_some,selected,chosen,openedUnderZeros]
  cases quicOpenPayload e { QuicKeys.wiped with suite := q.appRx.current.suite } header.pkt
    (pnOff + header.pnLen) header.pn <;> rfl

theorem quicOpen_of_selects {header : QuicHeader}
    (selects : SelectsPrevious e q level version pkt pnOff largestPn currentPhaseLowestPn header) :
    (quicOpen e level version pkt pnOff largestPn currentPhaseLowestPn q).1 =
      match openAtLevel e level version pkt pnOff largestPn currentPhaseLowestPn q with
      | .error .quicDiscard =>
        if quicIntegrityLimitExceeded (q.openFailures + 1) then .error .quicAeadLimit
        else .error .quicDiscard
      | result => result := by
  obtain ⟨⟨alive,application,offered,ready,connected⟩,unprotected,_⟩ := selects
  have long : ¬pkt.length < pnOff + (quicPnMaxLen + quicHpSampleLen) := by
    intro short
    rw [quicUnprotectHeader,if_pos short] at unprotected
    cases unprotected
  subst application
  unfold quicOpen
  rw [if_neg (by simp [alive,offered,ready]),if_neg (by simp [connected]),if_neg long]
  split
  · rename_i opened
    rw [opened]
  · rename_i discarded
    rw [discarded]
    dsimp only
    split <;> rfl
  · rename_i rc other refused
    rw [refused]
    split
    · rename_i same
      cases same
      exact absurd rfl other
    · rfl

theorem openAtLevel_current {opened : QuicOpened} (below : level ≠ levelApplication)
    (ran : openAtLevel e level version pkt pnOff largestPn currentPhaseLowestPn q = .ok opened) :
    opened.keySet = quicKeyCurrent := by
  rw [openAtLevel,if_neg below] at ran
  split at ran
  · cases handshake : quicPacketOpenHandshake e q.handshakeRx q.handshakeHpRx pkt pnOff
      largestPn with
    | none => simp [handshake] at ran
    | some other =>
      rw [handshake] at ran
      cases ran
      simp only [quicPacketOpenHandshake,Option.bind_eq_bind,Option.bind_eq_some_iff]
        at handshake
      obtain ⟨_,_,_,_,last⟩ := handshake
      cases last
      rfl
  · unfold quicInitialOpen at ran
    split at ran
    · cases ran
    split at ran
    · cases ran
    dsimp only at ran
    split at ran
    · cases ran
    · cases ran
      rfl

theorem openAtLevel_selected {opened : QuicOpened} (application : level = levelApplication)
    (ran : openAtLevel e level version pkt pnOff largestPn currentPhaseLowestPn q = .ok opened) :
    ∃ header, quicUnprotectHeader e q.appHpRx pkt pnOff levelApplication largestPn = some header ∧
      opened.keySet = quicSelected q.keyPhase header currentPhaseLowestPn := by
  rw [openAtLevel,if_pos application] at ran
  cases opens : quicPacketOpenApplication e q.appRx q.appHpRx q.keyPhase pkt pnOff largestPn
      currentPhaseLowestPn with
  | none => simp [opens] at ran
  | some other =>
    rw [opens] at ran
    cases ran
    simp only [quicPacketOpenApplication,Option.bind_eq_bind,Option.bind_eq_some_iff] at opens
    obtain ⟨header,unprotected,_,_,last⟩ := opens
    cases last
    exact ⟨header,unprotected,rfl⟩

theorem selects_of_quicOpen {opened : QuicOpened}
    (result : (quicOpen e level version pkt pnOff largestPn currentPhaseLowestPn q).1 = .ok opened)
    (previous : opened.keySet = quicKeyPrevious) :
    ∃ header,
      SelectsPrevious e q level version pkt pnOff largestPn currentPhaseLowestPn header := by
  unfold quicOpen at result
  split at result
  · cases result
  rename_i admitted
  split at result
  · cases result
  rename_i connected
  split at result
  · cases result
  split at result
  · rename_i ran
    cases result
    by_cases application : level = levelApplication
    · obtain ⟨header,unprotected,selected⟩ := openAtLevel_selected application ran
      simp only [Bool.or_eq_true,Bool.not_eq_true',decide_eq_true_eq,not_or,Bool.not_eq_true,
        Bool.not_eq_false] at admitted
      obtain ⟨⟨⟨alive,_⟩,offered⟩,ready⟩ := admitted
      have open' : q.st.t.state = .connected :=
        Classical.not_not.mp fun off => connected ⟨application,off⟩
      exact ⟨header,⟨alive,application,offered,ready,open'⟩,unprotected,
        selected.symm.trans previous⟩
    · have current := openAtLevel_current application ran
      rw [previous] at current
      exact absurd current (by decide)
  · dsimp only at result
    split at result <;> cases result
  · cases result

end PreviousPackets

/-- In every state a session gets to without previous read keys, its packet
calls refuse the previous set except for a packet that selects it and was
sealed under zeros. -/
theorem previousRefused_iff {e : Env} (exact : AeadExact e.toCrypto) {role : Endpoint} {cfg : Cfg}
    {buf : Bytes} {plan : List Nat} {q : Quic role.Step}
    (began : role.init e cfg buf plan = (.ok (), q)) {calls : List QuicCall} {tr : QuicTrace role}
    (ran : (QuicTrace.start q).run e calls = some tr) (unkept : tr.kept = false)
    (level version : Nat) (pkt : Bytes) (pnOff : Nat) (largestPn currentPhaseLowestPn : UInt64) :
    PreviousRefused e tr.q level version pkt pnOff largestPn currentPhaseLowestPn ↔
      ¬∃ header,
        SelectsPrevious e tr.q level version pkt pnOff largestPn currentPhaseLowestPn header ∧
          SealedUnderZeros e tr.q pnOff header := by
  have reached := QuicTrace.run_previousOk began ran
  have without : tr.q.appRx.WithoutPrevious := ⟨reached.1,reached.2 unkept⟩
  constructor
  · rintro ⟨never,_⟩ ⟨header,selects,zeros⟩
    obtain ⟨pt,opened⟩ := (sealedUnderZeros_iff exact header).mp zeros
    refine never { keySet := quicKeyPrevious, pn := header.pn
                   hdr := header.pkt.take (pnOff + header.pnLen), pt := pt } ?_ rfl
    rw [quicOpen_of_selects selects,openAtLevel_previous without selects,opened]
  · intro unsealed
    have refused : ∀ header,
        SelectsPrevious e tr.q level version pkt pnOff largestPn currentPhaseLowestPn header →
        openAtLevel e level version pkt pnOff largestPn currentPhaseLowestPn tr.q =
          .error .quicDiscard := by
      intro header selects
      rw [openAtLevel_previous without selects]
      cases opened : openedUnderZeros e tr.q pnOff header with
      | none => rfl
      | some pt =>
        exact absurd ⟨header,selects,(sealedUnderZeros_iff exact header).mpr ⟨pt,opened⟩⟩
          unsealed
    constructor
    · intro opened result previous
      obtain ⟨header,selects⟩ := selects_of_quicOpen result previous
      rw [quicOpen_of_selects selects,refused header selects] at result
      dsimp only at result
      split at result <;> cases result
    · intro header selects
      rw [quicOpen_of_selects selects,refused header selects]
      dsimp only
      split
      · exact .inr rfl
      · exact .inl rfl

/-- A 1-RTT packet of the other key phase with number 0 and three zero bytes
under the given tag. -/
def samplePreviousPacket (tag : UInt8) : Bytes := [0x44,0,0,0,0] ++ List.replicate 16 tag

theorem previousRefused_sample : ∃ tr, sampleQuicRun [] = some tr ∧ tr.kept = false ∧
    PreviousRefused sampleQuicEnv tr.q levelApplication quicVersion1 (samplePreviousPacket 7) 1 0
      1 := by
  obtain ⟨tr,ran⟩ := Option.isSome_iff_exists.mp
    (by decide +kernel : (sampleQuicRun []).isSome = true)
  have unkept : (sampleQuicRun []).map QuicTrace.kept = some false := by decide +kernel
  rw [ran] at unkept
  have kept : tr.kept = false := Option.some.inj unkept
  have unopened : (sampleQuicRun []).map (fun tr =>
      (quicUnprotectHeader sampleQuicEnv tr.q.appHpRx (samplePreviousPacket 7) 1 levelApplication
        0).bind (openedUnderZeros sampleQuicEnv tr.q 1)) = some none := by decide +kernel
  rw [ran] at unopened
  refine ⟨tr,ran,kept,(previousRefused_iff Crypto.sample_exact sampleQuicInit_ok ran kept _ _ _
    _ _ _).mpr ?_⟩
  rintro ⟨header,⟨_,unprotected,_⟩,zeros⟩
  obtain ⟨pt,opened⟩ := (sealedUnderZeros_iff Crypto.sample_exact header).mp zeros
  simp only [Option.map_some,unprotected,Option.bind_some,opened] at unopened
  cases unopened

/-- Before any key update, a packet of the other phase that is sealed under
zeros opens with the previous set. -/
theorem previous_opens_zeros : ∃ tr, sampleQuicInit.1 = .ok () ∧ sampleQuicRun [] = some tr ∧
    tr.kept = false ∧
    (quicOpen sampleQuicEnv levelApplication quicVersion1 (samplePreviousPacket 0) 1 0 1 tr.q).1 =
      .ok { keySet := quicKeyPrevious, pn := 0, hdr := [0x44,0], pt := [0,0,0] } := by
  obtain ⟨tr,ran⟩ := Option.isSome_iff_exists.mp
    (by decide +kernel : (sampleQuicRun []).isSome = true)
  have facts : (sampleQuicRun []).map (fun tr => (tr.kept,
      (quicOpen sampleQuicEnv levelApplication quicVersion1 (samplePreviousPacket 0) 1 0 1
        tr.q).1.toOption)) =
      some (false,
        some { keySet := quicKeyPrevious, pn := 0, hdr := [0x44,0], pt := [0,0,0] }) := by
    decide +kernel
  rw [ran] at facts
  have both := Prod.mk.inj (Option.some.inj facts)
  refine ⟨tr,congrArg Prod.fst sampleQuicInit_ok,ran,both.1,?_⟩
  generalize (quicOpen sampleQuicEnv levelApplication quicVersion1 (samplePreviousPacket 0) 1 0 1
    tr.q).1 = result at both ⊢
  cases result with
  | error rc => cases both.2
  | ok opened => exact congrArg Except.ok (Option.some.inj both.2)

end Chapulin
