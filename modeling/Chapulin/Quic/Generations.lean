/-
Key updates of two QUIC sessions.

Each side moves its write keys and its three read sets on by one generation
with every update, whenever it likes.  The write secret and the read secret a
side installed start two chains, and the sides are apart by as many generations
as the updates they made.
-/

import Chapulin.Lib.Ratchet
import Chapulin.Quic.Run

namespace Chapulin

open Lib Proc QuicCall

variable {cfg : Cfg} {call : QuicCall} {α : Type}

def quicRatchet (e : Env) (version suite : Nat) : Ratchet Bytes QuicKeys where
  next := quicNextSecret e version suite
  keys := fun secret => quicKeysInitSuite e version secret suite

def QuicKeys.material (k : QuicKeys) : QuicKeys := { k with sealedCount := 0 }

section Generations

variable {Step : Type} (e : Env)

def Quic.ratchet (q : Quic Step) : Ratchet Bytes QuicKeys :=
  quicRatchet e q.st.t.quicNegotiatedVersion q.st.t.suite

/-- What the application keys of a session are after a number of updates, by
whether the last of them still has its previous set. -/
structure Generations (q : Quic Step) (updates : Nat) (kept : Bool) : Prop where
  sends : (q.ratchet e).Sends q.appSecrets.1 updates q.st.t.wrSecret q.appTx.material
  receives : (q.ratchet e).Receives q.appSecrets.2 updates q.st.t.rdSecret q.appRx.current
    q.appRx.next
  retains : kept = true → (q.ratchet e).Retains q.appSecrets.2 updates q.appRx.previous
  phase : q.keyPhase.toNat = updates % 2
  hpTx : q.appHpTx =
    quicHpKeyInitSuite e q.st.t.quicNegotiatedVersion q.appSecrets.1 q.st.t.suite
  hpRx : q.appHpRx =
    quicHpKeyInitSuite e q.st.t.quicNegotiatedVersion q.appSecrets.2 q.st.t.suite

def Tls.secrets (t : Tls) : Bytes × Bytes × Nat × Nat :=
  (t.wrSecret, t.rdSecret, t.suite, t.quicNegotiatedVersion)

def Quic.keyed (q : Quic Step) :
    (Bytes × Bytes × Nat × Nat) × QuicKeys × QuicKeySets × UInt8 × QuicHpKey × QuicHpKey ×
      Bytes × Bytes :=
  (q.st.t.secrets, q.appTx.material, q.appRx, q.keyPhase, q.appHpTx, q.appHpRx, q.appSecrets)

variable {e}

theorem Generations.of_keyed {q next : Quic Step} {updates : Nat} {kept : Bool}
    (holds : Generations e q updates kept) (same : next.keyed = q.keyed) :
    Generations e next updates kept := by
  simp only [Quic.keyed,Tls.secrets,Prod.mk.injEq] at same
  obtain ⟨⟨wr,rd,suite,version⟩,tx,rx,phase,hpTx,hpRx,secrets⟩ := same
  have chain : next.ratchet e = q.ratchet e := by rw [Quic.ratchet,Quic.ratchet,suite,version]
  constructor
  · rw [chain,secrets,wr,tx]
    exact holds.sends
  · rw [chain,secrets,rd,rx]
    exact holds.receives
  · rw [chain,secrets,rx]
    exact holds.retains
  · rw [phase]
    exact holds.phase
  · rw [hpTx,version,secrets,suite]
    exact holds.hpTx
  · rw [hpRx,version,secrets,suite]
    exact holds.hpRx

theorem deriveApplicationKeys_generations {q : Quic Step} (phase : q.keyPhase = 0) :
    Generations e (deriveApplicationKeys e q) 0 false where
  sends := Ratchet.sends_start
  receives := by
    have start := @Ratchet.receives_start _ _ (q.ratchet e) q.st.t.rdSecret
    have update := @quicKeysUpdate_of_suite e q.st.t.quicNegotiatedVersion q.st.t.suite
      q.st.t.rdSecret
        (quicKeysInitSuite e q.st.t.quicNegotiatedVersion q.st.t.rdSecret q.st.t.suite)
      rfl
    simp only [deriveApplicationKeys,Quic.ratchet,update]
    exact start
  retains := nofun
  phase := by
    change q.keyPhase.toNat = 0
    rw [phase]
    rfl
  hpTx := rfl
  hpRx := rfl

theorem quicKeyUpdate_generations {q next : Quic Step} {updates : Nat} {kept : Bool}
    (holds : Generations e q updates kept) (ran : quicKeyUpdate e q = (.ok (), next)) :
    Generations e next (updates + 1) true := by
  unfold quicKeyUpdate at ran
  split at ran
  · cases ran
  have txSuite : q.appTx.suite = keySuite e.build q.st.t.suite :=
    congrArg QuicKeys.suite holds.sends.keys_eq
  have rxSuite : q.appRx.next.suite = keySuite e.build q.st.t.suite :=
    congrArg QuicKeys.suite holds.receives.upcoming_eq
  simp only [quicKeysUpdate_of_suite txSuite,quicKeysUpdate_of_suite rxSuite] at ran
  cases ran
  constructor
  · exact holds.sends.update
  · exact holds.receives.update
  · exact fun _ => holds.receives.retains
  · change (q.keyPhase ^^^ 1).toNat = (updates + 1) % 2
    have phase := holds.phase
    rw [UInt8.toNat_xor,phase]
    rcases Nat.mod_two_eq_zero_or_one updates with even | odd
    · rw [even,Nat.add_mod,even]
      rfl
    · rw [odd,Nat.add_mod,odd]
      rfl
  · exact holds.hpTx
  · exact holds.hpRx

end Generations

/-! ### Before the keys are installed -/

def Endpoint.installed : (role : Endpoint) → role.Step → Prop
  | .client, step => step = ClientStep.complete
  | .server, step => step = ServerStep.awaitClientFinished ∨ step = ServerStep.complete

structure Early {role : Endpoint} (q : Quic role.Step) : Prop where
  step : ¬role.installed q.step
  state : q.st.t.state = .start
  phase : q.keyPhase = 0

structure Fresh {role : Endpoint} (e : Env) (q : Quic role.Step) : Prop where
  step : role.installed q.step
  keys : Generations e q 0 false

section Installation

variable {Step : Type} (e : Env)

def Quic.sets (q : Quic Step) : UInt8 × QuicKeySets := (q.keyPhase, q.appRx)

def Quic.waiting (q : Quic Step) : SessionState × UInt8 × QuicKeySets := (q.st.t.state, q.sets)

abbrev KeepsWaiting {α : Type} (proc : Proc (Quic Step) Rc α) : Prop := Keeps Quic.waiting proc

theorem onQuic_waiting {act : Act α} (kept : ActFixes act) :
    KeepsWaiting (onQuic act : Proc (Quic Step) Rc α) := by
  intro q
  have same := congrArg (fun settings => settings.1.2) (kept q.st)
  exact Prod.ext same rfl

theorem onQuic_sets (act : Act α) :
    Keeps Quic.sets (onQuic act : Proc (Quic Step) Rc α) := fun _ => rfl

theorem stopAlert_fixes (alert : Nat) (rc : Rc) : ActFixes (stopAlert alert rc : Act α) :=
  fun _ => rfl

theorem stopAlert_returns {α : Type} {post : Quic Step → Prop} (alert : Nat) (rc : Rc) :
    Returns post (onQuic (stopAlert alert rc) : Proc (Quic Step) Rc α) := by
  intro q value next ran
  have result := congrArg Prod.fst ran
  cases result

theorem quicStepServerHello_waiting : KeepsWaiting (quicStepServerHello e) := by
  refine .bind (onQuic_waiting (hsfReadServerHello_exchange e).fixes) fun info => .ite ?_ ?_
  · refine .bind keeps_get fun q => .ite (onQuic_waiting (stopAlert_fixes _ _)) ?_
    refine .bind
      (onQuic_waiting (onCore_fixes (hsfBuildClientHello_steady e).fixes)) fun hello => ?_
    cases hello with
    | none => exact keeps_stop _
    | some hello => exact .bind (keeps_modify fun _ => rfl) fun _ => keeps_modify fun _ => rfl
  · exact .bind (onQuic_waiting (onCore_fixes (hsfAcceptServerHello_steady e info).fixes)) fun _ =>
      .bind (onQuic_waiting (onCore_fixes (hsfDeriveHandshakeSecrets_steady e info).fixes)) fun _ =>
        .bind (keeps_modify fun _ => rfl) fun _ =>
          .bind (keeps_modify fun _ => rfl) fun _ => keeps_modify fun _ => rfl

theorem quicStepServerHello_step :
    Returns (fun q => q.step ≠ .complete) (quicStepServerHello e) := by
  refine .bind fun info => .ite ?_ ?_
  · refine .bind fun q => .ite (stopAlert_returns _ _) (.bind fun hello => ?_)
    cases hello with
    | none => exact returns_stop _
    | some hello => exact .bind fun _ => returns_modify fun _ => nofun
  · exact .bind fun _ => .bind fun _ => .bind fun _ => .bind fun _ =>
      returns_modify fun _ => nofun

/-- The step derives the application keys, over the phase and the read sets of
the state it starts from. -/
def InstallsKeys {role : Endpoint} (q next : Quic role.Step) : Prop :=
  ∃ before : Quic role.Step, before.sets = q.sets ∧ role.installed next.step ∧
    next.keyed = (deriveApplicationKeys e before).keyed

theorem quicStepFinished_installs {q next : Quic Endpoint.client.Step}
    (ran : quicStepFinished e q = (.ok (), next)) : InstallsKeys e q next := by
  obtain ⟨_,read,kept,ran⟩ := bind_eq_ok.mp ran
  obtain ⟨_,committed,kept',ran⟩ := bind_eq_ok.mp ran
  obtain ⟨finished,before,kept'',ran⟩ := bind_eq_ok.mp ran
  refine ⟨stageCrypto levelHandshake finished before,?_,?_⟩
  · change before.sets = q.sets
    rw [(onQuic_sets _).of_eq kept'',(onQuic_sets _).of_eq kept',(onQuic_sets _).of_eq kept]
  · cases ran
    exact ⟨rfl,rfl⟩

/-- A client's step leaves the application keys alone or installs them. -/
theorem hsqAdvance_waits {q next : Quic Endpoint.client.Step}
    (waits : ¬Endpoint.client.installed q.step) (ran : hsqAdvance e q = (.ok (), next)) :
    (¬Endpoint.client.installed next.step ∧ next.waiting = q.waiting) ∨ InstallsKeys e q next := by
  have stays : ∀ {proc : Proc ClientQuic Rc Unit}, KeepsWaiting proc →
      Returns (fun q => q.step ≠ .complete) proc → proc q = (.ok (), next) →
      ¬Endpoint.client.installed next.step ∧ next.waiting = q.waiting :=
    fun kept step ran => ⟨step q () next ran,kept.of_eq ran⟩
  unfold hsqAdvance at ran
  cases step : q.step with
  | awaitServerHello =>
    simp only [step] at ran
    exact .inl (stays (quicStepServerHello_waiting e) (quicStepServerHello_step e) ran)
  | awaitRetryHello =>
    simp only [step] at ran
    exact .inl (stays (quicStepServerHello_waiting e) (quicStepServerHello_step e) ran)
  | awaitEncryptedExtensions =>
    simp only [step] at ran
    refine .inl (stays ?_ ?_ ran)
    · exact .bind (onQuic_waiting (hsfReadEncryptedExtensions_flight e).fixes) fun _ =>
        .bind keeps_get fun _ => keeps_modify fun _ => rfl
    · refine .bind fun _ => .bind fun q => returns_modify fun _ => ?_
      dsimp only
      split <;> nofun
  | awaitCertificate =>
    simp only [step] at ran
    refine .inl (stays ?_ ?_ ran)
    · exact .bind (onQuic_waiting (hsaServerAuth_exchange e).fixes) fun _ =>
        keeps_modify fun _ => rfl
    · exact .bind fun _ => returns_modify fun _ => nofun
  | awaitCertificateVerify =>
    simp only [step] at ran
    refine .inl (stays ?_ ?_ ran)
    · exact .bind (onQuic_waiting (hsaReadCertificateVerify_exchange e).fixes) fun _ =>
        keeps_modify fun _ => rfl
    · exact .bind fun _ => returns_modify fun _ => nofun
  | awaitFinished =>
    simp only [step] at ran
    exact .inr (quicStepFinished_installs e ran)
  | complete => exact absurd step waits

variable {q next : Quic Endpoint.server.Step}

theorem srvQuicFlight_installs {ch : ClientHello} {sel : Selection}
    (ran : srvQuicFlight e ch sel q = (.ok (), next)) : InstallsKeys e q next := by
  obtain ⟨_,a,ranA,ran⟩ := bind_eq_ok.mp ran
  obtain ⟨_,b,ranB,ran⟩ := bind_eq_ok.mp ran
  obtain ⟨_,c,ranC,ran⟩ := bind_eq_ok.mp ran
  obtain ⟨_,d,ranD,ran⟩ := bind_eq_ok.mp ran
  obtain ⟨_,keyed,ranK,ran⟩ := bind_eq_ok.mp ran
  obtain ⟨_,f,ranF,ran⟩ := bind_eq_ok.mp ran
  obtain ⟨_,before,ranG,ran⟩ := bind_eq_ok.mp ran
  refine ⟨before,?_,?_⟩
  · rw [(onQuic_sets _).of_eq ranG,(onQuic_sets _).of_eq ranF]
    cases ranK
    change d.sets = q.sets
    rw [(onQuic_sets _).of_eq ranD,(onQuic_sets _).of_eq ranC,(onQuic_sets _).of_eq ranB,
      (onQuic_sets _).of_eq ranA]
  · cases ran
    exact ⟨.inl rfl,rfl⟩

theorem takeTransportParams_fixes (ch : ClientHello) : Fixes (takeTransportParams ch) := by
  intro c
  unfold takeTransportParams
  split <;> rfl

theorem chooseVersion_fixes : Fixes chooseVersion := by
  intro c
  unfold chooseVersion
  split
  · rfl
  split <;> rfl

/-- A server step before the keys waits on or installs them. -/
theorem srvQuicAdvance_waits
    (waits : ¬Endpoint.server.installed q.step) (ran : srvQuicAdvance e q = (.ok (), next)) :
    (¬Endpoint.server.installed next.step ∧ next.waiting = q.waiting) ∨ InstallsKeys e q next := by
  unfold srvQuicAdvance at ran
  cases step : q.step with
  | awaitClientHello =>
    simp only [step] at ran
    obtain ⟨ch,a,ranA,ran⟩ := bind_eq_ok.mp ran
    obtain ⟨_,b,ranB,ran⟩ := bind_eq_ok.mp ran
    obtain ⟨_,c,ranC,ran⟩ := bind_eq_ok.mp ran
    obtain ⟨sel,d,ranD,ran⟩ := bind_eq_ok.mp ran
    have same : d.waiting = q.waiting := by
      rw [(onQuic_waiting (onCore_fixes (srvSelect_steady e ch).fixes)).of_eq ranD,
        (onQuic_waiting (onCore_fixes chooseVersion_fixes)).of_eq ranC,
        (onQuic_waiting (onCore_fixes (takeTransportParams_fixes ch))).of_eq ranB,
        (onQuic_waiting (srvReadClientHello_exchange e).fixes).of_eq ranA]
    split at ran
    · obtain ⟨_,f,ranF,ran⟩ := bind_eq_ok.mp ran
      obtain ⟨_,g,ranG,ran⟩ := bind_eq_ok.mp ran
      have still : g.waiting = q.waiting := by
        rw [(onQuic_waiting (srvSendHelloRetryRequest_exchange e ch sel).fixes).of_eq ranG,
          (onQuic_waiting (onCore_fixes (steady_modifyHs _).fixes)).of_eq ranF,same]
      cases ran
      refine .inl ⟨?_,still⟩
      rintro (waits | done)
      · cases waits
      · cases done
    · obtain ⟨before,sets,installed⟩ := srvQuicFlight_installs e ran
      exact .inr ⟨before,sets.trans (congrArg Prod.snd same),installed⟩
  | awaitRetryHello =>
    simp only [step] at ran
    obtain ⟨ch,a,ranA,ran⟩ := bind_eq_ok.mp ran
    obtain ⟨sel,b,ranB,ran⟩ := bind_eq_ok.mp ran
    obtain ⟨before,sets,installed⟩ := srvQuicFlight_installs e ran
    refine .inr ⟨before,sets.trans ?_,installed⟩
    rw [(onQuic_sets _).of_eq ranB,(onQuic_sets _).of_eq ranA]
  | awaitClientFinished => exact absurd (.inl step) waits
  | complete => exact absurd (.inr step) waits

/-- A step of a session without application keys leaves it without them, or
installs them. -/
theorem advance_waits {role : Endpoint} {q next : Quic role.Step} (waits : ¬role.installed q.step)
    (ran : (role.driver e).advance q = (.ok (), next)) :
    (¬role.installed next.step ∧ next.waiting = q.waiting) ∨ InstallsKeys e q next := by
  cases role with
  | client => exact hsqAdvance_waits e waits ran
  | server => exact srvQuicAdvance_waits e waits ran

theorem advance_early {role : Endpoint} {q next : Quic role.Step} (early : Early q)
    (ran : (role.driver e).advance q = (.ok (), next)) : Early next ∨ Fresh e next := by
  rcases advance_waits e early.step ran with ⟨waits,same⟩ | ⟨before,sets,installed,keyed⟩
  · exact .inl ⟨waits,(congrArg Prod.fst same).trans early.state,
      (congrArg (fun waiting => waiting.2.1) same).trans early.phase⟩
  · have phase : before.keyPhase = 0 := (congrArg Prod.fst sets).trans early.phase
    exact .inr ⟨installed,(deriveApplicationKeys_generations phase).of_keyed keyed⟩

/-! ### Behind the installation -/

theorem onQuic_keyed {act : Act α} (kept : Keeps (fun s => s.t.secrets) act) :
    Keeps Quic.keyed (onQuic act : Proc (Quic Step) Rc α) := by
  intro q
  exact Prod.ext (kept q.st) rfl

theorem KeepsProtocol.secrets {act : Act α} (kept : KeepsProtocol act) :
    Keeps (fun s => s.t.secrets) act :=
  kept.map fun parts => parts.1.secrets

theorem onClientFinished_secrets (hash raw : Bytes) :
    Keeps (fun c => c.t.secrets) (onClientFinished e hash raw) := by
  intro c
  unfold onClientFinished
  split
  · rfl
  split <;> rfl

theorem newSessionTicket_secrets : Keeps (fun c => c.t.secrets) (newSessionTicket e) := by
  refine keeps_get.bind fun c => .ite (keeps_pure _) ?_
  refine (keeps_require _ _).bind fun _ => .ite (keeps_pure _) ?_
  have drawn : Keeps (fun c => c.t.secrets) (drawNonzero 24) :=
    .bind (fun _ => rfl) fun _ => .bind (keeps_require _ _) fun _ => keeps_pure _
  refine drawn.bind fun drawn => ?_
  split
  · exact fun _ => rfl
  · exact keeps_pure _

/-- A server step after the keys leaves them alone. -/
theorem srvQuicAdvance_late
    (late : Endpoint.server.installed q.step) (ran : srvQuicAdvance e q = (.ok (), next)) :
    Endpoint.server.installed next.step ∧ next.keyed = q.keyed := by
  unfold srvQuicAdvance at ran
  have unread : Keeps Quic.keyed refuseUnread := by
    intro q
    unfold refuseUnread
    split <;> rfl
  have ticket : Keeps (fun s => s.t.secrets) (srvSendNewSessionTicket e) := by
    refine .bind (Keeps.onCore (newSessionTicket_secrets e)) fun msg => ?_
    cases msg with
    | none => exact keeps_pure _
    | some msg => exact (srvOutSealed_unsent e msg).protocol.secrets
  have read : Keeps (fun s => s.t.secrets) (srvReadClientFinished e) :=
    .bind (keeps_gets _) fun _ => .bind (srvNextMsg_protocol e).secrets fun raw =>
      Keeps.onCore (onClientFinished_secrets e _ raw)
  have kept : Keeps Quic.keyed (quicStepClientFinished e) :=
    .bind (onQuic_keyed read) fun _ => .bind unread fun _ =>
      .bind (onQuic_keyed (keeps_modify fun _ => rfl)) fun _ =>
        .bind (keeps_modify fun _ => rfl) fun _ => .bind (keeps_modify fun _ => rfl) fun _ =>
          .bind (keeps_modify fun _ => rfl) fun _ =>
            .bind (onQuic_keyed (fun _ => rfl)) fun _ => .bind (onQuic_keyed ticket) fun _ =>
              keeps_modify fun _ => rfl
  have completes : Returns (fun q => q.step = .complete) (quicStepClientFinished e) :=
    .bind fun _ => .bind fun _ => .bind fun _ => .bind fun _ => .bind fun _ =>
      .then_preserves (returns_modify fun _ => rfl) fun _ =>
        .bind (fun _ done => done) fun _ => .bind (fun _ done => done) fun _ =>
          preserves_modify fun _ done => done
  rcases late with waits | done
  · simp only [waits] at ran
    exact ⟨.inr (completes q () next ran),kept.of_eq ran⟩
  · simp only [done] at ran
    have never : False := @stopAlert_returns _ _ (fun _ => False) _ _ q () next ran
    exact never.elim

theorem hsqAdvance_late {q next : Quic Endpoint.client.Step}
    (late : Endpoint.client.installed q.step) (ran : hsqAdvance e q = (.ok (), next)) :
    Endpoint.client.installed next.step ∧ next.keyed = q.keyed := by
  have kept : Keeps (fun q : ClientQuic => (q.step, q.keyed)) (quicStepComplete e) := by
    refine .bind (fun q => ?_) fun raw q => ?_
    · exact Prod.ext rfl (onQuic_keyed (hsrNextMsg_protocol e).secrets q)
    · unfold onLateMessage
      split
      · have ticket := handleTicket_untold e (msgBody raw)
          { t := q.st.t, alert := q.st.h.alert, errorCode := q.errorCode }
        have secrets := congrArg Tls.secrets ticket
        exact Prod.ext rfl (Prod.ext secrets rfl)
      · rfl
  unfold hsqAdvance at ran
  have complete : q.step = .complete := late
  simp only [complete] at ran
  have same := kept.of_eq ran
  exact ⟨(congrArg Prod.fst same).trans late,congrArg Prod.snd same⟩

theorem advance_late {role : Endpoint} {q next : Quic role.Step} (late : role.installed q.step)
    (ran : (role.driver e).advance q = (.ok (), next)) :
    role.installed next.step ∧ next.keyed = q.keyed := by
  cases role with
  | client => exact hsqAdvance_late e late ran
  | server => exact srvQuicAdvance_late e late ran

end Installation

/-! ### What a call does to a session with keys -/

section Calls

variable {e : Env}

theorem quicPacketSeal_material {k next : QuicKeys} {h : QuicHpKey}
    {level keyPhase pn pnLen : Nat} {hdr pt out : Bytes} {cap : Nat}
    (ran : quicPacketSeal e k h level keyPhase pn pnLen hdr pt cap = .ok (out, next)) :
    next.material = k.material := by
  unfold quicPacketSeal at ran
  split at ran
  · cases ran
  split at ran
  · cases ran
  split at ran
  · cases ran
  split at ran
  · cases ran
  · dsimp only [quicSealBody] at ran
    cases ran
    split <;> rfl

theorem quicWipeWriteKeys_kept {Step : Type} (level : Nat) (q : Quic Step) :
    ((quicWipeWriteKeys level q).step, (quicWipeWriteKeys level q).waiting) =
      (q.step, q.waiting) := by
  unfold quicWipeWriteKeys
  dsimp only
  split
  · rfl
  split <;> rfl

theorem quicFail_sets {Step : Type} (q : Quic Step) : (quicFail q).appRx = .wiped := by
  have untouched : ∀ level (q : Quic Step),
      (wipeWriteKeysUnlessReady level q).appRx = q.appRx := by
    intro level q
    unfold wipeWriteKeysUnlessReady
    split
    · rfl
    · exact congrArg (fun kept => kept.2.2.2) (quicWipeWriteKeys_kept level q)
  simp only [quicFail,untouched]
  rfl

theorem quicClose_sets {Step : Type} (q : Quic Step) : (quicClose q).appRx = .wiped := by
  have untouched : ∀ level (q : Quic Step), (quicWipeWriteKeys level q).appRx = q.appRx :=
    fun level q => congrArg (fun kept => kept.2.2.2) (quicWipeWriteKeys_kept level q)
  simp only [quicClose,quicWipe,untouched]
  rfl

/-- The call neither reads handshake bytes nor handles the application keys. -/
def QuicCall.Rests : QuicCall → Prop
  | .cryptoIn _ _ | .keyUpdate | .dropPreviousKeys => False
  | .discard level => level ≠ levelApplication
  | _ => True

/-- What such a call leaves of a session it does not end. -/
structure Rested {role : Endpoint} (q next : Quic role.Step) : Prop where
  step : next.step = q.step
  sets : next.sets = q.sets
  state : next.st.t.state = q.st.t.state ∨ q.st.t.state = .start ∧ role.installed q.step
  keyed : role.installed q.step → quicDead q = false → next.keyed = q.keyed

variable {role : Endpoint}

theorem Rested.of_keyed {q next : Quic role.Step} (step : next.step = q.step)
    (state : next.st.t.state = q.st.t.state) (keyed : next.keyed = q.keyed) : Rested q next where
  step := step
  sets := Prod.ext (congrArg (fun keyed => keyed.2.2.2.1) keyed)
    (congrArg (fun keyed => keyed.2.2.1) keyed)
  state := .inl state
  keyed := fun _ _ => keyed

theorem sealAtLevel_rested (level version pn pnLen : Nat) (hdr pt : Bytes)
    (cap : Nat) (q : Quic role.Step) :
    Rested q (sealAtLevel e level version pn pnLen hdr pt cap q).2 := by
  unfold sealAtLevel
  split
  · exact .of_keyed rfl rfl rfl
  split
  · split <;> exact .of_keyed rfl rfl rfl
  split
  · split
    · exact .of_keyed rfl rfl rfl
    · rename_i sealed
      refine .of_keyed rfl rfl ?_
      simp only [Quic.keyed,quicPacketSeal_material sealed]
  split
  · exact .of_keyed rfl rfl rfl
  · split <;> exact .of_keyed rfl rfl rfl

theorem quicCryptoOut_rested (level cap : Nat) (q : Quic Endpoint.client.Step) :
    Rested q (quicCryptoOut level cap q).2 := by
  unfold quicCryptoOut
  split
  · exact .of_keyed rfl rfl rfl
  split
  · exact .of_keyed rfl rfl rfl
  split
  · exact .of_keyed rfl rfl rfl
  · dsimp only
    split
    · rename_i last
      exact ⟨rfl,rfl,.inr ⟨last.2,last.1⟩,fun _ _ => rfl⟩
    · exact .of_keyed rfl rfl rfl

theorem quicSwitchVersion_rested (version : Nat) (q : Quic Endpoint.client.Step) :
    Rested q (quicSwitchVersion version q).2 := by
  unfold quicSwitchVersion
  split
  · exact .of_keyed rfl rfl rfl
  · rename_i switches
    refine ⟨rfl,rfl,.inl rfl,fun complete _ => absurd ?_ switches⟩
    have done : q.step = .complete := complete
    simp [switchOpen,done]

/-- What a call that rests does, said once: it ends the session, or leaves the
step, the phase and the read sets. -/
theorem QuicCall.exec_rests (rests : call.Rests) (q : Quic role.Step) :
    (quicDead (call.exec e q).2 = true ∧ (call.exec e q).2.appRx = .wiped) ∨
      Rested q (call.exec e q).2 := by
  cases call with
  | cryptoIn | keyUpdate | dropPreviousKeys => exact rests.elim
  | cryptoOut level cap =>
    simp only [exec,exec.returned_snd]
    cases role with
    | server => exact .inr (.of_keyed rfl rfl rfl)
    | client =>
      have rested := quicCryptoOut_rested level cap q
      simp only [Endpoint.cryptoOut]
      split <;>
        · rename_i ran
          rw [ran] at rested
          exact .inr rested
  | switchVersion version =>
    simp only [exec,exec.returned_snd]
    cases role with
    | server => exact .inr (.of_keyed rfl rfl rfl)
    | client => exact .inr (quicSwitchVersion_rested version q)
  | initialKeys dcid =>
    simp only [exec,exec.returned_snd,quicInitialKeys]
    split <;> exact .inr (.of_keyed rfl rfl rfl)
  | discard level =>
    simp only [exec,exec.returned_snd,quicDiscard]
    split
    · exact .inr (.of_keyed rfl rfl rfl)
    rename_i known
    have low : level = levelInitial ∨ level = levelHandshake := by
      have other : level ≠ levelApplication := rests
      simp only [levelApplication,levelInitial,levelHandshake] at known other ⊢
      omega
    rcases low with rfl | rfl <;> exact .inr (.of_keyed rfl rfl rfl)
  | sealPacket level version pn pnLen hdr pt cap =>
    simp only [exec,exec.returned_snd,quicSeal]
    split
    · exact .inr (.of_keyed rfl rfl rfl)
    · exact .inr (sealAtLevel_rested level version pn pnLen hdr pt cap q)
  | sealClose level version pn pnLen hdr pt cap =>
    simp only [exec,exec.returned_snd,quicSealClose]
    have rested := @sealAtLevel_rested e role level version pn pnLen hdr pt cap q
    split
    · exact .inr (.of_keyed rfl rfl rfl)
    rename_i condition
    have failed : q.st.t.state = .failed :=
      Classical.not_not.mp fun other => condition (.inl other)
    split
    · rename_i ran
      rw [ran] at rested
      exact .inr rested
    · rename_i next ran
      rw [ran] at rested
      have kept := Prod.mk.inj (quicWipeWriteKeys_kept level next)
      refine .inr ⟨kept.1.trans rested.step,(congrArg Prod.snd kept.2).trans rested.sets,?_,
        fun _ live => ?_⟩
      · exact rested.state.imp_left (congrArg Prod.fst kept.2).trans
      · simp [quicDead,failed] at live
  | openPacket level version pkt pnOff largest lowest =>
    simp only [exec,exec.returned_snd,quicOpen]
    split
    · exact .inr (.of_keyed rfl rfl rfl)
    split
    · exact .inr (.of_keyed rfl rfl rfl)
    split
    · exact .inr (.of_keyed rfl rfl rfl)
    split
    · exact .inr (.of_keyed rfl rfl rfl)
    · split
      · exact .inl ⟨rfl,quicFail_sets _⟩
      · exact .inr (.of_keyed rfl rfl rfl)
    · exact .inr (.of_keyed rfl rfl rfl)
  | close => exact .inl ⟨rfl,quicClose_sets q⟩

theorem QuicCall.rests_or (call : QuicCall) :
    call.Rests ∨ (∃ level p, call = .cryptoIn level p) ∨ call = .keyUpdate ∨
      call = .dropPreviousKeys ∨ call = .discard levelApplication := by
  cases call with
  | cryptoIn level p => exact .inr (.inl ⟨level,p,rfl⟩)
  | keyUpdate => exact .inr (.inr (.inl rfl))
  | dropPreviousKeys => exact .inr (.inr (.inr (.inl rfl)))
  | discard level =>
    by_cases application : level = levelApplication
    · exact .inr (.inr (.inr (.inr (congrArg _ application))))
    · exact .inl application
  | _ => exact .inl trivial

def QuicCall.KeepsLevel (call : QuicCall) : Prop := call ≠ .discard levelApplication

/-- Past the handshake a call leaves the read keys or ends the session. -/
theorem QuicCall.exec_late {q : Quic role.Step}
    (keeps : call.KeepsLevel) (update : call ≠ .keyUpdate) (drop : call ≠ .dropPreviousKeys)
    (live : quicDead q = false) (late : role.installed q.step)
    (alive : (call.exec e q).1 ≠ some .assertFail) :
    quicDead (call.exec e q).2 = true ∨
      role.installed (call.exec e q).2.step ∧ (call.exec e q).2.keyed = q.keyed := by
  rcases call.rests_or with rests | ⟨level,p,rfl⟩ | rfl | rfl | rfl
  · rcases exec_rests rests q with ended | rested
    · exact .inl ended.1
    · exact .inr ⟨rested.step ▸ late,rested.keyed late live⟩
  · simp only [exec,exec.returned_snd] at alive ⊢
    have settled := @Endpoint.cryptoIn_preserves e role
      (fun other => role.installed other.step ∧ other.keyed = q.keyed)
      (fun _ _ given => given)
      (fun before next given ran => by
        have moved := advance_late e given.1 ran
        exact ⟨moved.1,moved.2.trans given.2⟩)
      level p q ⟨late,rfl⟩ (exec.returned_fst alive)
    rcases settled with kept | ⟨before,failed⟩
    · exact .inr kept
    · rw [failed]
      exact .inl rfl
  · exact absurd rfl update
  · exact absurd rfl drop
  · exact absurd rfl keeps

theorem QuicCall.exec_dead (call : QuicCall) {q : Quic role.Step}
    (dead : quicDead q = true) : quicDead (call.exec e q).2 = true := by
  rcases call.rests_or with rests | ⟨level,p,rfl⟩ | rfl | rfl | rfl
  · rcases exec_rests rests q with ended | rested
    · exact ended.1
    · rcases rested.state with same | ⟨start,_⟩
      · rw [quicDead,same]
        exact dead
      · simp [quicDead,start] at dead
  · simp only [exec,exec.returned_snd]
    cases role with
    | client => simp only [Endpoint.cryptoIn,quicCryptoIn,dead,if_true]
    | server => simp only [Endpoint.cryptoIn,srvQuicCryptoIn,dead,if_true]
  · simp only [exec,exec.returned_snd,quicKeyUpdate]
    split
    · exact dead
    · exact dead
  · exact dead
  · exact dead

/-- Before the keys are there, a call ends the session, leaves it so or installs them. -/
theorem QuicCall.exec_early {q : Quic role.Step}
    (early : Early q) (alive : (call.exec e q).1 ≠ some .assertFail) :
    quicDead (call.exec e q).2 = true ∨ Early (call.exec e q).2 ∨ Fresh e (call.exec e q).2 := by
  rcases call.rests_or with rests | ⟨level,p,rfl⟩ | rfl | rfl | rfl
  · rcases exec_rests rests q with ended | rested
    · exact .inl ended.1
    · have phase := (congrArg Prod.fst rested.sets).trans early.phase
      rcases rested.state with same | ⟨_,installed⟩
      · exact .inr (.inl ⟨rested.step ▸ early.step,same.trans early.state,phase⟩)
      · exact absurd installed early.step
  · simp only [exec,exec.returned_snd] at alive ⊢
    have settled := @Endpoint.cryptoIn_preserves e role (fun next => Early next ∨ Fresh e next)
      (fun before rx given => by
        rcases given with start | keys
        · exact .inl ⟨start.step,start.state,start.phase⟩
        · exact .inr ⟨keys.step,keys.keys.of_keyed rfl⟩)
      (fun before next given ran => by
        rcases given with start | keys
        · exact advance_early e start ran
        · have moved := advance_late e keys.step ran
          exact .inr ⟨moved.1,keys.keys.of_keyed moved.2⟩)
      level p q (.inl early) (exec.returned_fst alive)
    rcases settled with kept | ⟨before,failed⟩
    · exact .inr kept
    · rw [failed]
      exact .inl rfl
  · simp only [exec,exec.returned_snd,quicKeyUpdate,early.state,ne_eq,
      reduceCtorEq,not_false_eq_true,if_true]
    exact .inr (.inl early)
  · exact .inr (.inl ⟨early.step,early.state,early.phase⟩)
  · exact .inr (.inl ⟨early.step,early.state,early.phase⟩)

end Calls

/-! ### Runs -/

def Quic.installation {Step : Type} (q : Quic Step) :
    Nat × Nat × (Bytes × Bytes) × QuicHpKey × QuicHpKey :=
  (q.st.t.suite, q.st.t.quicNegotiatedVersion, q.appSecrets, q.appHpTx, q.appHpRx)

theorem Quic.installation_of_keyed {Step : Type} {q next : Quic Step}
    (same : next.keyed = q.keyed) : next.installation = q.installation := by
  simp only [Quic.keyed,Tls.secrets,Prod.mk.injEq] at same
  obtain ⟨⟨_,_,suite,version⟩,_,_,_,hpTx,hpRx,secrets⟩ := same
  simp only [Quic.installation,suite,version,hpTx,hpRx,secrets]

structure QuicTrace.Keyed {role : Endpoint} (e : Env) (tr : QuicTrace role) : Prop where
  step : role.installed tr.q.step
  keys : Generations e tr.q tr.updates tr.kept

/-- What holds after every call of a run: the session ended, has no application
keys yet, or has those of its generation. -/
def QuicTrace.Tracked {role : Endpoint} (e : Env) (tr : QuicTrace role) : Prop :=
  quicDead tr.q = true ∨ (Early tr.q ∧ tr.updates = 0 ∧ tr.kept = false) ∨ tr.Keyed e

section Runs

variable {e : Env} {role : Endpoint}

theorem dropsKeys_iff (drop : call ≠ .dropPreviousKeys) : call.dropsKeys = false := by
  cases call with
  | dropPreviousKeys => exact absurd rfl drop
  | _ => rfl

/-- A call on a session with keys ends it or keeps its installation and the
generation its history says. -/
theorem QuicTrace.step_keyed {tr next : QuicTrace role}
    (keeps : call.KeepsLevel) (live : quicDead tr.q = false) (holds : tr.Keyed e)
    (stepped : tr.step e call = some next) :
    quicDead next.q = true ∨ next.Keyed e ∧ next.q.installation = tr.q.installation := by
  obtain ⟨alive,state,plain,updated⟩ := QuicTrace.step_eq_some e stepped
  by_cases update : call = .keyUpdate
  · subst update
    rcases ran : quicKeyUpdate e tr.q with ⟨rc | _,q⟩
    · -- a refused update changes nothing
      simp only [exec,ran,exec.returned] at state plain
      have same : q = tr.q := by
        unfold quicKeyUpdate at ran
        split at ran <;> cases ran
        rfl
      obtain ⟨count,kept⟩ := plain (.inr nofun)
      have keys := holds.keys
      rw [← count,show tr.kept = next.kept from kept.symm] at keys
      refine .inr ⟨⟨?_,?_⟩,?_⟩
      · rw [state,same]
        exact holds.step
      · rw [state,same]
        exact keys
      · rw [state,same]
    · simp only [exec,ran,exec.returned] at state updated
      obtain ⟨count,kept⟩ := updated trivial trivial
      have keys := quicKeyUpdate_generations holds.keys ran
      have untouched : q.step = tr.q.step ∧ q.installation = tr.q.installation := by
        unfold quicKeyUpdate at ran
        split at ran <;> cases ran
        exact ⟨rfl,rfl⟩
      refine .inr ⟨⟨?_,?_⟩,?_⟩
      · rw [state,untouched.1]
        exact holds.step
      · rw [state,count,kept]
        exact keys
      · rw [state]
        exact untouched.2
  obtain ⟨count,kept⟩ := plain (.inl update)
  by_cases drop : call = .dropPreviousKeys
  · subst drop
    have unkept : next.kept = false := kept
    refine .inr ⟨⟨?_,?_⟩,?_⟩
    · rw [state]
      exact holds.step
    · rw [state,count,unkept]
      exact { holds.keys with retains := nofun }
    · rw [state]
      rfl
  · rw [dropsKeys_iff drop,if_neg Bool.false_ne_true] at kept
    rcases exec_late keeps update drop live holds.step alive with
      dead | ⟨step,same⟩
    · exact .inl (state ▸ dead)
    · refine .inr ⟨⟨state ▸ step,?_⟩,?_⟩
      · rw [count,kept,state]
        exact holds.keys.of_keyed same
      · rw [state]
        exact Quic.installation_of_keyed same

theorem QuicTrace.step_tracked {tr next : QuicTrace role}
    (keeps : call.KeepsLevel) (holds : tr.Tracked e) (stepped : tr.step e call = some next) :
    next.Tracked e := by
  obtain ⟨alive,state,plain,updated⟩ := QuicTrace.step_eq_some e stepped
  cases live : quicDead tr.q with
  | true => exact .inl (state ▸ exec_dead call live)
  | false =>
    rcases holds with dead | ⟨early,count,kept⟩ | keyed
    · rw [live] at dead
      cases dead
    · have quiet : next.updates = 0 ∧ next.kept = false := by
        have history := plain (by
          by_cases update : call = .keyUpdate
          · subst update
            refine .inr ?_
            simp only [exec,quicKeyUpdate,early.state,ne_eq,reduceCtorEq,not_false_eq_true,
              if_true,exec.returned]
          · exact .inl update)
        refine ⟨history.1.trans count,history.2.trans ?_⟩
        split
        · rfl
        · exact kept
      rcases exec_early early alive with dead | start | fresh
      · exact .inl (state ▸ dead)
      · exact .inr (.inl ⟨state ▸ start,quiet⟩)
      · refine .inr (.inr ⟨state ▸ fresh.step,?_⟩)
        rw [quiet.1,quiet.2,state]
        exact fresh.keys
    · rcases QuicTrace.step_keyed keeps live keyed stepped with dead | ⟨kept,_⟩
      · exact .inl dead
      · exact .inr (.inr kept)

theorem quicConfigOk_state {t : Tls} (ok : quicConfigOk e cfg = (.ok (), t)) :
    t.state = .start := by
  have epoch : ∀ cfg, Keeps Tls.state (tlsiEpochInit e cfg) := by
    intro cfg t
    unfold tlsiEpochInit
    split
    · rfl
    split
    · rfl
    split
    · rfl
    · rfl
    split
    · rfl
    dsimp only
    split
    · rfl
    split
    · rfl
    split <;> rfl
  unfold quicConfigOk at ok
  split at ok
  · cases ok
  dsimp only at ok
  split at ok
  · cases ok
  split at ok
  · cases ok
  refine ((epoch _).of_eq ok).trans ?_
  unfold takeClock
  split <;> rfl

/-- A session starts without application keys. -/
theorem init_early {buf : Bytes} {plan : List Nat} {q : Quic role.Step}
    (began : role.init e cfg buf plan = (.ok (), q)) : Early q ∧ q.appRx = .wiped := by
  cases role with
  | client =>
    simp only [Endpoint.init,quicInit,quicRefuseInit] at began
    split at began
    · cases began
    rename_i t ok
    split at began
    · cases began
    · cases began
    · rename_i hello c ran
      have start := quicConfigOk_state ok
      have fixed := ((hsfBegin_steady e).bind fun _ => hsfBuildClientHello_steady e).of_eq ran
      cases began
      refine ⟨⟨nofun,?_,rfl⟩,rfl⟩
      exact (congrArg Tls.Kept.state fixed).trans start
  | server =>
    simp only [Endpoint.init,srvQuicInit] at began
    split at began
    · cases began
    · have fixed := srvBegin_steady e (srvQuicStart cfg)
      have state : q.st.t.state = (srvBegin e (srvQuicStart cfg)).2.t.state :=
        congrArg (fun result => result.2.st.t.state) began.symm
      have step : q.step = .awaitClientHello :=
        congrArg (fun result => result.2.step) began.symm
      have phase : q.keyPhase = 0 := congrArg (fun result => result.2.keyPhase) began.symm
      refine ⟨⟨?_,state.trans (congrArg Tls.Kept.state fixed),phase⟩,
        congrArg (fun result => result.2.appRx) began.symm⟩
      rw [step]
      rintro (waits | done)
      · cases waits
      · cases done

theorem QuicTrace.run_tracked {buf : Bytes} {plan : List Nat} {q : Quic role.Step}
    (began : role.init e cfg buf plan = (.ok (), q)) {calls : List QuicCall} {tr : QuicTrace role}
    (keeps : ∀ call ∈ calls, call.KeepsLevel) (ran : (QuicTrace.start q).run e calls = some tr) :
    tr.Tracked e :=
  invariant_of_calls
    (fun _ call _ among holds => QuicTrace.step_tracked (keeps call among) holds)
    (.inr (.inl ⟨(init_early began).1,rfl,rfl⟩)) ran

theorem QuicTrace.Tracked.keyed {tr : QuicTrace role} (holds : tr.Tracked e)
    (connected : tr.q.st.t.state = .connected) : tr.Keyed e := by
  rcases holds with dead | ⟨early,_⟩ | keyed
  · simp [quicDead,connected] at dead
  · rw [early.state] at connected
    cases connected
  · exact keyed

/-- A run that stays connected keeps its installation. -/
theorem QuicTrace.run_keyed {tr last : QuicTrace role} {calls : List QuicCall}
    (keeps : ∀ call ∈ calls, call.KeepsLevel) (holds : tr.Keyed e)
    (ran : tr.run e calls = some last) (connected : last.q.st.t.state = .connected) :
    last.Keyed e ∧ last.q.installation = tr.q.installation := by
  have reached : quicDead last.q = true ∨
      last.Keyed e ∧ last.q.installation = tr.q.installation := by
    refine @invariant_of_calls _ _ _ calls tr last (fun other => quicDead other.q = true ∨
      other.Keyed e ∧ other.q.installation = tr.q.installation) ?_ (.inr ⟨holds,rfl⟩) ran
    intro before call next among given stepped
    obtain ⟨_,state,_⟩ := QuicTrace.step_eq_some e stepped
    cases live : quicDead before.q with
    | true => exact .inl (state ▸ exec_dead call live)
    | false =>
      rcases given with dead | ⟨keyed,same⟩
      · rw [live] at dead
        cases dead
      · rcases QuicTrace.step_keyed (keeps call among) live keyed stepped with dead | ⟨kept,still⟩
        · exact .inl dead
        · exact .inr ⟨kept,still.trans same⟩
  rcases reached with dead | kept
  · simp [quicDead,connected] at dead
  · exact kept

end Runs

end Chapulin
