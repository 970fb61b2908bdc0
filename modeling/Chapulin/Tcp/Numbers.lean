/-
The numbers the record keys of a TCP session are used at, and the alert that
ends it.

Each key is used at 0, 1, 2 and so on, below the limits of its AEAD.  A live
session keeps a number for its last alert, so that the one alert it owes is
sealed, unless the key was exhausted by the KeyUpdate that was to replace it.
-/

import Chapulin.Server.Ceiling
import Chapulin.Tcp.Calls

namespace Chapulin

open Lib Relation List

variable {pt rec : Bytes} {cap : Nat} {s : St} {t : Tls} {Step : Type}

section Keys

variable (e : Env)

structure KeySound (direction : KeyDirection) (d : RecDir) : Prop where
  used : d.used.map Prod.fst = range d.seq
  bounded : d.seq ≤ uint64Max
  ceiling : direction = .write → recAead e d = true → d.seq ≤ recAesGcmRecordsMax

variable {e} {direction : KeyDirection} {d next : RecDir}

theorem keySound_init (direction : KeyDirection) (secret : Bytes) (suite : Nat) :
    KeySound e direction (recDirInitSuite e secret suite) :=
  ⟨rfl,Nat.zero_le _,fun _ _ => Nat.zero_le _⟩

theorem keySound_wiped (direction : KeyDirection) : KeySound e direction .wiped :=
  ⟨rfl,Nat.zero_le _,fun _ _ => Nat.zero_le _⟩

/-- A key used once more stays within its numbers. -/
theorem KeySound.advance (sound : KeySound e direction d) (type : Nat) (more : d.seq ≠ uint64Max)
    (room : direction = .write → recAead e d = true → d.seq < recAesGcmRecordsMax) :
    KeySound e direction (d.advance type) where
  used := by
    simp only [RecDir.advance,map_append,map_cons,map_nil,List.range_succ,sound.used]
  bounded := Nat.lt_of_le_of_ne sound.bounded more
  ceiling := room

theorem recSeal_sound {type : Nat} (sound : KeySound e .write d)
    (sealed : recSeal e d type pt cap = some (rec, next)) : KeySound e .write next := by
  obtain ⟨more,room,_,_,_,rfl⟩ := recSeal_eq_some.mp sealed
  exact sound.advance _ more fun _ => room

theorem recOpen_sound (sound : KeySound e .read d) : KeySound e .read (recOpen e d rec cap).2 := by
  unfold recOpen
  split
  · exact sound
  rename_i more
  split
  · exact sound
  dsimp only
  split
  · exact sound
  split
  · exact sound
  split
  · exact sound
  split <;> exact sound.advance _ more nofun

/-! ### Along the steps -/

structure Guarded.Sound (e : Env) (g : Guarded) : Prop where
  rd : KeySound e .read g.rd
  wr : KeySound e .write g.wr
  spent : ∀ entry ∈ g.spent, KeySound e entry.1 entry.2

theorem Guarded.Sound.spend {g : Guarded} (sound : g.Sound e) {direction : KeyDirection}
    {d : RecDir} (key : KeySound e direction d) :
    ∀ entry ∈ g.spent ++ [(direction, d)], KeySound e entry.1 entry.2 :=
  forall_mem_append.mpr ⟨sound.spent,forall_mem_singleton.mpr key⟩

theorem move_sound {fits : RecDir → Prop} {next : St} (move : Move e fits s next)
    (sound : s.guarded.Sound e) : next.guarded.Sound e := by
  cases move with
  | quiet same =>
    rw [same]
    exact sound
  | seals _ sealed => exact ⟨sound.rd,recSeal_sound sound.wr sealed,sound.spent⟩
  | opens => exact ⟨recOpen_sound sound.rd,sound.wr,sound.spent⟩
  | writeKeys => exact ⟨sound.rd,keySound_init _ _ _,sound.spend sound.wr⟩
  | readKeys => exact ⟨keySound_init _ _ _,sound.wr,sound.spend sound.rd⟩
  | keyed => exact ⟨sound.rd,sound.wr,sound.spent⟩
  | keyUpdate sealed =>
    exact ⟨sound.rd,keySound_init _ _ _,sound.spend (recSeal_sound sound.wr sealed)⟩
  | readEnds => exact ⟨keySound_wiped _,sound.wr,sound.spend sound.rd⟩
  | connect => exact ⟨sound.rd,sound.wr,sound.spent⟩

structure Guarded.Calm (g : Guarded) : Prop where
  alerts : g.alerts = []
  sent : g.alertSent = 0
  received : g.alertReceived = 0

theorem move_calm {fits : RecDir → Prop} {next : St} (move : Move e fits s next)
    (calm : s.guarded.Calm) : next.guarded.Calm := by
  cases move with
  | quiet same =>
    rw [same]
    exact calm
  | seals _ _ | opens | writeKeys | readKeys | keyed | keyUpdate _ | readEnds | connect =>
    exact ⟨calm.alerts,calm.sent,calm.received⟩

variable (e)

def Room (d : RecDir) : Prop := recAead e d = true → d.seq < recAesGcmRecordsMax

/-- The last number of a key went to a KeyUpdate, of which the transport took a
part only, and nothing was handed to it since. -/
def Untaken (sent : List Bytes) (d : RecDir) : Prop :=
  d.seq = recAesGcmRecordsMax ∧ ∃ before cap rec,
    recSeal e before recHandshake keyUpdateMessage cap = some (rec, d) ∧ SentPart rec sent

/-- A write key with a number for the alert, or one whose KeyUpdate was not taken. -/
def Reserve (sent : List Bytes) (d : RecDir) : Prop :=
  recAead e d = true → d.seq < recAesGcmRecordsMax ∨ Untaken e sent d

variable {e} {sent : List Bytes}

theorem Room.reserve (room : Room e d) : Reserve e sent d := fun gcm => .inl (room gcm)

theorem room_init (secret : Bytes) (suite : Nat) : Room e (recDirInitSuite e secret suite) :=
  fun _ => Nat.zero_lt_succ _

theorem recSeal_reserve
    (sealed : recSeal e d recHandshake keyUpdateMessage cap = some (rec, next))
    (part : SentPart rec sent) : Reserve e sent next := by
  intro gcm
  have ceiling : next.seq ≤ recAesGcmRecordsMax := by
    obtain ⟨_,room,_,_,_,rfl⟩ := recSeal_eq_some.mp sealed
    exact room gcm
  exact (Nat.lt_or_eq_of_le ceiling).imp_right fun last => ⟨last,d,cap,rec,sealed,part⟩

theorem move_room {next : St} (move : Move e (Spare e) s next) (room : Room e s.t.wr) :
    Room e next.t.wr := by
  cases move with
  | quiet same =>
    have wr : next.t.wr = s.t.wr := congrArg Guarded.wr same
    rw [wr]
    exact room
  | seals spare sealed =>
    intro gcm
    obtain ⟨_,_,_,_,_,rfl⟩ := recSeal_eq_some.mp sealed
    have below := spare gcm
    change s.t.wr.seq + 1 < recAesGcmRecordsMax
    omega
  | writeKeys => exact room_init _ _
  | keyUpdate _ => exact room_init _ _
  | opens | readKeys | keyed | readEnds | connect => exact room

end Keys

/-! ### The end of a session -/

section Ending

variable (e : Env)

/-- A key no alert could be sealed under: an AES-GCM key whose KeyUpdate was not
taken, or a ChaCha20-Poly1305 key whose numbers ran out. -/
def Exhausted (sent : List Bytes) (d : RecDir) : Prop :=
  if recAead e d = true then Untaken e sent d else d.seq = uint64Max

/-- The write key a session was wiped with: only wiped keys were retired behind it. -/
def Tls.LastKey (t : Tls) (d : RecDir) : Prop :=
  ∃ before after, t.spent = before ++ (.write, d) :: after ∧ ∀ entry ∈ after, entry.2 = .wiped

structure St.Over (s : St) : Prop where
  sound : s.guarded.Sound e
  ended : s.t.state = .closed ∨ s.t.state = .failed
  keys : s.t.keys = false
  wiped : s.t.rd = .wiped ∧ s.t.wr = .wiped ∧ s.t.rdSecret = [] ∧ s.t.wrSecret = [] ∧
    s.t.resMaster = [] ∧ s.t.expMaster = []
  single : s.t.alerts.length ≤ 1
  unanswered : s.rx.alertReceived ≠ 0 → s.t.alerts = []
  owed : s.t.alertSent ≠ 0 →
    s.t.alerts = [(2, s.t.alertSent)] ∨ ∃ d, s.t.LastKey d ∧ Exhausted e s.io.sent d

structure St.Owing (s : St) : Prop where
  sound : s.guarded.Sound e
  alerts : s.t.alerts = []
  sent : s.t.alertSent = 0
  reserve : Reserve e s.io.sent s.t.wr
  speaks : s.t.keys = true ∨ s.t.state = .start

variable {e} {sent : List Bytes}

theorem recSeal_none {d : RecDir} {level description : UInt8} (room : 24 ≤ cap)
    (reserve : Reserve e sent d)
    (refused : recSeal e d recAlert [level,description] cap = none) : Exhausted e sent d := by
  by_contra lives
  have gcm (on : recAead e d = true) : d.seq < recAesGcmRecordsMax :=
    (reserve on).resolve_right fun taken => lives (by rwa [Exhausted,if_pos on])
  have more : d.seq ≠ uint64Max := by
    intro last
    cases on : recAead e d with
    | true => exact absurd (last ▸ gcm on) (by decide)
    | false => exact lives (by simp [Exhausted,on,last])
  obtain ⟨rec,sealed⟩ := @recSeal_takes e d recAlert cap [level,description] more gcm (by simp) room
  cases refused.symm.trans sealed

theorem Guarded.Sound.wiped {heard : Nat} (sound : (t.kept.guarded heard).Sound e)
    (state : SessionState) (received : Nat) :
    (Tls.Kept.guarded { t.wipe with state := state }.kept received).Sound e := by
  exact ⟨keySound_wiped _,keySound_wiped _,
    forall_mem_append.mpr ⟨sound.spend sound.rd,forall_mem_singleton.mpr sound.wr⟩⟩

theorem over_of_wipe {h : Hs} {rx : Rx} {io : Io} {state : SessionState}
    (sound : Guarded.Sound e (t.kept.guarded rx.alertReceived))
    (ends : state = .closed ∨ state = .failed)
    (alerts : t.alerts = [] ∨ (∃ one, t.alerts = [one]) ∧ rx.alertReceived = 0)
    (owed : t.alertSent ≠ 0 → t.alerts = [(2, t.alertSent)] ∨ Exhausted e io.sent t.wr) :
    St.Over e { t := { t.wipe with state := state }, h := h, rx := rx, io := io } where
  sound := sound.wiped state _
  ended := ends
  keys := rfl
  wiped := ⟨rfl,rfl,rfl,rfl,rfl,rfl⟩
  single := by
    change t.alerts.length ≤ 1
    rcases alerts with silent | ⟨⟨one,alert⟩,_⟩
    · rw [silent]
      exact Nat.zero_le _
    · rw [alert]
      exact Nat.le_refl _
  unanswered heard := by
    rcases alerts with silent | ⟨_,unheard⟩
    · exact silent
    · exact absurd unheard heard
  owed sent := by
    rcases owed sent with alert | exhausted
    · exact .inl alert
    · exact .inr ⟨t.wr,⟨_,[],rfl,nofun⟩,exhausted⟩

theorem txCap_alert (b : Build) (tcp : b.quic = false) : 24 ≤ txCap b := by
  have range := b.txPtRange
  simp only [txCap,Build.txStage,tcp,Bool.false_eq_true,if_false,recHdr]
  omega

theorem tlsiSendAlert_owing (level description : Nat) (tcp : e.build.quic = false)
    (sound : s.guarded.Sound e) (silent : s.t.alerts = []) (reserve : Reserve e s.io.sent s.t.wr)
    (speaks : s.t.keys = true ∨ s.t.state = .start) :
    (tlsiSendAlert e level description s).2.guarded.Sound e ∧
      ((tlsiSendAlert e level description s).2.t.alerts = [(level, description)] ∨
        (tlsiSendAlert e level description s).2.t.alerts = [] ∧
          Exhausted e (tlsiSendAlert e level description s).2.io.sent
            (tlsiSendAlert e level description s).2.t.wr) := by
  unfold tlsiSendAlert
  split
  · split
    · rename_i refused
      exact ⟨sound,.inr ⟨silent,recSeal_none (txCap_alert _ tcp) reserve refused⟩⟩
    · rename_i rec wr sealed
      refine ⟨⟨sound.rd,recSeal_sound sound.wr sealed,sound.spent⟩,.inl ?_⟩
      change s.t.alerts ++ [(level, description)] = _
      rw [silent]
      rfl
  rename_i keyless
  rw [if_pos (speaks.resolve_left keyless)]
  refine ⟨⟨sound.rd,sound.wr,sound.spent⟩,.inl ?_⟩
  change s.t.alerts ++ [(level, description)] = _
  rw [silent]
  rfl

theorem tlsiSendAlert_sent (level description : Nat) :
    Proc.Keeps (fun s => (s.t.alertSent, s.rx)) (tlsiSendAlert e level description) := by
  intro s
  unfold tlsiSendAlert
  split
  · split <;> rfl
  · split <;> rfl

/-- Failing wipes the keys and leaves the session over. -/
theorem tlsiFail_over (tcp : e.build.quic = false) (owing : s.Owing e)
    (description : Nat) : (tlsiFail e description s).2.Over e := by
  unfold tlsiFail
  by_cases unheard : s.rx.alertReceived = 0
  · rw [if_pos unheard]
    have alerted := tlsiSendAlert_owing (s := { s with t := { s.t with alertSent := description } })
      2 description tcp
      ⟨owing.sound.rd,owing.sound.wr,owing.sound.spent⟩ owing.alerts owing.reserve owing.speaks
    have kept := tlsiSendAlert_sent (e := e) 2 description
      { s with t := { s.t with alertSent := description } }
    generalize tlsiSendAlert e 2 description { s with t := { s.t with alertSent := description } } =
      result at alerted kept
    obtain ⟨sent,heard⟩ := Prod.mk.inj kept
    refine over_of_wipe alerted.1 (.inr rfl) ?_ fun _ => ?_
    · rcases alerted.2 with one | ⟨silent,_⟩
      · exact .inr ⟨⟨_,one⟩,(congrArg Rx.alertReceived heard).trans unheard⟩
      · exact .inl silent
    · rw [sent]
      exact alerted.2.imp_right And.right
  · rw [if_neg unheard]
    exact over_of_wipe owing.sound (.inr rfl) (.inl owing.alerts) fun sent =>
      absurd owing.sent sent

theorem St.Over.again (done : s.Over e) {h : Hs} {rx : Rx} {io : Io}
    (heard : rx.alertReceived = s.rx.alertReceived) (same : io.sent = s.io.sent) :
    St.Over e { t := { s.t.wipe with state := .closed }, h := h, rx := rx, io := io } where
  sound := done.sound.wiped .closed _
  ended := .inl rfl
  keys := rfl
  wiped := ⟨rfl,rfl,rfl,rfl,rfl,rfl⟩
  single := done.single
  unanswered := by
    rw [heard]
    exact done.unanswered
  owed sent := by
    rcases done.owed sent with alert | ⟨d,⟨before,after,spent,wiped⟩,exhausted⟩
    · exact .inl alert
    · rw [← same] at exhausted
      refine .inr ⟨d,⟨before,after ++ [(.read, s.t.rd),(.write, s.t.wr)],?_,?_⟩,exhausted⟩
      · change s.t.spent ++ [(.read, s.t.rd)] ++ [(.write, s.t.wr)] = _
        simp [spent]
      · simpa [or_imp,forall_and,done.wiped.1,done.wiped.2.1] using wiped

theorem tlsClose_over (tcp : e.build.quic = false) (owing : s.Owing e)
    (unheard : s.rx.alertReceived = 0) : (tlsClose e s).Over e := by
  unfold tlsClose
  split
  · have alerted := tlsiSendAlert_owing 1 Alert.closeNotify tcp owing.sound owing.alerts
      owing.reserve owing.speaks
    have kept := tlsiSendAlert_sent (e := e) 1 Alert.closeNotify s
    generalize tlsiSendAlert e 1 Alert.closeNotify s = result at alerted kept
    obtain ⟨sent,heard⟩ := Prod.mk.inj kept
    refine over_of_wipe alerted.1 (.inl rfl) ?_ fun owed => absurd (sent.trans owing.sent) owed
    rcases alerted.2 with one | ⟨silent,_⟩
    · exact .inr ⟨⟨_,one⟩,(congrArg Rx.alertReceived heard).trans unheard⟩
    · exact .inl silent
  · exact over_of_wipe owing.sound (.inl rfl) (.inl owing.alerts) fun sent =>
      absurd owing.sent sent

theorem St.Over.tlsClose (done : s.Over e) : (tlsClose e s).Over e := by
  unfold Chapulin.tlsClose
  rw [done.keys]
  exact done.again rfl rfl

theorem tcpClose_over {r : Tcp Step} (sound : r.st.guarded.Sound e)
    (calm : r.st.guarded.Calm) : (tcpClose r).st.Over e :=
  over_of_wipe sound (.inl rfl) (.inl calm.alerts) fun sent => absurd calm.sent sent

theorem St.Over.tcpClose {r : Tcp Step} (done : r.st.Over e) :
    (tcpClose r).st.Over e := done.again rfl rfl

theorem alertRecord_owing (description : Nat) (sound : KeySound e .write t.wr)
    (reserve : Reserve e sent t.wr) :
    KeySound e .write (alertRecord e t description).2 ∧
      ((alertRecord e t description).1 = [] →
        Exhausted e sent (alertRecord e t description).2) := by
  unfold alertRecord
  split
  · split
    · rename_i rec wr sealed
      refine ⟨recSeal_sound sound sealed,fun empty => ?_⟩
      obtain ⟨_,_,_,_,record,_⟩ := recSeal_eq_some.mp sealed
      rw [record] at empty
      cases empty
    · rename_i refused
      exact ⟨sound,fun _ => recSeal_none (Nat.le_refl _) reserve refused⟩
  · exact ⟨sound,nofun⟩

theorem tcpNonblockingFail_over {r : Tcp Step} (owing : r.st.Owing e) :
    (tcpNonblockingFail e r).2.st.Over e := by
  unfold tcpNonblockingFail
  by_cases owes : (if r.st.rx.alertReceived = 0 then r.st.h.alert else 0) = 0
  · simp only [owes,ne_eq,not_true_eq_false,if_false,if_true]
    exact over_of_wipe ⟨owing.sound.rd,owing.sound.wr,owing.sound.spent⟩ (.inr rfl)
      (.inl owing.alerts) fun sent => absurd rfl sent
  · have unheard : r.st.rx.alertReceived = 0 := by
      by_contra heard
      exact owes (if_neg heard)
    simp only [unheard,if_true] at owes ⊢
    simp only [ne_eq,owes,not_false_eq_true,if_true,owing.alerts,nil_append]
    have record := alertRecord_owing r.st.h.alert owing.sound.wr owing.reserve
    generalize alertRecord e r.st.t r.st.h.alert = result at record
    obtain ⟨rec,wr⟩ := result
    dsimp only at record ⊢
    rcases eq_or_ne rec [] with empty | full
    · rw [if_pos empty]
      exact over_of_wipe ⟨owing.sound.rd,record.1,owing.sound.spent⟩ (.inr rfl) (.inl rfl)
        fun _ => .inr (record.2 empty)
    · rw [if_neg full]
      exact over_of_wipe ⟨owing.sound.rd,record.1,owing.sound.spent⟩ (.inr rfl)
        (.inr ⟨⟨_,rfl⟩,unheard⟩) fun _ => .inl rfl

end Ending

end Chapulin
