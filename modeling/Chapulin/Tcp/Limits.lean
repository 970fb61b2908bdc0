/-
The limits of the record keys over whole runs of a TCP session, and the one
alert that cannot be sealed: when the transport does not take the KeyUpdate that
used the last number of an AES-GCM key, nothing is left for the alert.
-/

import Chapulin.Tcp.Reached

namespace Chapulin

open Lib Relation Proc Alert List

section Limits

variable {e : Env}

theorem KeySound.count {direction : KeyDirection} {d : RecDir} (sound : KeySound e direction d) :
    d.used.length = d.seq := by
  rw [← length_map Prod.fst,sound.used,length_range]

theorem recSeal_alert {d : RecDir} {cap : Nat} (sound : KeySound e .write d) (room : Room e d)
    (gcm : recAead e d = true) (wide : 24 ≤ cap) (level description : UInt8) :
    ∃ rec wr, recSeal e d recAlert [level,description] cap = some (rec, wr) ∧
      wr.used.length ≤ 2 ^ 24 := by
  have below := room gcm
  have more : d.seq ≠ uint64Max := by
    rintro last
    rw [last] at below
    exact absurd below (by decide)
  obtain ⟨rec,sealed⟩ :=
    @recSeal_takes e d recAlert cap [level,description] more room (by simp) wide
  have next := recSeal_sound sound sealed
  refine ⟨rec,_,sealed,?_⟩
  rw [next.count]
  exact next.ceiling rfl gcm

end Limits

/-! ### What a nonblocking handshake leaves of the transport -/

section Plan

variable {e : Env} {α : Type}

abbrev KeepsPlan (act : Act α) : Prop := Keeps (fun s => s.io.sendPlan) act

abbrev TcpKeepsPlan (proc : Proc ClientTcp Rc α) : Prop :=
  Keeps (fun r => r.st.io.sendPlan) proc

theorem KeepsPlan.onSt {act : Act α} (kept : KeepsPlan act) : TcpKeepsPlan (Chapulin.onSt act) :=
  fun r => kept r.st

theorem onCore_plan (handler : Handler α) : KeepsPlan (onCore handler) := fun _ => rfl

theorem hsrCheckRecordEnd_plan : KeepsPlan hsrCheckRecordEnd := by
  intro s
  unfold hsrCheckRecordEnd
  split <;> rfl

theorem tcpNonblockingTakeRecord_plan (record : Bytes) :
    KeepsPlan (tcpNonblockingTakeRecord e record) := by
  have feeds (pt : Bytes) : KeepsPlan (feedRecord pt) := by
    intro s
    unfold feedRecord hsrFeed
    dsimp only
    split <;> rfl
  intro s
  unfold tcpNonblockingTakeRecord
  split
  · rfl
  split
  · rfl
  split
  · unfold takeProtected
    split
    · rfl
    · dsimp only
      split
      · exact feeds _ _
      split <;> rfl
  split
  · rfl
  · exact feeds _ s

theorem tcpInit_plan (cfg : Cfg) (buf : Bytes) (io : Io) :
    (TcpTrace.start (Endpoint.client.tcpInit e cfg buf io).2).r.st.io.sendPlan = io.sendPlan := by
  change (tcpInit e cfg buf io).2.st.io.sendPlan = io.sendPlan
  unfold tcpInit
  split
  · rfl
  · split <;> rfl

variable (fed : e.build.transport ≠ .tcpBlocking)
include fed

theorem hsrNextMsg_plan : KeepsPlan (hsrNextMsg e) := by
  have reads : hsrNextMsg e = nextFed := if_neg fed
  rw [reads]
  intro s
  unfold nextFed
  split <;> rfl

theorem hsfReadServerHello_plan : KeepsPlan (hsfReadServerHello e) :=
  (hsrNextMsg_plan fed).bind fun _ => onCore_plan _

theorem stepServerHello_plan : TcpKeepsPlan (stepServerHello e) := by
  refine (hsfReadServerHello_plan fed).onSt.bind fun info => .ite ?_ ?_
  · refine .bind keeps_get fun r => .ite (fun _ => rfl) (.bind (fun _ => rfl) fun hello => ?_)
    cases hello with
    | none => exact keeps_stop _
    | some hello =>
      exact .bind (keeps_modify fun _ => rfl) fun _ => keeps_modify fun _ => rfl
  · exact .bind (fun _ => rfl) fun _ => hsrCheckRecordEnd_plan.onSt.bind fun _ =>
      .bind (fun _ => rfl) fun _ => .bind (fun _ => rfl) fun _ => keeps_modify fun _ => rfl

theorem stepFinished_plan : TcpKeepsPlan (stepFinished e) := by
  have reads : KeepsPlan (hsfReadFinished e) :=
    .bind (keeps_gets _) fun _ => (hsrNextMsg_plan fed).bind fun _ => onCore_plan _
  have stages (pt : Bytes) : TcpKeepsPlan (stageSealed e pt) := by
    intro r
    unfold stageSealed
    split <;> rfl
  exact reads.onSt.bind fun _ => hsrCheckRecordEnd_plan.onSt.bind fun _ => .bind (fun _ => rfl)
    fun _ => .bind (fun _ => rfl) fun finished => (stages finished).bind fun _ =>
      .bind (fun _ => rfl) fun _ => .bind (keeps_modify fun _ => rfl) fun _ =>
        keeps_modify fun _ => rfl

theorem tcpNonblockingAdvance_plan : TcpKeepsPlan (tcpNonblockingAdvance e) := by
  have sets (step : ClientStep) : TcpKeepsPlan (setStep step) := keeps_modify fun _ => rfl
  have reads : KeepsPlan (hsfReadEncryptedExtensions e) :=
    (hsrNextMsg_plan fed).bind fun _ => onCore_plan _
  have extended : TcpKeepsPlan (stepEncryptedExtensions e) :=
    reads.onSt.bind fun _ => .bind keeps_get fun _ => sets _
  have verified : KeepsPlan (hsaReadCertificateVerify e) :=
    .bind (keeps_gets _) fun _ => (hsrNextMsg_plan fed).bind fun _ => onCore_plan _
  have authenticated : KeepsPlan (hsaServerAuth e) :=
    (hsrNextMsg_plan fed).bind fun _ => .bind (onCore_plan _) fun _ =>
      .ite verified (keeps_pure _)
  intro r
  unfold tcpNonblockingAdvance
  cases r.step with
  | awaitServerHello => exact stepServerHello_plan fed r
  | awaitRetryHello => exact stepServerHello_plan fed r
  | awaitEncryptedExtensions => exact extended r
  | awaitCertificate => exact (authenticated.onSt.bind fun _ => sets _) r
  | awaitCertificateVerify => exact (verified.onSt.bind fun _ => sets _) r
  | awaitFinished => exact stepFinished_plan fed r
  | complete => rfl

theorem tcpIn_plan (p : Bytes) (r : ClientTcp) (alive : (tcpIn e p r).1.1 ≠ .error .assertFail) :
    (tcpIn e p r).2.st.io.sendPlan = r.st.io.sendPlan := by
  let kept (next : ClientTcp) : Prop := next.st.io.sendPlan = r.st.io.sendPlan
  have respects : TcpDriver.Respects (clientDriver e) kept kept :=
    ⟨fun _ _ same ran => ((tcpNonblockingAdvance_plan fed).of_eq ran).trans same,
      fun _ _ _ same ran =>
        ((tcpNonblockingAdvance_plan fed).of_eq ran).trans same,fun _ _ same => same⟩
  unfold tcpIn at alive ⊢
  split
  · rfl
  split
  · rfl
  rename_i live ready
  rw [if_neg live,if_neg ready] at alive
  rcases TcpDriver.inLoop_settled respects (fun _ same => same) (fun _ same _ => same)
    (fun _ _ same => same) _ p 0
    (fun record _ _ _ same ran =>
      ((tcpNonblockingTakeRecord_plan record).onSt.of_eq ran).trans same)
    (fun record _ _ _ _ same ran =>
      ((tcpNonblockingTakeRecord_plan record).onSt.of_eq ran).trans same)
    rfl alive with same | ⟨before,same,failed⟩
  · exact same
  · rw [failed]
    exact same

def TcpCall.Feeds : TcpCall → Prop
  | .input _ | .output _ => True
  | _ => False

theorem run_plan {calls : List TcpCall} (feeds : ∀ call ∈ calls, call.Feeds)
    {tr last : TcpTrace .client} (ran : tr.run e calls = some last) :
    last.r.st.io.sendPlan = tr.r.st.io.sendPlan := by
  refine @invariant_of_calls _ _ _ calls tr last
    (fun other => other.r.st.io.sendPlan = tr.r.st.io.sendPlan)
    (fun before call next among kept one => ?_) rfl ran
  have fits := feeds call among
  rw [(TcpTrace.step_eq_some one).1,← kept]
  cases call with
  | input p => exact tcpIn_plan fed p before.r (exec_input_alive (TcpTrace.step_alive one))
  | output cap =>
    change (tcpOut cap before.r).2.st.io.sendPlan = _
    rcases tcpOut_cases cap before.r with ⟨same,_⟩ | ⟨_,_,_,same⟩ <;> rw [same]
  | read _ | write _ | fail _ | close | tcpClose => exact fits.elim

end Plan

/-! ### A key whose last number went to its KeyUpdate -/

def sampleGcmEnv : Env :=
  .sample { Build.plain .tcpNonblocking .client with
    cnsa2 := true
    aesGcm := true
    cnsa2Rules := fun _ => ⟨rfl,nofun,nofun,rfl⟩
    cnsa2Server := nofun
    mldsaPin := nofun
    aesClient := fun _ _ => .inr rfl }

def sampleGcmCfg : Cfg := { sampleTcpCfg with psk := some (replicate 48 7), bufLen := 2048 }

def sampleGcmHello : Bytes :=
  [2,0] ++ be16 1628 ++ [3,3] ++ replicate 32 9 ++ [0,0x13,2,0] ++ be16 1588 ++
    [0,0x2b,0,2,3,4] ++ [0,0x33] ++ be16 1572 ++ [2,2] ++ be16 1568 ++
    replicate 1568 8 ++ [0,41,0,2,0,0]

def sampleGcmFlight : Bytes :=
  ((recSeal sampleGcmEnv (recDirInitSuite sampleGcmEnv [] suiteAes256GcmSha384) recHandshake
    ([8,0,0,2,0,0] ++ [20,0,0,48] ++ replicate 48 2) 4096).map Prod.fst).getD []

def sampleGcmIo : Io :=
  { inbox := [], sendPlan := replicate (recAesGcmRecordsMax + 1) 23, sent := [], crypto := []
    tx := [] }

def sampleGcmRun : Option (TcpTrace .client) :=
  (TcpTrace.start
    (Endpoint.client.tcpInit sampleGcmEnv sampleGcmCfg (zeros 2048) sampleGcmIo).2).run
    sampleGcmEnv [.output 4096,.input (samplePlainRecord sampleGcmHello),.input sampleGcmFlight,
      .output 4096]

structure Writing (s : St) (sealed : Nat) : Prop where
  state : s.t.state = .connected
  keys : s.t.keys = true
  owed : s.t.keyUpdateOwed = false
  gcm : recAead sampleGcmEnv s.t.wr = true
  seq : s.t.wr.seq = sealed
  epochs : s.t.sendEpochs = 0
  limit : s.t.peerLimit = 512
  alerts : s.t.alerts = []
  heard : s.rx.alertReceived = 0
  plan : s.io.sendPlan = replicate (recAesGcmRecordsMax + 1 - sealed) 23

theorem sampleGcm_writing : ∃ tr, sampleGcmRun = some tr ∧ Writing tr.r.st 0 := by
  have facts : sampleGcmRun.map (fun tr => decide (tr.r.st.t.state = .connected ∧
      tr.r.st.t.keys = true ∧ tr.r.st.t.keyUpdateOwed = false ∧
      recAead sampleGcmEnv tr.r.st.t.wr = true ∧ tr.r.st.t.wr.seq = 0 ∧
      tr.r.st.t.sendEpochs = 0 ∧ tr.r.st.t.peerLimit = 512 ∧ tr.r.st.t.alerts = [] ∧
      tr.r.st.rx.alertReceived = 0)) = some true := by decide +kernel
  rcases ran : sampleGcmRun with _ | tr
  · rw [ran] at facts
    cases facts
  have plan : tr.r.st.io.sendPlan = sampleGcmIo.sendPlan := by
    unfold sampleGcmRun at ran
    rw [run_plan (by decide) (fun call among => ?_) ran,tcpInit_plan]
    simp only [mem_cons,not_mem_nil,or_false] at among
    rcases among with rfl | rfl | rfl | rfl <;> trivial
  rw [ran] at facts
  obtain ⟨state,keys,owed,gcm,seq,epochs,limit,alerts,heard⟩ :=
    of_decide_eq_true (Option.some.inj facts)
  exact ⟨tr,rfl,state,keys,owed,gcm,seq,epochs,limit,alerts,heard,plan⟩

theorem sampleGcm_record {d : RecDir} {type : Nat} {pt : Bytes} {cap : Nat}
    (more : d.seq < recAesGcmRecordsMax) (short : pt.length ≤ 512) (wide : 1024 ≤ cap) :
    ∃ rec, recSeal sampleGcmEnv d type pt cap = some (rec, d.advance (byte type).toNat) ∧
      rec.length = pt.length + 22 := by
  have last : d.seq ≠ uint64Max := by
    rintro last
    rw [last] at more
    exact absurd more (by decide)
  obtain ⟨rec,sealed⟩ := @recSeal_takes sampleGcmEnv d type cap pt last (fun _ => more) (by omega)
    (by simp only [recOverhead,recHdr,aeadTag]; omega)
  exact ⟨rec,sealed,recSeal_length Crypto.sample_sound sealed⟩

theorem sendLoop_nil (fuel : Nat) (plan : List Nat) : sendLoop fuel [] plan = (true, [], plan) := by
  cases fuel <;> rfl

theorem sendStaged_taken {rec : Bytes} {s : St} {rest : List Nat} (full : 0 < rec.length)
    (plan : s.io.sendPlan = rec.length :: rest) :
    ∃ io, sendStaged rec s = (.ok (), { s with io := io }) ∧ io.sendPlan = rest := by
  have loop : sendLoop rec.length rec (rec.length :: rest) = (true, rec, rest) := by
    obtain ⟨first,more,rfl⟩ := exists_cons_of_length_pos full
    have all : (first :: more).drop (more.length + 1) = [] := drop_length
    have whole : (first :: more).take (more.length + 1) = first :: more :=
      take_of_length_le (Nat.le_refl _)
    rw [length_cons,sendLoop,if_neg (by simp)]
    · simp only [all,whole,sendLoop_nil,append_nil]
    · nofun
  unfold sendStaged onIo Proc.within ioSendAll
  simp only [plan,loop,if_true]
  exact ⟨_,rfl,rfl⟩

theorem keyUpdateBeforeRecord_none {e : Env} {s : St} (due : keyUpdateDue e s.t = false) :
    keyUpdateBeforeRecord e s = (.ok (), s) := by
  simp only [keyUpdateBeforeRecord,due,Bool.not_false,if_true]

theorem writeRecord_taken {e : Env} {s next : St} {inner rec : Bytes} {wr : RecDir}
    (short : inner.length ≤ e.build.txStage)
    (sealing : recSeal e s.t.wr recAppdata inner (txCap e.build) = some (rec, wr))
    (sent : sendStaged rec (s.withWr wr) = (.ok (), next)) :
    writeRecord e inner s = (.ok (), next) := by
  have sentHere : sendStaged rec { s with t := { s.t with wr := wr } } = (.ok (), next) := sent
  simp only [writeRecord,if_neg (Nat.not_lt.mpr short),sealing,sentHere]

theorem sampleGcm_write {s : St} {sealed : Nat} (writing : Writing s sealed)
    (more : sealed < recAesGcmRecordsMax - 1) :
    ∃ next, tlsWriteParts sampleGcmEnv [[0]] s = (.ok (), next) ∧ Writing next (sealed + 1) := by
  have due : keyUpdateDue sampleGcmEnv s.t = false := by
    simp only [keyUpdateDue,writing.owed,writing.gcm,writing.seq,Bool.false_or,Bool.true_and,
      decide_eq_false_iff_not]
    omega
  have limit : recordPlaintextMax sampleGcmEnv s.t = 512 := by
    rw [recordPlaintextMax,writing.limit]
    decide
  obtain ⟨rec,sealing,length⟩ := @sampleGcm_record s.t.wr recAppdata [0] (txCap sampleGcmEnv.build)
    (by rw [writing.seq]; omega) (by decide) (by decide)
  have plan : s.io.sendPlan =
      rec.length :: replicate (recAesGcmRecordsMax + 1 - (sealed + 1)) 23 := by
    have size : rec.length = 23 := length
    have count : recAesGcmRecordsMax + 1 - sealed = recAesGcmRecordsMax + 1 - (sealed + 1) + 1 := by
      omega
    rw [writing.plan,size,count,replicate_succ]
  obtain ⟨io,sent,left⟩ := @sendStaged_taken rec (s.withWr (s.t.wr.advance (byte recAppdata).toNat))
    _ (by rw [length]; exact Nat.succ_pos _) plan
  refine ⟨{ s.withWr (s.t.wr.advance (byte recAppdata).toNat) with io := io },?_,?_⟩
  · unfold tlsWriteParts
    rw [if_neg (by simp [writing.state]),limit]
    change (do
      keyUpdateBeforeRecord sampleGcmEnv
      writeRecord sampleGcmEnv [0]
      writeLoop sampleGcmEnv 512 0 [] : Act Unit) s = _
    rw [bind_of_ok (keyUpdateBeforeRecord_none due),
      bind_of_ok (writeRecord_taken (by decide) sealing sent)]
    rfl
  · exact ⟨writing.state,writing.keys,writing.owed,writing.gcm,congrArg (· + 1) writing.seq,
      writing.epochs,writing.limit,writing.alerts,writing.heard,left⟩

theorem sampleGcm_writes (count : Nat) {tr : TcpTrace .client} {sealed : Nat}
    (writing : Writing tr.r.st sealed) (more : sealed + count ≤ recAesGcmRecordsMax - 1) :
    ∃ last, tr.run sampleGcmEnv (replicate count (.write [[0]])) = some last ∧
      Writing last.r.st (sealed + count) := by
  induction count generalizing tr sealed with
  | zero => exact ⟨tr,rfl,writing⟩
  | succ count ih =>
    obtain ⟨next,wrote,further⟩ := sampleGcm_write writing (by omega)
    have one : tr.step sampleGcmEnv (.write [[0]]) =
        some { tr with r := { tr.r with st := next } } := by
      simp only [TcpTrace.step,TcpCall.exec,Proc.bind_apply,onSt,Proc.within,wrote,Proc.pure_apply,
        TcpCall.data,append_nil]
    obtain ⟨last,ran,there⟩ :=
      @ih { tr with r := { tr.r with st := next } } (sealed + 1) further (by omega)
    refine ⟨last,?_,?_⟩
    · rw [replicate_succ]
      exact foldlM_cons_eq_some.mpr ⟨_,one,ran⟩
    · rw [← Nat.add_assoc,Nat.add_right_comm]
      exact there

theorem hspostSendKeyUpdate_untaken {e : Env} {s last : St} {rec : Bytes} {wr : RecDir} {rc : Rc}
    (sealing : recSeal e s.t.wr recHandshake keyUpdateMessage (txCap e.build) = some (rec, wr))
    (sent : sendStaged rec (s.withWr wr) = (.error rc, last)) :
    hspostSendKeyUpdate e s = (.error .eio, last) := by
  unfold hspostSendKeyUpdate
  split
  · rename_i refused
    cases sealing.symm.trans refused
  · rename_i same
    cases sealing.symm.trans same
    split
    · rename_i ran
      cases sent.symm.trans ran
      rfl
    · rename_i ran
      cases sent.symm.trans ran

theorem sendStaged_untaken {rec : Bytes} {s : St} (length : rec.length = 27)
    (plan : s.io.sendPlan = [23,23]) :
    ∃ io, sendStaged rec s = (.error .eio, { s with io := io }) := by
  have loop : (sendLoop rec.length rec [23,23]).1 = false := by
    have rest : (rec.drop 23).length = 4 := by
      rw [length_drop,length]
    obtain ⟨first,more,rfl⟩ := exists_cons_of_length_pos (by omega : 0 < rec.length)
    rw [length,sendLoop,if_neg (by rw [length]; decide)]
    · obtain ⟨next,left,same⟩ := exists_cons_of_length_pos
        (by omega : 0 < ((first :: more).drop 23).length)
      rw [same] at rest ⊢
      dsimp only
      rw [sendLoop,if_pos (by rw [rest]; decide)]
      nofun
    · nofun
  unfold sendStaged onIo Proc.within ioSendAll
  rcases ran : sendLoop rec.length rec [23,23] with ⟨all,taken,left⟩
  rw [ran] at loop
  simp only [plan,ran]
  dsimp only at loop
  rw [loop]
  exact ⟨_,rfl⟩

theorem tlsiFail_unsealed {e : Env} {s : St} {description : Nat} (heard : s.rx.alertReceived = 0)
    (keys : s.t.keys = true)
    (refused : recSeal e s.t.wr recAlert [byte 2,byte description] (txCap e.build) = none) :
    (tlsiFail e description s).2.t.alertSent = description ∧
      (tlsiFail e description s).2.t.alerts = s.t.alerts := by
  simp only [tlsiFail,heard,if_true,tlsiSendAlert,keys,refused]
  exact ⟨rfl,rfl⟩

/-- The KeyUpdate that is not taken uses the last number, so no alert follows. -/
theorem sampleGcm_untaken {s : St} (writing : Writing s (recAesGcmRecordsMax - 1)) :
    ∃ next, tlsWriteParts sampleGcmEnv [[0]] s = (.error .eio, next) ∧ next.t.state = .failed ∧
      next.t.alertSent = internalError ∧ next.t.alerts = [] := by
  have due : keyUpdateDue sampleGcmEnv s.t = true := by
    simp only [keyUpdateDue,writing.owed,writing.gcm,writing.seq,Bool.false_or,Bool.true_and,
      decide_eq_true_eq,ge_iff_le,Nat.le_refl]
  obtain ⟨rec,sealing,length⟩ := @sampleGcm_record s.t.wr recHandshake keyUpdateMessage
    (txCap sampleGcmEnv.build) (by rw [writing.seq]; decide) (by decide) (by decide)
  obtain ⟨io,sent⟩ := @sendStaged_untaken rec (s.withWr (s.t.wr.advance (byte recHandshake).toNat))
    length (writing.plan.trans (by decide))
  have updates := hspostSendKeyUpdate_untaken sealing sent
  have seq : (s.t.wr.advance (byte recHandshake).toNat).seq = recAesGcmRecordsMax :=
    congrArg (· + 1) writing.seq
  have refused : recSeal sampleGcmEnv (s.t.wr.advance (byte recHandshake).toNat) recAlert
      [byte 2,byte internalError] (txCap sampleGcmEnv.build) = none := by
    rw [Option.eq_none_iff_forall_ne_some]
    rintro ⟨rec,wr⟩ sealed
    have below := (recSeal_eq_some.mp sealed).2.1 writing.gcm
    exact absurd below (Nat.not_lt.mpr (Nat.le_of_eq seq.symm))
  have before : keyUpdateBeforeRecord sampleGcmEnv s = failWith sampleGcmEnv internalError .eio
      { s.withWr (s.t.wr.advance (byte recHandshake).toNat) with io := io } := by
    have few : ¬ s.t.sendEpochs ≥ sendEpochsMax := by
      rw [writing.epochs]
      decide
    simp only [keyUpdateBeforeRecord,due,Bool.not_true,Bool.false_eq_true,if_false,few,updates]
  obtain ⟨alerted,alerts⟩ := @tlsiFail_unsealed sampleGcmEnv
    { s.withWr (s.t.wr.advance (byte recHandshake).toNat) with io := io } internalError
    writing.heard writing.keys refused
  refine ⟨_,?_,rfl,alerted,alerts.trans writing.alerts⟩
  unfold tlsWriteParts
  rw [if_neg (by simp [writing.state])]
  change (do
    keyUpdateBeforeRecord sampleGcmEnv
    writeRecord sampleGcmEnv _
    writeLoop sampleGcmEnv _ 0 _ : Act Unit) s = _
  exact bind_of_error before

theorem sampleGcm_ends : ∃ calls tr,
    (TcpTrace.start (Endpoint.client.tcpInit sampleGcmEnv sampleGcmCfg (zeros 2048)
      sampleGcmIo).2).run sampleGcmEnv calls = some tr ∧
    tr.r.st.t.state = .failed ∧ tr.r.st.t.alertSent = internalError ∧ tr.r.st.t.alerts = [] := by
  obtain ⟨first,began,writing⟩ := sampleGcm_writing
  obtain ⟨full,wrote,there⟩ := sampleGcm_writes (recAesGcmRecordsMax - 1) writing (by omega)
  rw [Nat.zero_add] at there
  obtain ⟨next,failed,facts⟩ := sampleGcm_untaken there
  have one : full.step sampleGcmEnv (.write [[0]]) =
      some { full with r := { full.r with st := next } } := by
    simp only [TcpTrace.step,TcpCall.exec,Proc.bind_apply,onSt,Proc.within,failed]
  unfold sampleGcmRun at began
  exact ⟨_,_,TcpTrace.run_append began (TcpTrace.run_append wrote (TcpTrace.run_one one)),facts⟩

/-! ### The keys of every session -/

/-- Every key of a session was used at 0, 1, 2 and so on, an AES-GCM write key
at most 2^24 times; a session that may still send an alert can seal it; and the
alert a failed session owed was sealed or sent, unless the write key it was wiped
with was exhausted: its KeyUpdate was not taken, or its numbers ran out. -/
theorem record_numbers {e : Env} {s : St} (tcp : e.build.quic = false) (reached : TcpReached e s) :
    (∀ entry ∈ s.t.spentBoth, entry.2.used.map Prod.fst = range entry.2.seq ∧
        entry.2.seq ≤ uint64Max ∧
        (entry.1 = .write → recAead e entry.2 = true → entry.2.used.length ≤ 2 ^ 24)) ∧
      (s.t.state = .start ∨ s.t.state = .connected → recAead e s.t.wr = true →
        ∀ level description cap, 24 ≤ cap → ∃ rec wr,
          recSeal e s.t.wr recAlert [level,description] cap = some (rec, wr) ∧
            wr.used.length ≤ 2 ^ 24) ∧
      (s.t.alertSent ≠ 0 → s.t.alerts = [(2, s.t.alertSent)] ∨
        ∃ d, s.t.LastKey d ∧ Exhausted e s.io.sent d) := by
  have between := reached.between tcp
  have sound : s.guarded.Sound e := by
    rcases between with starting | live | done
    · exact starting.sound
    · exact live.sound
    · exact done.sound
  refine ⟨fun entry among => ?_,fun alive gcm level description cap wide => ?_,fun sent => ?_⟩
  · have key : KeySound e entry.1 entry.2 :=
      forall_mem_append.mpr ⟨sound.spend sound.rd,forall_mem_singleton.mpr sound.wr⟩ entry among
    refine ⟨key.used,key.bounded,fun writes gcm => ?_⟩
    rw [key.count]
    exact key.ceiling writes gcm
  · have room : Room e s.t.wr := by
      rcases between with starting | live | done
      · refine room_of_few ?_
        rw [starting.fresh]
        exact Nat.zero_le _
      · exact live.room
      · rcases alive with start | connected
        · rcases done.ended with closed | failed
          · cases start.symm.trans closed
          · cases start.symm.trans failed
        · exact absurd connected done.idle
    exact recSeal_alert sound.wr room gcm wide level description
  · rcases between with starting | live | done
    · exact absurd starting.calm.sent sent
    · exact absurd live.calm.sent sent
    · exact done.owed sent

/-- A connected session under AES-GCM, and one whose KeyUpdate was not taken. -/
theorem record_numbers_sample :
    (∃ s, TcpReached sampleGcmEnv s ∧ s.t.state = .connected ∧
      (∀ entry ∈ s.t.spentBoth, entry.2.used.map Prod.fst = range entry.2.seq) ∧
      ∃ rec wr, recSeal sampleGcmEnv s.t.wr recAlert [2,80] 24 = some (rec, wr) ∧
        wr.used.length ≤ 2 ^ 24) ∧
    ∃ s, TcpReached sampleGcmEnv s ∧ s.t.alertSent = internalError ∧ s.t.alerts = [] ∧
      ∃ d, s.t.LastKey d ∧ Exhausted sampleGcmEnv s.io.sent d := by
  constructor
  · obtain ⟨tr,ran,writing⟩ := sampleGcm_writing
    have reached : TcpReached sampleGcmEnv tr.r.st := .nonblocking ran
    obtain ⟨numbers,alert,_⟩ := record_numbers (by decide) reached
    exact ⟨_,reached,writing.state,fun entry among => (numbers entry among).1,
      alert (.inr writing.state) writing.gcm 2 80 24 (by decide)⟩
  · obtain ⟨calls,tr,ran,_,sent,alerts⟩ := sampleGcm_ends
    have reached : TcpReached sampleGcmEnv tr.r.st := .nonblocking ran
    have owed := (record_numbers (by decide) reached).2.2 (by rw [sent]; decide)
    rw [alerts] at owed
    exact ⟨_,reached,sent,alerts,owed.resolve_left (List.cons_ne_nil _ _).symm⟩

/-- A session owes an alert that cannot be sealed: its AES-GCM key sealed 2^24
records, the last a KeyUpdate that the transport did not take. -/
theorem keyUpdate_exhausts :
    ∃ tr, TcpReached sampleGcmEnv tr ∧ tr.t.state = .failed ∧ tr.t.alertSent = internalError ∧
      tr.t.alerts = [] := by
  obtain ⟨calls,tr,ran,failed⟩ := sampleGcm_ends
  exact ⟨_,.nonblocking ran,failed⟩

end Chapulin
