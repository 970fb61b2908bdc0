/-
What the two tcp-nonblocking drivers share (`tcp_nonblocking_frame.c`, and the
loops `tcp_nonblocking.c` and `srv_tcp_nonblocking.c` both have): taking a
record the caller delivered, driving the steps it completes, and failing.
-/

import Chapulin.Reader

namespace Chapulin

open Lib Proc Alert

/-- `ch_tcp_priv`: a session with the driver's step and the staged output
`[tx_off, tx_len)` of `tx`. -/
structure Tcp (Step : Type) where
  st : St
  step : Step
  txLen : Nat
  txOff : Nat

section Frame

variable {Step : Type}

def onSt {α : Type} (act : Act α) : Proc (Tcp Step) Rc α :=
  Proc.within Tcp.st (fun st r => { r with st := st }) act

/-- Wipes `handshake_state`, the reader's counters with it. -/
def wipeHs (s : St) : St :=
  { s with h := .wiped, rx := { s.rx with ccsSeen := 0, quiet := 0 } }

/-- `tcp_nonblocking_wipe` on the session. -/
def wipeSession (s : St) : St :=
  let s := wipeHs s
  { s with
    t := s.t.wipe
    rx := s.rx.reset
    io := { s.io with tx := zeros s.io.tx.length } }

def tcpNonblockingWipe (r : Tcp Step) : Tcp Step :=
  { r with st := wipeSession r.st, txLen := 0, txOff := 0 }

def alertRecordLen : Nat := 24

/-- `alert_record`, no bytes when the seal fails, and the write keys after it. -/
def alertRecord (e : Env) (t : Tls) (description : Nat) : Bytes × RecDir :=
  if t.keys then
    match recSeal e t.wr recAlert [2,byte description] alertRecordLen with
    | some (rec, wr) => (rec, wr)
    | none => ([], t.wr)
  else (clearAlert 2 description, t.wr)

/-- `tcp_nonblocking_fail`: the alert record to hand to the peer, and the dead session. -/
def tcpNonblockingFail (e : Env) (r : Tcp Step) : Bytes × Tcp Step :=
  let alert := if r.st.rx.alertReceived = 0 then r.st.h.alert else 0
  let (record, wr) := if alert ≠ 0 then alertRecord e r.st.t alert else ([], r.st.t.wr)
  let st := { r.st with t := { r.st.t with
    wr := wr
    alertSent := alert
    alerts := if record = [] then r.st.t.alerts else r.st.t.alerts ++ [(2, alert)] } }
  let r := tcpNonblockingWipe { r with st := st }
  (record, { r with st := { r.st with t := { r.st.t with state := .failed } } })

def tcpNonblockingSessionDead (r : Tcp Step) : Bool :=
  r.st.t.state == .closed || r.st.t.state == .failed

def feedRecord (pt : Bytes) : Act Unit := fun s =>
  let (took, s) := hsrFeed pt s
  if took ≠ pt.length then stopAlert recordOverflow .ecap s else (.ok (), s)

/-- The protected half of `tcp_nonblocking_take_record`. -/
def takeProtected (e : Env) (rec : Bytes) : Act Unit := fun s =>
  match recOpen e s.t.rd rec (rec.length - recHdr) with
  | (none, rd) => stopAlert badRecordMac .eproto { s with t := { s.t with rd := rd } }
  | (some (pt, type), rd) =>
    let s := { s with t := { s.t with rd := rd } }
    if type = recHandshake then feedRecord pt s
    else
      let s := { s with h := { s.h with alert := unexpectedMessage } }
      if type = recAlert then refuseAlertRecord pt s else (.error .eproto, s)

/-- `tcp_nonblocking_take_record`, with every change_cipher_spec entered as
skipped: the function reads nothing of one but its outer type. -/
def tcpNonblockingTakeRecord (e : Env) (rec : Bytes) : Act Unit := fun s =>
  if recordType rec = recCcs then
    (.ok (), { s with rx := s.rx.noteCcs rec true s.t.cfg.bufLen s.h.alert })
  else if recordType rec = recAlert then
    refuseAlertRecord (rec.drop recHdr) { s with h := { s.h with alert := unexpectedMessage } }
  else if s.h.encrypted then takeProtected e rec s
  else if recordType rec ≠ recHandshake then stopAlert unexpectedMessage .eproto s
  else feedRecord (rec.drop recHdr) s

/-- What the two drivers do differently: the step a whole message takes, what
becomes of a failure, and when the two loops return to the caller. -/
structure TcpDriver (Step : Type) where
  advance : Proc (Tcp Step) Rc Unit
  fail : Tcp Step → Tcp Step
  driveDone : Tcp Step → Bool
  inDone : Tcp Step → Bool

namespace TcpDriver

variable (d : TcpDriver Step)

/-- A failed assertion stops the program; every other failure fails the session. -/
def stopped (rc : Rc) (r : Tcp Step) : Tcp Step := if rc = .assertFail then r else d.fail r

/-- The loop of `drive`; every turn takes a message off the window. -/
def driveLoop : Nat → Proc (Tcp Step) Rc Unit
  | 0 => pure ()
  | fuel + 1 => fun r =>
    match hsrPeekMessage r.st.t.cfg.bufLen r.st.rx.window with
    | .ok none => (.ok (), r)
    | .error (rc, alert) =>
      (.error rc, d.fail { r with st := { r.st with h := { r.st.h with alert := alert } } })
    | .ok (some _) =>
      match d.advance r with
      | (.error rc, r) => (.error rc, d.stopped rc r)
      | (.ok _, r) => if d.driveDone r then (.ok (), r) else driveLoop fuel r

def drive : Proc (Tcp Step) Rc Unit := fun r => driveLoop d (r.st.rx.window.length + 1) r

def refuseLength (header : Bytes) (r : Tcp Step) : Tcp Step :=
  d.fail { r with st := { r.st with
    h := { r.st.h with alert := recordOverflow }
    rx := r.st.rx.noteRefused (some header) r.st.t.cfg.bufLen r.st.h.alert } }

/-- The loop of `tcp_in` and `srv_tcp_in` over the bytes delivered: the result
and how many of them were consumed.  Every turn consumes a record. -/
def inLoop (e : Env) : Nat → Bytes → Nat → Tcp Step → (Except Rc Unit × Nat) × Tcp Step
  | 0, _, consumed, r => ((.ok (), consumed), r)
  | fuel + 1, p, consumed, r =>
    if p.length < recHdr then ((.ok (), consumed), r)
    else if recordBody p > recBodyMax (recordType p) then
      ((.error .eproto, consumed), refuseLength d (p.take recHdr) r)
    else if p.length < recHdr + recordBody p then ((.ok (), consumed), r)
    else
      let record := p.take (recHdr + recordBody p)
      match onSt (tcpNonblockingTakeRecord e record) r with
      | (.error rc, r) => ((.error rc, consumed), d.fail r)
      | (.ok _, r) =>
        match drive d r with
        | (.error rc, r) => ((.error rc, consumed + record.length), r)
        | (.ok _, r) =>
          if d.inDone r then ((.ok (), consumed + record.length), r)
          else inLoop e fuel (p.drop record.length) (consumed + record.length) r

/-! ### Rules for the two loops -/

section Rules

variable {d} {inv weak : Tcp Step → Prop}

/-- What holds after a loop: the invariant still does, or the driver failed the
session from a state with the weaker property. -/
def Settled (d : TcpDriver Step) (inv weak : Tcp Step → Prop) (r : Tcp Step) : Prop :=
  inv r ∨ ∃ before, weak before ∧ r = d.fail before

/-- The steps of a driver against an invariant: what they return into, and what
they stop in. -/
structure Respects (d : TcpDriver Step) (inv weak : Tcp Step → Prop) : Prop where
  advanced : ∀ r next, inv r → d.advance r = (.ok (), next) → inv next
  stopped : ∀ r rc next, inv r → d.advance r = (.error rc, next) → weak next
  alerted : ∀ r alert, inv r →
    weak { r with st := { r.st with h := { r.st.h with alert := alert } } }

theorem driveLoop_settled (respects : Respects d inv weak) (fuel : Nat) {r : Tcp Step}
    (holds : inv r) (alive : (d.driveLoop fuel r).1 ≠ .error .assertFail) :
    Settled d inv weak (d.driveLoop fuel r).2 ∧
      ((d.driveLoop fuel r).1 = .ok () → inv (d.driveLoop fuel r).2) := by
  induction fuel generalizing r with
  | zero => exact ⟨.inl holds,fun _ => holds⟩
  | succ fuel ih =>
    unfold TcpDriver.driveLoop at alive ⊢
    generalize hsrPeekMessage r.st.t.cfg.bufLen r.st.rx.window = front at alive ⊢
    rcases front with ⟨rc,alert⟩ | (_ | raw)
    · exact ⟨.inr ⟨_,respects.alerted r alert holds,rfl⟩,nofun⟩
    · exact ⟨.inl holds,fun _ => holds⟩
    dsimp only at alive ⊢
    rcases ran : d.advance r with ⟨rc | _,next⟩
    · have known : rc ≠ .assertFail := by
        rintro rfl
        simp [ran] at alive
      refine ⟨.inr ⟨next,respects.stopped r rc next holds ran,?_⟩,nofun⟩
      simp only [TcpDriver.stopped,known,if_false]
    · rw [ran] at alive
      dsimp only at alive ⊢
      have kept := respects.advanced r next holds ran
      split
      · exact ⟨.inl kept,fun _ => kept⟩
      · rename_i goes
        rw [if_neg goes] at alive
        exact ih kept alive

def wholeRecords : Nat → Bytes → List Bytes
  | 0, _ => []
  | fuel + 1, p =>
    if p.length < recHdr ∨ p.length < recHdr + recordBody p then []
    else
      let record := p.take (recHdr + recordBody p)
      record :: wholeRecords fuel (p.drop record.length)

/-- The same for the loop over delivered records, where a record is only taken
in a state that is ready for it. -/
theorem inLoop_settled {e : Env} {ready : Tcp Step → Prop} (respects : Respects d inv weak)
    (starts : ∀ r, ready r → inv r) (resumes : ∀ r, inv r → d.inDone r = false → ready r)
    (refusedLength : ∀ r header, ready r → weak { r with st := { r.st with
      h := { r.st.h with alert := recordOverflow }
      rx := r.st.rx.noteRefused (some header) r.st.t.cfg.bufLen r.st.h.alert } })
    (fuel : Nat) (p : Bytes) (consumed : Nat)
    (taken : ∀ record ∈ wholeRecords fuel p, ∀ r next, ready r →
      onSt (tcpNonblockingTakeRecord e record) r = (.ok (), next) → inv next)
    (refused : ∀ record ∈ wholeRecords fuel p, ∀ r rc next, ready r →
      onSt (tcpNonblockingTakeRecord e record) r = (.error rc, next) → weak next)
    {r : Tcp Step} (holds : ready r)
    (alive : (d.inLoop e fuel p consumed r).1.1 ≠ .error .assertFail) :
    Settled d inv weak (d.inLoop e fuel p consumed r).2 := by
  induction fuel generalizing p consumed r with
  | zero => exact .inl (starts r holds)
  | succ fuel ih =>
    unfold TcpDriver.inLoop at alive ⊢
    split
    · exact .inl (starts r holds)
    rename_i long
    rw [if_neg long] at alive
    split
    · exact .inr ⟨_,refusedLength r _ holds,rfl⟩
    rename_i bounded
    rw [if_neg bounded] at alive
    split
    · exact .inl (starts r holds)
    rename_i whole
    rw [if_neg whole] at alive
    have records : wholeRecords (fuel + 1) p =
        p.take (recHdr + recordBody p) ::
          wholeRecords fuel (p.drop (p.take (recHdr + recordBody p)).length) := by
      rw [wholeRecords,if_neg (not_or.mpr ⟨long,whole⟩)]
    rw [records] at taken refused
    dsimp only at alive ⊢
    rcases took : onSt (tcpNonblockingTakeRecord e (p.take (recHdr + recordBody p))) r with
      ⟨rc | _,next⟩
    · exact .inr ⟨next,refused _ List.mem_cons_self r rc next holds took,rfl⟩
    rw [took] at alive
    dsimp only at alive ⊢
    have kept := taken _ List.mem_cons_self r next holds took
    have driven := driveLoop_settled respects (next.st.rx.window.length + 1) kept
    unfold TcpDriver.drive at alive ⊢
    rcases drove : d.driveLoop (next.st.rx.window.length + 1) next with ⟨rc | _,last⟩
    · rw [drove] at driven alive
      dsimp only at alive ⊢
      exact (driven alive).1
    · rw [drove] at driven alive
      dsimp only at alive ⊢
      have still := (driven nofun).2 rfl
      split
      · exact .inl still
      · rename_i more
        rw [if_neg more] at alive
        exact ih _ _ (fun record among => taken record (.tail _ among))
          (fun record among => refused record (.tail _ among))
          (resumes last still (Bool.eq_false_iff.mpr more)) alive

end Rules

end TcpDriver

end Frame

/-! ### What taking records leaves alone -/

theorem onSt_settings {Step α : Type} {act : Act α} (kept : ActFixes act) :
    Keeps (fun r => r.st.settings) (onSt act : Proc (Tcp Step) Rc α) := fun r => kept r.st

theorem feedRecord_fetched (pt : Bytes) : Keeps St.fetched (feedRecord pt) := by
  intro s
  unfold feedRecord hsrFeed
  dsimp only
  split <;> exact s.compact_fetched

theorem takeProtected_fetched (e : Env) (rec : Bytes) : Keeps St.fetched (takeProtected e rec) := by
  intro s
  unfold takeProtected
  split
  · rfl
  · dsimp only
    split
    · exact feedRecord_fetched _ _
    split <;> rfl

theorem tcpNonblockingTakeRecord_fetched (e : Env) (rec : Bytes) :
    Keeps St.fetched (tcpNonblockingTakeRecord e rec) := by
  intro s
  unfold tcpNonblockingTakeRecord
  split
  · rfl
  split
  · rfl
  split
  · exact takeProtected_fetched e rec s
  split
  · rfl
  · exact feedRecord_fetched _ s

theorem tcpNonblockingTakeRecord_protocol (e : Env) (rec : Bytes) :
    KeepsProtocol (tcpNonblockingTakeRecord e rec) :=
  (tcpNonblockingTakeRecord_fetched e rec).map Prod.fst

end Chapulin
