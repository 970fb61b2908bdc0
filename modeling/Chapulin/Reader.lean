/-
The transport, the alert on failure and the two handshake readers
(`io.c`, `session.c`, `handshake_record.c`).

The blocking reader pulls records until a whole message stands in the window.
The other reader is fed by its driver and only hands out what is there.
-/

import Chapulin.Record

namespace Chapulin

open Lib Proc Alert

/-! ### Sending and receiving -/

/-- The `send` loop: whether every byte was taken, the bytes that were, and the
rest of the plan.  The fuel is the number of bytes. -/
def sendLoop : Nat → Bytes → List Nat → Bool × Bytes × List Nat
  | _, [], plan => (true, [], plan)
  | 0, _ :: _, plan => (false, [], plan)
  | _ + 1, p, [] => (true, p, [])
  | fuel + 1, p, took :: plan =>
    if took = 0 ∨ took > p.length then (false, [], plan)
    else
      let (all, rest, plan) := sendLoop fuel (p.drop took) plan
      (all, p.take took ++ rest, plan)

def ioSendAll (p : Bytes) : Proc Io Rc Unit := fun io =>
  let (all, taken, plan) := sendLoop p.length p io.sendPlan
  (if all then .ok () else .error .eio, { io with sendPlan := plan, sent := io.sent ++ [taken] })

/-- One `recv` call for at most `n` bytes; none for an error. -/
def ioRecv (n : Nat) (io : Io) : Option Bytes × Io :=
  match io.inbox with
  | [] => (none, io)
  | chunk :: rest =>
    if chunk.length ≤ n then (some chunk, { io with inbox := rest })
    else (some (chunk.take n), { io with inbox := chunk.drop n :: rest })

/-- Why no record was read: the result code, the alert when one is written, and
the header when the length check refused it. -/
structure ReadStop where
  rc : Rc
  alert : Option Nat
  refused : Option Bytes
  deriving DecidableEq, Repr

def ReadStop.io : ReadStop := { rc := .eio, alert := none, refused := none }

/-- `read_exact`; the fuel is the number of bytes wanted. -/
def readExact : Nat → Nat → Proc Io ReadStop Bytes
  | _, 0 => Proc.ret []
  | 0, _ + 1 => Proc.stop .io
  | fuel + 1, n + 1 => fun io =>
    match ioRecv (n + 1) io with
    | (none, io) => (.error .io, io)
    | (some [], io) => (.error .io, io)
    | (some got, io) =>
      match readExact fuel (n + 1 - got.length) io with
      | (.ok rest, io) => (.ok (got ++ rest), io)
      | (.error stop, io) => (.error stop, io)

/-- `check_body`: what refuses a declared body, and the alert it writes. -/
def checkBody (bufLen cap : Nat) (limitSent : Bool) (outer body : Nat) :
    Except (Rc × Option Nat) Unit :=
  if body > recBodyMax outer then .error (.eproto, some recordOverflow)
  else if body = 0 then .error (.eproto, none)
  else if recHdr + body > bufLen then
    .error (.ecap, some (if limitSent then recordOverflow else internalError))
  else if recHdr + body > cap then .error (.ecap, none)
  else .ok ()

/-- The five header bytes.  Without blocking, no byte at all is not an error. -/
def readHeader (nonblocking : Bool) : Proc Io ReadStop Bytes :=
  if nonblocking then fun io =>
    match ioRecv recHdr io with
    | (none, io) => (.error .io, io)
    | (some [], io) => (.error { rc := .tcpAgain, alert := none, refused := none }, io)
    | (some got, io) =>
      match readExact recHdr (recHdr - got.length) io with
      | (.ok rest, io) => (.ok (got ++ rest), io)
      | (.error stop, io) => (.error stop, io)
  else readExact recHdr recHdr

def recordType (rec : Bytes) : Nat := (rec.getD 0 0).toNat

def recordBody (rec : Bytes) : Nat := ofBe16 (rec.getD 3 0) (rec.getD 4 0)

def ioReadRecord (nonblocking : Bool) (bufLen cap : Nat) (limitSent : Bool) :
    Proc Io ReadStop Bytes := fun io =>
  if cap < recHdr then (.error { rc := .ecap, alert := none, refused := none }, io)
  else
    match readHeader nonblocking io with
    | (.error stop, io) => (.error stop, io)
    | (.ok header, io) =>
      match checkBody bufLen cap limitSent (recordType header) (recordBody header) with
      | .error (rc, alert) => (.error { rc := rc, alert := alert, refused := some header }, io)
      | .ok _ =>
        match readExact (recordBody header) (recordBody header) io with
        | (.error stop, io) => (.error stop, io)
        | (.ok body, io) => (.ok (header ++ body), io)

def inboxSize (io : Io) : Nat := (io.inbox.map List.length).sum

/-! ### Failing a session (`session.c`) -/

def txCap (b : Build) : Nat := recHdr + b.txStage

def clearAlert (level description : Nat) : Bytes :=
  recordHeader recAlert 2 ++ [byte level,byte description]

def onIo {α : Type} (io : Proc Io Rc α) : Act α :=
  Proc.within St.io (fun io s => { s with io := io }) io

def tlsiSendAlert (e : Env) (level description : Nat) : Act Unit := fun s =>
  if s.t.keys then
    match recSeal e s.t.wr recAlert [byte level,byte description] (txCap e.build) with
    | none => (.error .ecap, s)
    | some (rec, wr) =>
      onIo (ioSendAll rec)
        { s with
          t := { s.t with wr := wr, alerts := s.t.alerts ++ [(level, description)] }
          io := { s.io with tx := copyAt s.io.tx 0 rec } }
  else if s.t.state = .start then
    onIo (ioSendAll (clearAlert level description))
      { s with t := { s.t with alerts := s.t.alerts ++ [(level, description)] } }
  else (.ok (), s)

def Tls.wipe (t : Tls) : Tls :=
  { t with
    rd := .wiped, wr := .wiped, rdSecret := [], wrSecret := [], resMaster := [], expMaster := [],
    keys := false, spent := t.spentBoth }

def Rx.reset (rx : Rx) : Rx := { rx with ptOff := 0, ptLen := 0 }

def tlsiWipe (s : St) : St := { s with t := s.t.wipe, rx := s.rx.reset }

/-- `tlsi_fail`: alerts the peer unless it alerted first, and wipes. -/
def tlsiFail (e : Env) (description : Nat) : Act Unit := fun s =>
  let (sent, s) :=
    if s.rx.alertReceived = 0 then
      tlsiSendAlert e 2 description { s with t := { s.t with alertSent := description } }
    else (.ok (), s)
  let s := tlsiWipe s
  (sent, { s with t := { s.t with state := .failed } })

/-- Fails the session and returns `rc`, whatever came of the alert. -/
def failWith {α : Type} (e : Env) (description : Nat) (rc : Rc) : Act α := fun s =>
  (.error rc, (tlsiFail e description s).2)

/-! ### Reading messages (`handshake_record.c`) -/

/-- `hsr_refuse_alert`: the alert of the peer to record, 0 for none, and the
alert to send, when the function writes one. -/
def hsrRefuseAlert (received : Nat) (pt : Bytes) : Nat × Option Nat :=
  match pt with
  | [_,description] =>
    if description.toNat ≠ closeNotify ∧ description.toNat ≠ userCanceled then
      (description.toNat, none)
    else (received, none)
  | _ => (received, some decodeError)

def refuseAlertRecord {α : Type} (pt : Bytes) : Act α := fun s =>
  let (received, alert) := hsrRefuseAlert s.rx.alertReceived pt
  (.error .eproto, { s with
    rx := { s.rx with alertReceived := received }
    h := { s.h with alert := alert.getD s.h.alert } })

def stopAlert {α : Type} (alert : Nat) (rc : Rc) : Act α := onCore (refuse alert rc)

def Rx.compact (rx : Rx) : Rx :=
  if rx.ptOff > 0 then
    { rx with
      buf := copyAt rx.buf 0 rx.window, ptLen := rx.ptLen - rx.ptOff, ptOff := 0 }
  else rx

def Rx.append (rx : Rx) (bytes : Bytes) : Rx :=
  { rx with buf := copyAt rx.buf rx.ptLen bytes, ptLen := rx.ptLen + bytes.length }

/-- `accept_record`: takes the plaintext of a record into the window. -/
def acceptRecord (e : Env) (rec : Bytes) : Act Unit := fun s =>
  if !s.h.encrypted then
    if recordType rec ≠ recHandshake then (.error .eproto, s)
    else (.ok (), { s with rx := s.rx.append (rec.drop recHdr) })
  else if recordType rec ≠ recAppdata then (.error .eproto, s)
  else
    match recOpen e s.t.rd rec (s.t.cfg.bufLen - s.rx.ptLen) with
    | (none, rd) => stopAlert badRecordMac .eauth { s with t := { s.t with rd := rd } }
    | (some (pt, type), rd) =>
      let s := { s with t := { s.t with rd := rd } }
      if type = recAlert then refuseAlertRecord pt s
      else if type ≠ recHandshake then (.error .eproto, s)
      else (.ok (), { s with rx := s.rx.append pt })

def ccsTolerable (rec : Bytes) (rx : Rx) : Bool × Rx :=
  if rec.length ≠ recHdr + 1 ∨ rec.getD recHdr 0 ≠ 1 then (false, rx)
  else
    let rx := { rx with ccsSeen := rx.ccsSeen + 1 }
    (rx.ccsSeen ≤ 4, rx)

def Rx.noteCcs (rx : Rx) (rec : Bytes) (skipped : Bool) (room held : Nat) : Rx :=
  { rx with ccs := rx.ccs ++ [{ bytes := rec, skipped := skipped, room := room, held := held }] }

/-- Takes a record that carries handshake bytes, and counts one that added none. -/
def takeQuietly (e : Env) (rec : Bytes) : Act Unit := fun s =>
  match acceptRecord e rec s with
  | (.error rc, next) => (.error rc, next)
  | (.ok _, next) =>
    if next.rx.ptLen ≠ s.rx.ptLen then (.ok (), next)
    else
      let next := { next with rx := { next.rx with quiet := next.rx.quiet + 1 } }
      if next.rx.quiet > quietCap then stopAlert unexpectedMessage .eproto next
      else (.ok (), next)

def dispatchRecord (e : Env) (rec : Bytes) : Act Bool := fun s =>
  if recordType rec = recCcs then
    let (tolerable, rx) := ccsTolerable rec s.rx
    let s := { s with rx := rx.noteCcs rec tolerable (s.t.cfg.bufLen - s.rx.ptLen) s.h.alert }
    if tolerable then (.ok true, s) else stopAlert unexpectedMessage .eproto s
  else if recordType rec = recAlert then refuseAlertRecord (rec.drop recHdr) s
  else
    match takeQuietly e rec s with
    | (.error rc, s) => (.error rc, s)
    | (.ok _, s) => (.ok false, s)

def Rx.noteRefused (rx : Rx) (refused : Option Bytes) (room held : Nat) : Rx :=
  match refused with
  | some header => if recordType header = recCcs then rx.noteCcs header false room held else rx
  | none => rx

def fetchOne : Act Bytes := fun s =>
  match ioReadRecord false s.t.cfg.bufLen (s.t.cfg.bufLen - s.rx.ptLen) s.t.limitSent s.io with
  | (.error stop, io) =>
    (.error stop.rc, { s with
      io := io
      h := { s.h with alert := stop.alert.getD s.h.alert }
      rx := s.rx.noteRefused stop.refused (s.t.cfg.bufLen - s.rx.ptLen) s.h.alert })
  | (.ok rec, io) => (.ok rec, { s with io := io })

/-- The loop of `hsr_fetch_record`; every turn reads a record. -/
def fetchLoop (e : Env) : Nat → Act Unit
  | 0 => Proc.stop .eio
  | fuel + 1 => do
      let rec ← fetchOne
      let again ← dispatchRecord e rec
      if again then fetchLoop e fuel else pure ()

def hsrFetchRecord (e : Env) : Act Unit := fun s =>
  fetchLoop e (inboxSize s.io + 1) { s with rx := s.rx.compact }

/-- A whole message at the front of the window, none while it is incomplete;
the error is a length no message may have. -/
def frontMessage (window : Bytes) : Except Unit (Option Bytes) :=
  match window with
  | _ :: high :: middle :: low :: _ =>
    let length := ofBe24 high middle low
    if length > 0x4000 then .error ()
    else if window.length < 4 + length then .ok none
    else .ok (some (window.take (4 + length)))
  | _ => .ok none

def Rx.handOut (rx : Rx) (raw : Bytes) : Rx :=
  { rx with ptOff := rx.ptOff + raw.length, taken := rx.taken ++ [raw] }

/-- The loop of the blocking `hsr_next_msg`. -/
def nextMsgLoop (e : Env) : Nat → Act Bytes
  | 0 => Proc.stop .eio
  | fuel + 1 => fun s =>
    match frontMessage s.rx.window with
    | .error _ => (.error .eproto, s)
    | .ok (some raw) => (.ok raw, { s with rx := s.rx.handOut raw })
    | .ok none =>
      match hsrFetchRecord e s with
      | (.error rc, s) => (.error rc, s)
      | (.ok _, s) => nextMsgLoop e fuel s

def hsrFeed (p : Bytes) (s : St) : Nat × St :=
  let rx := s.rx.compact
  let take := min p.length (s.t.cfg.bufLen - rx.ptLen)
  (take, { s with rx := rx.append (p.take take) })

/-- `hsr_peek_message`: the message at the front, none for `HSR_INCOMPLETE`, or
the code and alert that refuse it. -/
def hsrPeekMessage (bufLen : Nat) (window : Bytes) : Except (Rc × Nat) (Option Bytes) :=
  match window with
  | _ :: high :: middle :: low :: _ =>
    let length := ofBe24 high middle low
    if length > 0x4000 then .error (.eproto, decodeError)
    else if 4 + length > bufLen then .error (.ecap, internalError)
    else if window.length < 4 + length then .ok none
    else .ok (some (window.take (4 + length)))
  | _ => .ok none

/-- The `hsr_next_msg` of a driver that feeds the window. -/
def nextFed : Act Bytes := fun s =>
  match hsrPeekMessage s.t.cfg.bufLen s.rx.window with
  | .error (rc, alert) => stopAlert alert rc s
  | .ok none => (.error .einval, s)
  | .ok (some raw) => (.ok raw, { s with rx := s.rx.handOut raw })

def hsrNextMsg (e : Env) : Act Bytes :=
  if e.build.transport = .tcpBlocking then fun s => nextMsgLoop e (inboxSize s.io + 1) s
  else nextFed

def msgType (raw : Bytes) : Nat := (raw.getD 0 0).toNat

def msgBody (raw : Bytes) : Bytes := raw.drop 4

def hsrCheckRecordEnd : Act Unit := fun s =>
  if s.rx.ptOff ≠ s.rx.ptLen then stopAlert unexpectedMessage .eproto s else (.ok (), s)

def hsrSuiteHashLen (b : Build) (h : Hs) : Nat := suiteHashLen b (keySuite b h.suite)

def tlsHashLen (b : Build) (t : Tls) : Nat := suiteHashLen b (keySuite b t.suite)

def hsrTranscriptHash (e : Env) (c : Core) (hashLen : Nat) : Bytes :=
  transcriptHashAfter e.toCrypto c.t.transcript hashLen []

def hsrRestartTranscript (e : Env) (hashLen : Nat) (retry : Bytes) (t : Tls) : Tls :=
  let ch1 := transcriptHashAfter e.toCrypto t.transcript hashLen []
  let synth := [byte hsMessageHash,0,0,byte hashLen]
  { t with transcript :=
      transcriptUpdate (transcriptUpdate (transcriptUpdate transcriptInit synth) ch1) retry }

/-! ### What a read gives -/

theorem ioRecv_le {n : Nat} {io next : Io} {got : Bytes} (ran : ioRecv n io = (some got, next)) :
    got.length ≤ n := by
  unfold ioRecv at ran
  split at ran
  · cases ran
  split at ran
  · cases ran
    assumption
  · cases ran
    exact List.length_take_le _ _

theorem readExact_length {fuel n : Nat} {io next : Io} {bytes : Bytes}
    (ran : readExact fuel n io = (.ok bytes, next)) : bytes.length = n := by
  induction fuel generalizing n io next bytes with
  | zero =>
    cases n with
    | zero =>
      cases ran
      rfl
    | succ n => cases ran
  | succ fuel ih =>
    cases n with
    | zero =>
      cases ran
      rfl
    | succ n =>
      unfold readExact at ran
      split at ran
      · cases ran
      · cases ran
      rename_i got between received
      have bound := ioRecv_le received
      split at ran
      · rename_i rest last more
        have length := ih more
        cases ran
        rw [List.length_append,length]
        omega
      · cases ran

theorem readExact_stop {fuel n : Nat} {io next : Io} {stop : ReadStop}
    (ran : readExact fuel n io = (.error stop, next)) : stop = .io := by
  induction fuel generalizing n io next stop with
  | zero =>
    cases n with
    | zero => cases ran
    | succ n =>
      cases ran
      rfl
  | succ fuel ih =>
    cases n with
    | zero => cases ran
    | succ n =>
      unfold readExact at ran
      split at ran
      · cases ran
        rfl
      · cases ran
        rfl
      split at ran
      · cases ran
      · rename_i more
        cases ran
        exact ih more

theorem checkBody_stop {bufLen cap outer body : Nat} {limitSent : Bool} {rc : Rc}
    {alert : Option Nat}
    (refused : checkBody bufLen cap limitSent outer body = .error (rc, alert)) :
    rc ≠ .assertFail := by
  unfold checkBody at refused
  split at refused
  · cases refused
    nofun
  split at refused
  · cases refused
    nofun
  split at refused
  · cases refused
    nofun
  split at refused
  · cases refused
    nofun
  · cases refused

theorem ioReadRecord_refused {bufLen cap : Nat} {limitSent : Bool} {io next : Io} {stop : ReadStop}
    (ran : ioReadRecord false bufLen cap limitSent io = (.error stop, next)) (header : Bytes)
    (refused : stop.refused = some header) : header.length = recHdr ∧
      checkBody bufLen cap limitSent (recordType header) (recordBody header) =
        .error (stop.rc, stop.alert) := by
  unfold ioReadRecord at ran
  split at ran
  · cases ran
    cases refused
  change (match readExact recHdr recHdr io with
    | (.error stop, io) => _
    | (.ok header, io) => _) = _ at ran
  split at ran
  · rename_i read
    cases ran
    rw [readExact_stop read] at refused
    cases refused
  · rename_i read
    split at ran
    · rename_i checked
      cases ran
      cases refused
      exact ⟨readExact_length read,checked⟩
    · split at ran
      · rename_i read
        cases ran
        rw [readExact_stop read] at refused
        cases refused
      · cases ran

theorem ioReadRecord_whole {bufLen cap : Nat} {limitSent : Bool} {io next : Io} {rec : Bytes}
    (ran : ioReadRecord false bufLen cap limitSent io = (.ok rec, next)) :
    rec.length ≠ recHdr := by
  unfold ioReadRecord at ran
  split at ran
  · cases ran
  change (match readExact recHdr recHdr io with
    | (.error stop, io) => _
    | (.ok header, io) => _) = _ at ran
  split at ran
  · cases ran
  · rename_i header _ read
    split at ran
    · cases ran
    · rename_i checked
      have filled : recordBody header ≠ 0 := fun empty => by simp [empty,checkBody] at checked
      split at ran
      · cases ran
      · rename_i rest
        cases ran
        rw [List.length_append,readExact_length read,readExact_length rest]
        omega

/-! ### What reading leaves alone -/

/-- A session without what reading handshake messages and sending records change
in it: the record keys, the alert of a failure, the window and the transport. -/
def St.protocol (s : St) : Tls × Hs × List Bytes :=
  ({ s.t with rd := .wiped, wr := .wiped }, { s.h with alert := 0 }, s.rx.opened)

abbrev KeepsProtocol {α : Type} (act : Act α) : Prop := Keeps St.protocol act

theorem Rx.noteRefused_opened (rx : Rx) (refused : Option Bytes) (room held : Nat) :
    (rx.noteRefused refused room held).opened = rx.opened := by
  unfold Rx.noteRefused
  split
  · split <;> rfl
  · rfl

theorem Rx.compact_opened (rx : Rx) : rx.compact.opened = rx.opened := by
  unfold Rx.compact
  split <;> rfl

/-! ### What a fetched record leaves alone -/

def St.ledger (s : St) : List Bytes × List Bytes × List (Nat × Bytes) :=
  (s.rx.taken, s.io.sent, s.io.crypto)

abbrev KeepsLedger {α : Type} (act : Act α) : Prop := Keeps St.ledger act

theorem Rx.compact_taken (rx : Rx) : rx.compact.taken = rx.taken := by
  unfold Rx.compact
  split <;> rfl

theorem Rx.noteRefused_taken (rx : Rx) (refused : Option Bytes) (room held : Nat) :
    (rx.noteRefused refused room held).taken = rx.taken := by
  unfold Rx.noteRefused
  split
  · split <;> rfl
  · rfl

def Io.out (io : Io) : List Bytes × List (Nat × Bytes) := (io.sent, io.crypto)

theorem ioRecv_out (n : Nat) (io : Io) : (ioRecv n io).2.out = io.out := by
  unfold ioRecv
  split
  · rfl
  · split <;> rfl

theorem readExact_out (fuel n : Nat) : Keeps Io.out (readExact fuel n) := by
  induction fuel generalizing n with
  | zero => cases n <;> exact fun _ => rfl
  | succ fuel ih =>
    cases n with
    | zero => exact fun _ => rfl
    | succ n =>
      intro io
      have received := ioRecv_out (n + 1) io
      unfold readExact
      split
      · rename_i ran
        rwa [ran] at received
      · rename_i ran
        rwa [ran] at received
      · rename_i got next _ ran
        rw [ran] at received
        have rest := ih (n + 1 - got.length) next
        split <;>
          · rename_i ran
            rw [ran] at rest
            exact rest.trans received

theorem readHeader_out (nonblocking : Bool) : Keeps Io.out (readHeader nonblocking) := by
  refine .ite ?_ (readExact_out _ _)
  intro io
  have received := ioRecv_out recHdr io
  dsimp only
  split
  · rename_i ran
    rwa [ran] at received
  · rename_i ran
    rwa [ran] at received
  · rename_i got next _ ran
    rw [ran] at received
    have rest := readExact_out recHdr (recHdr - got.length) next
    split <;>
      · rename_i ran
        rw [ran] at rest
        exact rest.trans received

theorem ioReadRecord_out (nonblocking : Bool) (bufLen cap : Nat) (limitSent : Bool) :
    Keeps Io.out (ioReadRecord nonblocking bufLen cap limitSent) := by
  intro io
  unfold ioReadRecord
  split
  · rfl
  have header := readHeader_out nonblocking io
  split
  · rename_i ran
    rwa [ran] at header
  · rename_i bytes next ran
    rw [ran] at header
    split
    · exact header
    · have body := readExact_out (recordBody bytes) (recordBody bytes) next
      split <;>
        · rename_i ran
          rw [ran] at body
          exact body.trans header

/-- What fetching a record leaves alone. -/
def St.fetched (s : St) : (Tls × Hs × List Bytes) × List Bytes × List Bytes × List (Nat × Bytes) :=
  (s.protocol, s.ledger)

theorem St.compact_fetched (s : St) : ({ s with rx := s.rx.compact } : St).fetched = s.fetched :=
  Prod.ext (congrArg (fun opened => (_, _, opened)) (Rx.compact_opened s.rx))
    (congrArg (fun taken => (taken, _, _)) (Rx.compact_taken s.rx))

theorem ccsTolerable_kept (rec : Bytes) (rx : Rx) :
    ((ccsTolerable rec rx).2.opened, (ccsTolerable rec rx).2.taken) = (rx.opened, rx.taken) := by
  unfold ccsTolerable
  split <;> rfl

section ReaderFrames

variable (e : Env)

theorem acceptRecord_fetched (rec : Bytes) : Keeps St.fetched (acceptRecord e rec) := by
  intro s
  unfold acceptRecord
  split
  · split <;> rfl
  split
  · rfl
  split
  · rfl
  · dsimp only
    split
    · rfl
    split <;> rfl

theorem takeQuietly_fetched (rec : Bytes) : Keeps St.fetched (takeQuietly e rec) := by
  intro s
  have accepted := acceptRecord_fetched e rec s
  unfold takeQuietly
  split
  · rename_i ran
    rwa [ran] at accepted
  · rename_i ran
    rw [ran] at accepted
    split
    · exact accepted
    dsimp only
    split <;> exact accepted

theorem dispatchRecord_fetched (rec : Bytes) : Keeps St.fetched (dispatchRecord e rec) := by
  intro s
  unfold dispatchRecord
  split
  · have kept := ccsTolerable_kept rec s.rx
    dsimp only
    split <;> exact congrArg (fun kept => ((_, _, kept.1), kept.2, _, _)) kept
  split
  · rfl
  have taken := takeQuietly_fetched e rec s
  split <;>
    · rename_i ran
      rwa [ran] at taken

theorem fetchOne_fetched : Keeps St.fetched fetchOne := by
  intro s
  have out := ioReadRecord_out false s.t.cfg.bufLen (s.t.cfg.bufLen - s.rx.ptLen) s.t.limitSent s.io
  unfold fetchOne
  split
  · rename_i ran
    rw [ran] at out
    exact Prod.ext (congrArg (fun opened => (_, _, opened)) (Rx.noteRefused_opened s.rx _ _ _))
      (Prod.ext (Rx.noteRefused_taken s.rx _ _ _) out)
  · rename_i ran
    rw [ran] at out
    exact Prod.ext rfl (Prod.ext rfl out)

theorem fetchLoop_fetched (fuel : Nat) : Keeps St.fetched (fetchLoop e fuel) := by
  induction fuel with
  | zero => exact keeps_stop _
  | succ fuel ih =>
    exact fetchOne_fetched.bind fun rec => (dispatchRecord_fetched e rec).bind fun again =>
      .ite ih (keeps_pure _)

theorem hsrFetchRecord_fetched : Keeps St.fetched (hsrFetchRecord e) := fun s =>
  (fetchLoop_fetched e _ { s with rx := s.rx.compact }).trans (St.compact_fetched s)

theorem nextMsgLoop_protocol (fuel : Nat) : KeepsProtocol (nextMsgLoop e fuel) := by
  induction fuel with
  | zero => exact keeps_stop _
  | succ fuel ih =>
    intro s
    unfold nextMsgLoop
    split
    · rfl
    · rfl
    have fetched := (hsrFetchRecord_fetched e).map Prod.fst s
    split
    · rename_i ran
      rwa [ran] at fetched
    · rename_i ran
      rw [ran] at fetched
      exact (ih _).trans fetched

theorem nextFed_protocol : KeepsProtocol nextFed := by
  intro s
  unfold nextFed
  split <;> rfl

theorem hsrNextMsg_protocol : KeepsProtocol (hsrNextMsg e) :=
  .ite (fun s => nextMsgLoop_protocol e _ s) nextFed_protocol

end ReaderFrames

/-- The fields of a session that no step of a handshake writes but its last, and
the application data it opened. -/
def St.settings (s : St) : (Cfg × SessionState) × List Bytes := (s.core.fixed, s.rx.opened)

/-- An action that leaves the configuration, the session's state and the opened
data alone. -/
abbrev ActFixes {α : Type} (act : Act α) : Prop := Keeps St.settings act

theorem KeepsProtocol.fixes {α : Type} {act : Act α} (kept : KeepsProtocol act) : ActFixes act :=
  kept.map fun parts => ((parts.1.cfg, parts.1.state), parts.2.2)

theorem onCore_fixes {α : Type} {handler : Handler α} (kept : Fixes handler) :
    ActFixes (onCore handler) := fun s => Prod.ext (Keeps.onCore kept s) rfl

/-! ### Messages taken and records sent -/

theorem onCore_ledger {α : Type} (handler : Handler α) : KeepsLedger (onCore handler) :=
  fun _ => rfl

theorem hsrCheckRecordEnd_ledger : KeepsLedger hsrCheckRecordEnd :=
  fun s => by unfold hsrCheckRecordEnd; split <;> rfl

section ReaderLedger

variable (e : Env)

def Takes (act : Act Bytes) : Prop :=
  ∀ s raw next, act s = (.ok raw, next) →
    next.ledger = (s.rx.taken ++ [raw], s.io.sent, s.io.crypto)

theorem nextMsgLoop_takes (fuel : Nat) : Takes (nextMsgLoop e fuel) := by
  induction fuel with
  | zero =>
    intro s raw next ran
    cases ran
  | succ fuel ih =>
    intro s raw next ran
    unfold nextMsgLoop at ran
    split at ran
    · cases ran
    · cases ran
      rfl
    · have fetched := (hsrFetchRecord_fetched e).map Prod.snd s
      split at ran
      · cases ran
      · rename_i fetch
        rw [fetch] at fetched
        rw [ih _ raw next ran]
        simp only [St.fetched,St.ledger,Prod.mk.injEq] at fetched
        rw [fetched.1,fetched.2.1,fetched.2.2]

theorem nextFed_takes : Takes nextFed := by
  intro s raw next ran
  unfold nextFed at ran
  split at ran
  · cases ran
  · cases ran
  · cases ran
    rfl

theorem Takes.ite {condition : Prop} [Decidable condition] {yes no : Act Bytes}
    (left : Takes yes) (right : Takes no) : Takes (if condition then yes else no) := by
  split
  · exact left
  · exact right

theorem hsrNextMsg_takes : Takes (hsrNextMsg e) :=
  .ite (fun s => nextMsgLoop_takes e _ s) nextFed_takes

end ReaderLedger

end Chapulin
