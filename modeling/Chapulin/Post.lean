/-
A connected TCP session (`handshake_post.c`, `tls.c`, `tls_write.c`): reading,
writing, KeyUpdate in both directions, tickets and closing.
-/

import Chapulin.Config
import Chapulin.Reader

namespace Chapulin

open Lib Alert

def sendEpochsMax : Nat := 0xffffffffffff

/-! ### Messages after the handshake -/

structure Post where
  t : Tls
  alert : Nat
  errorCode : Nat

section AfterHandshake

variable (e : Env)

/-- `ticket_trust`: what a ticket of this session is bound to. -/
def ticketTrust (t : Tls) : Bytes :=
  match t.cfg.ticket, t.cfg.psk with
  | some ticket, _ => ticket.trustHash
  | none, some psk => hspostTrustHash e trustPsk psk
  | none, none =>
    hspostTrustHash e trustPin
      ((if t.pinSlot = 2 then t.cfg.serverPubkey2 else t.cfg.serverPubkey).getD [])

/-- The ticket handed to `on_ticket`. -/
def ticketOf (t : Tls) (lifetimeS ageAdd : Nat) (nonce identity : Bytes) : Ticket :=
  let hashLen := tlsHashLen e.build t
  let psk := ksResPsk e.toCrypto hashLen t.resMaster nonce
  { identity := identity
    psk := psk
    lifetimeS := lifetimeS
    ageAdd := ageAdd
    epoch := t.epoch
    trustHash :=
      if e.build.webpki then webpkiTicketBinding e psk t.ticketConfigHash
      else if e.build.role != .server then ticketTrust e t else []
    quicVersion := if e.build.quic then t.quicNegotiatedVersion else 0 }

def rbU32 (r : Rbuf) : Nat × Rbuf :=
  let (high, r) := rbU24 r
  let (low, r) := rbU8 r
  (high * 256 + low, r)

def ticketExtension (ext : Nat) (data : Bytes) : Proc Post Rc Unit := fun s =>
  if ext ≠ extEarlyData then (.ok (), s)
  else
    let (maxEarlyData, d) := rbU32 (rbInit data)
    if d.err || rbLeft d != 0 then (.error .eproto, { s with alert := decodeError })
    else if maxEarlyData ≠ 0xffffffff then
      (.error .eproto, { s with alert := illegalParameter, errorCode := 0x0a })
    else (.ok (), s)

def readTicketExtensions (block : Bytes) : Proc Post Rc Unit :=
  rbForItems (fun s => (.error .eproto, { s with alert := decodeError })) ticketExtension
    block.length (rbInit block)

/-- The ticket's extension block: read on a QUIC session, skipped on a TCP one. -/
def ticketBlock (extLen : Nat) (r : Rbuf) (s : Post) : Except Rc Rbuf × Post :=
  match rbBytes extLen r with
  | (none, r) => (.ok r, s)
  | (some exts, r) =>
    if e.build.quic then
      match readTicketExtensions exts s with
      | (.error rc, s) => (.error rc, s)
      | (.ok _, s) => (.ok r, s)
    else (.ok r, s)

def deliverTicket (lifetimeS ageAdd : Nat) (nonce identity : Bytes) (t : Tls) : Tls :=
  if !t.cfg.onTicket || lifetimeS == 0 || decide (nonce.length > sha256Len) ||
      decide (identity.length > ticketIdMax) || (e.build.webpki && !t.takesTickets) then t
  else { t with calls := t.calls ++ [.onTicket (ticketOf e t lifetimeS ageAdd nonce identity)] }

def handleTicket (body : Bytes) : Proc Post Rc Unit := fun s =>
  let (lifetimeS, r) := rbU32 (rbInit body)
  let (ageAdd, r) := rbU32 r
  let (nonceLen, r) := rbU8 r
  let (nonce, r) := rbBytes nonceLen r
  let (identityLen, r) := rbU16 r
  let (identity, r) := rbBytes identityLen r
  let (extLen, r) := rbU16 r
  match ticketBlock e extLen r s with
  | (.error rc, s) => (.error rc, s)
  | (.ok r, s) =>
    if r.err || rbLeft r != 0 then (.error .eproto, { s with alert := decodeError })
    else (.ok (), { s with
      t := deliverTicket e lifetimeS ageAdd (nonce.getD []) (identity.getD []) s.t })

def takeTicket (body : Bytes) : Proc Post Rc Unit := fun s =>
  if e.build.roleServer && s.t.server then (.error .eproto, s) else handleTicket e body s

def handleKeyUpdate (request : Nat) (t : Tls) : Tls :=
  let (secret, rd) := recDirUpdate e t.rdSecret t.rd
  { t with
    keyUpdateRun := t.keyUpdateRun + 1
    rdSecret := secret
    rd := rd
    spent := t.spentRd
    keyUpdateOwed := if request = 1 ∧ t.sendEpochs < sendEpochsMax then true else t.keyUpdateOwed }

def takeKeyUpdate (body : Bytes) (endsInput : Bool) : Proc Post Rc Unit := fun s =>
  match body with
  | [request] =>
    if request.toNat > 1 then (.error .eproto, { s with alert := illegalParameter })
    else if !endsInput then (.error .eproto, s)
    else if s.t.keyUpdateRun ≥ keyUpdateRunMax then (.error .keyUpdateLimit, s)
    else (.ok (), { s with t := handleKeyUpdate e request.toNat s.t })
  | _ => (.error .eproto, { s with alert := decodeError })

/-- One message of `handle_post_handshake`. -/
def postMessage (raw : Bytes) (endsInput : Bool) : Proc Post Rc Unit :=
  if msgType raw = hsNewSessionTicket then takeTicket e (msgBody raw)
  else if msgType raw = hsKeyUpdate then takeKeyUpdate e (msgBody raw) endsInput
  else Proc.stop .eproto

/-- The loop of `handle_post_handshake` over `pt`: how many bytes it used. -/
def postLoop : Nat → Bytes → Nat → Post → Except Rc Nat × Post
  | 0, _, used, s => (.ok used, s)
  | fuel + 1, pt, used, s =>
    match pt with
    | _ :: high :: middle :: low :: _ =>
      let length := ofBe24 high middle low
      if length > 0x4000 ∨ 4 + length > s.t.cfg.bufLen then (.error .eproto, s)
      else if pt.length < 4 + length then (.ok used, s)
      else
        match postMessage e (pt.take (4 + length)) (pt.length == 4 + length) s with
        | (.error rc, s) => (.error rc, s)
        | (.ok _, s) => postLoop fuel (pt.drop (4 + length)) (used + (4 + length)) s
    | _ => (.ok used, s)

def handlePostHandshake (pt : Bytes) (s : Post) : Except Rc Nat × Post :=
  postLoop e (pt.length + 1) pt 0 s

abbrev PostStop := Rc × Nat

/-- `open_fragment`: the plaintext of a further record of a split message. -/
def openFragment (rec : Bytes) (fill alert : Nat) (s : St) : Except PostStop Bytes × St :=
  if recordType rec ≠ recAppdata then (.error (.eauth, badRecordMac), s)
  else
    match recOpen e s.t.rd rec (s.t.cfg.bufLen - fill) with
    | (none, rd) => (.error (.eauth, badRecordMac), { s with t := { s.t with rd := rd } })
    | (some (pt, type), rd) =>
      let s := { s with t := { s.t with rd := rd } }
      if type = recAlert then
        let (received, refused) := hsrRefuseAlert s.rx.alertReceived pt
        (.error (.eproto, refused.getD alert),
          { s with rx := { s.rx with alertReceived := received } })
      else if type = recHandshake then (.ok pt, s)
      else (.error (.eproto, alert), s)

/-- Whether `io_read_record` is the nonblocking build's. -/
def nonblockingIo : Bool := e.build.transport == .tcpNonblocking

/-- The loop of `drain_run`: `fill` bytes of messages stand at the front of the
buffer and `quiet` empty fragments are still allowed. -/
def drainRun : Nat → Nat → Nat → Nat → St → Except PostStop Unit × St
  | 0, _, _, alert, s => (.error (.eio, alert), s)
  | _ + 1, 0, _, alert, s => (.error (.eproto, alert), s)
  | fuel + 1, quiet + 1, fill, alert, s =>
    match handlePostHandshake e (s.rx.buf.take fill)
        { t := s.t, alert := alert, errorCode := 0 } with
    | (.error rc, p) => (.error (rc, p.alert), { s with t := p.t })
    | (.ok used, p) =>
      let s := { s with t := p.t }
      if used = fill then (.ok (), s)
      else
        let kept := (s.rx.buf.take fill).drop used
        let fill := kept.length
        let s := { s with rx := { s.rx with buf := copyAt s.rx.buf 0 kept } }
        match ioReadRecord (nonblockingIo e) s.t.cfg.bufLen (s.t.cfg.bufLen - fill) s.t.limitSent
            s.io with
        | (.error stop, io) =>
          let s := { s with io := io }
          if nonblockingIo e && stop.rc == .tcpAgain then
            (.error (.tcpAgain, p.alert), { s with rx := { s.rx with postFill := fill } })
          else (.error (stop.rc, stop.alert.getD p.alert), s)
        | (.ok rec, io) =>
          match openFragment e rec fill p.alert { s with io := io } with
          | (.error stop, s) => (.error stop, s)
          | (.ok pt, s) =>
            drainRun fuel (if pt = [] then quiet else quiet + 1) (fill + pt.length) p.alert
              { s with rx := { s.rx with buf := copyAt s.rx.buf fill pt } }

def hspostRead (ptLen : Nat) : Act Unit := fun s =>
  match drainRun e (inboxSize s.io + 1) quietCap ptLen unexpectedMessage s with
  | (.ok _, s) => (.ok (), s)
  | (.error (rc, alert), s) => if rc = .tcpAgain then (.error rc, s) else failWith e alert rc s

/-! ### Reading -/

def closeReadSide (s : St) : St :=
  { s with
    t := { s.t with
      rd := .wiped, rdSecret := [], resMaster := [], readClosed := true, spent := s.t.spentRd }
    rx := s.rx.reset }

def readAlert (pt : Bytes) : Act Unit := fun s =>
  match pt with
  | [_,description] =>
    if description.toNat = closeNotify then (.error .eclosed, closeReadSide s)
    else if description.toNat = userCanceled then (.ok (), s)
    else
      failWith e unexpectedMessage .eproto
        { s with rx := { s.rx with alertReceived := description.toNat } }
  | _ => failWith e decodeError .eproto s

/-- What `dispatch_one_record` does with the plaintext of a record. -/
def dispatchPlaintext (pt : Bytes) (type : Nat) : Act Unit := fun s =>
  if type = recAppdata then
    (.ok (), { s with
      t := { s.t with keyUpdateRun := if pt = [] then s.t.keyUpdateRun else 0 }
      rx := { s.rx with ptOff := 0, ptLen := pt.length, opened := s.rx.opened ++ [pt] } })
  else if type = recHandshake then hspostRead e pt.length s
  else if type = recAlert then readAlert e pt s
  else failWith e unexpectedMessage .eproto s

def dispatchOneRecord : Act Unit := fun s =>
  if nonblockingIo e && decide (s.rx.postFill > 0) then
    hspostRead e s.rx.postFill { s with rx := { s.rx with postFill := 0 } }
  else
    match ioReadRecord (nonblockingIo e) s.t.cfg.bufLen s.t.cfg.bufLen s.t.limitSent s.io with
    | (.error stop, io) =>
      let s := { s with io := io }
      if stop.rc = .tcpAgain then (.error .tcpAgain, s)
      else failWith e (stop.alert.getD decodeError) stop.rc s
    | (.ok rec, io) =>
      let s := { s with io := io }
      if recordType rec ≠ recAppdata then failWith e unexpectedMessage .eproto s
      else
        match recOpen e s.t.rd rec s.t.cfg.bufLen with
        | (none, rd) => failWith e badRecordMac .eauth { s with t := { s.t with rd := rd } }
        | (some (pt, type), rd) =>
          dispatchPlaintext e pt type
            { s with t := { s.t with rd := rd }, rx := { s.rx with buf := copyAt s.rx.buf 0 pt } }

/-- The loop of `tls_read`; the count is what is left under `CH_QUIET_CAP`. -/
def tlsReadLoop (n : Nat) : Nat → Act Bytes
  | 0 => failWith e unexpectedMessage .eproto
  | left + 1 => fun s =>
    if s.rx.ptLen > s.rx.ptOff then
      let p := s.rx.window.take n
      (.ok p, { s with rx := { s.rx with ptOff := s.rx.ptOff + p.length } })
    else
      match dispatchOneRecord e s with
      | (.error rc, s) => if rc = .eclosed then (.ok [], s) else (.error rc, s)
      | (.ok _, s) => tlsReadLoop n left s

/-- `tls_read` for at most `n` bytes; no bytes for a return of 0. -/
def tlsRead (n : Nat) : Act Bytes := fun s =>
  if n = 0 then (.error .einval, s)
  else
    match s.t.state with
    | .closed => (.ok [], s)
    | .connected => if s.t.readClosed then (.ok [], s) else tlsReadLoop e n quietCap s
    | _ => (.error .eproto, s)

/-! ### Writing -/

/-- Stages a record in `tx` and sends it. -/
def sendStaged (rec : Bytes) : Act Unit := fun s =>
  onIo (ioSendAll rec) { s with io := { s.io with tx := copyAt s.io.tx 0 rec } }

/-- The KeyUpdate that asks for none in return. -/
def keyUpdateMessage : Bytes := [byte hsKeyUpdate,0,0,1,0]

def hspostSendKeyUpdate : Act Unit := fun s =>
  match recSeal e s.t.wr recHandshake keyUpdateMessage (txCap e.build) with
  | none => (.error .eio, s)
  | some (rec, wr) =>
    match sendStaged rec { s with t := { s.t with wr := wr } } with
    | (.error _, s) => (.error .eio, s)
    | (.ok _, s) =>
      let (secret, wr) := recDirUpdate e s.t.wrSecret s.t.wr
      (.ok (), { s with t := { s.t with
        wrSecret := secret
        wr := wr
        spent := s.t.spentWr
        sendEpochs := s.t.sendEpochs + 1
        keyUpdateOwed := false } })

def recordPlaintextMax (t : Tls) : Nat := min t.peerLimit e.build.txPt

/-- Whether `records_before_key_update` is 0. -/
def keyUpdateDue (t : Tls) : Bool :=
  t.keyUpdateOwed || (recAead e t.wr && decide (t.wr.seq ≥ recAesGcmRecordsMax - 1))

def keyUpdateBeforeRecord : Act Unit := fun s =>
  if !keyUpdateDue e s.t then (.ok (), s)
  else if s.t.sendEpochs ≥ sendEpochsMax then failWith e internalError .ecap s
  else
    match hspostSendKeyUpdate e s with
    | (.error rc, s) => failWith e internalError rc s
    | (.ok _, s) => (.ok (), s)

/-- `parts_skip_empty`: the parts left to write, none of them empty in front. -/
def partsSkipEmpty (parts : List Bytes) : List Bytes := parts.dropWhile (· == [])

/-- `parts_copy_record`: the bytes of the next record, and the parts behind it. -/
def partsCopyRecord : Nat → List Bytes → Bytes × List Bytes
  | _, [] => ([], [])
  | 0, parts => ([], parts)
  | room + 1, part :: parts =>
    if part.length ≤ room + 1 then
      let (more, left) := partsCopyRecord (room + 1 - part.length) parts
      (part ++ more, left)
    else (part.take (room + 1), part.drop (room + 1) :: parts)

def writeRecord (inner : Bytes) : Act Unit := fun s =>
  if inner.length > e.build.txStage then failWith e internalError .ecap s
  else
    match recSeal e s.t.wr recAppdata inner (txCap e.build) with
    | none => failWith e internalError .ecap s
    | some (rec, wr) =>
      match sendStaged rec { s with t := { s.t with wr := wr } } with
      | (.error rc, s) => failWith e internalError rc s
      | (.ok _, s) => (.ok (), s)

/-- The loop of `tls_write_parts`; every turn writes a record. -/
def writeLoop (limit : Nat) : Nat → List Bytes → Act Unit
  | _, [] => pure ()
  | 0, _ :: _ => Proc.stop .eio
  | fuel + 1, parts => do
      keyUpdateBeforeRecord e
      let (inner, left) := partsCopyRecord limit parts
      writeRecord e inner
      writeLoop limit fuel (partsSkipEmpty left)

def tlsWriteParts (parts : List Bytes) : Act Unit := fun s =>
  if s.t.state ≠ .connected then (.error .eproto, s)
  else
    writeLoop e (recordPlaintextMax e s.t) (parts.map List.length).sum (partsSkipEmpty parts) s

def tlsWrite (p : Bytes) : Act Unit := tlsWriteParts e [p]

def isErrorAlert (description : Nat) : Bool :=
  [10,20,22,40,42,43,44,45,46,47,48,49,50,51,70,71,80,86,109,110,112,113,115,116,117,
    120].contains description

def tlsFail (description : Nat) : Act Unit := fun s =>
  if !isErrorAlert description then (.error .einval, s)
  else if s.t.state ≠ .connected then (.error .eproto, s)
  else tlsiFail e description s

def tlsClose : St → St := fun s =>
  let s := if s.t.keys then (tlsiSendAlert e 1 closeNotify s).2 else s
  let s := tlsiWipe s
  { s with t := { s.t with state := .closed } }

/-! ### What a ticket leaves alone -/

def Post.untold (p : Post) : Tls := { p.t with calls := [] }

theorem ticketExtension_untold (ext : Nat) (data : Bytes) :
    Proc.Keeps Post.untold (ticketExtension ext data) := by
  intro p
  unfold ticketExtension
  split
  · rfl
  dsimp only
  split
  · rfl
  split <;> rfl

theorem ticketBlock_untold (extLen : Nat) (r : Rbuf) (p : Post) :
    (ticketBlock e extLen r p).2.untold = p.untold := by
  unfold ticketBlock
  split
  · rfl
  split
  · rename_i exts _ _ _
    have read : (readTicketExtensions exts p).2.untold = p.untold :=
      rbForItems_keeps (fun _ => rfl) ticketExtension_untold _ _ p
    split <;>
      · rename_i ran
        rw [ran] at read
        exact read
  · rfl

theorem handleTicket_untold (body : Bytes) : Proc.Keeps Post.untold (handleTicket e body) := by
  intro p
  unfold handleTicket
  dsimp only
  split
  · rename_i ran
    exact (congrArg (Post.untold ∘ Prod.snd) ran).symm.trans (ticketBlock_untold e _ _ p)
  · rename_i after ran
    have kept := (congrArg (Post.untold ∘ Prod.snd) ran).symm.trans (ticketBlock_untold e _ _ p)
    split
    · exact kept
    · refine Eq.trans ?_ kept
      dsimp only [deliverTicket,Post.untold,Function.comp_apply]
      split <;> rfl

end AfterHandshake

end Chapulin
