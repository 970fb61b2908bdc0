/-
The Certificate message (`srv_send_certificate`, `srv_frag_bytes`,
`srv_frag_flush`), which no buffer of the server ever holds whole.

The writer takes the head, and for every certificate its length, its bytes and a
suffix, and sends what it holds whenever its buffer is full.  The fragments are
those of the whole message cut at the buffer's length, so the flight may be read
as if the message had been built first.
-/

import Chapulin.Lib.Pieces
import Chapulin.Server.Records

namespace Chapulin

open Lib Proc List

variable {fed p piece : Bytes} {id : Identity} {limit turns : Nat} {next : St}

section Writer

variable (e : Env)

/-! ### The writer -/

def srvFragMax : Nat := 512

def srvFragLimit (t : Tls) : Nat := min (srvOutLimit e t) srvFragMax

/-- `srv_frag`: the bytes held and the sticky code, with the session they go out
through. -/
structure SrvFrag where
  buf : Bytes
  rc : Except Rc Unit
  s : St

/-- The hashing and sending of `srv_frag_flush`. -/
def sendFragment (piece : Bytes) : Act Unit := do
  let s ← Proc.get
  onCore (absorbSelected s.t.hashLen piece)
  srvOutSealed e piece

def srvFragFlush (f : SrvFrag) : SrvFrag :=
  if !f.rc.isOk || f.buf = [] then f
  else
    let (rc, s) := sendFragment e f.buf f.s
    { buf := [], rc := rc, s := s }

/-- The loop of `srv_frag_bytes`; nothing when it has not ended after so many turns. -/
def srvFragTurns (limit : Nat) : Nat → SrvFrag → Bytes → Option SrvFrag
  | 0, f, p => if p = [] || !f.rc.isOk then some f else none
  | turns + 1, f, p =>
    if p = [] || !f.rc.isOk then some f
    else
      let take := min p.length (limit - f.buf.length)
      let f := { f with buf := f.buf ++ p.take take }
      let f := if f.buf.length = limit then srvFragFlush e f else f
      srvFragTurns limit turns f (p.drop take)

def srvFragBytes (f : SrvFrag) (p : Bytes) : Option SrvFrag :=
  srvFragTurns e (srvFragLimit e f.s.t) p.length f p

/-- The loop over the chain in `srv_send_certificate`. -/
def streamEntries : List Bytes → SrvFrag → Option SrvFrag
  | [], f => some f
  | cert :: chain, f =>
    -- A certificate its length field cannot carry ends the call at once.
    if cert.length > 0xffffff then
      let (rc, s) := stopAlert Alert.internalError .eauth f.s
      some { f with rc := rc, s := s }
    else
      (srvFragBytes e f (be24 cert.length)).bind fun f =>
        (srvFragBytes e f cert).bind fun f =>
          (srvFragBytes e f (be16 0)).bind (streamEntries chain)

/-- `srv_send_certificate` as it streams. -/
def srvStreamCertificate (sel : Selection) (s : St) : Option (Except Rc Unit × St) :=
  match srvIdentityFor e s.t.cfg sel.sigalg with
  | none => some (stopAlert Alert.internalError .eauth s)
  | some id =>
    ((srvFragBytes e { buf := [], rc := .ok (), s := s } (srvBuildCertificateHeader id)).bind
      (streamEntries e id.chain)).map fun f =>
        let f := srvFragFlush e f
        (f.rc, f.s)

def sendFragments : List Bytes → Act Unit
  | [] => pure ()
  | piece :: pieces => sendFragment e piece >>= fun _ => sendFragments pieces

/-! ### What a fragment leaves alone -/

def St.sending (s : St) : Nat × Nat × Nat := (s.t.peerLimit, s.t.hashLen, s.h.level)

theorem srvOutSealed_sending (pt : Bytes) : Keeps St.sending (srvOutSealed e pt) :=
  (srvOutSealed_unsent e pt).map fun parts => (parts.1.peerLimit, parts.1.hashLen, parts.2.1.level)

theorem sendFragment_sending (piece : Bytes) : Keeps St.sending (sendFragment e piece) :=
  keeps_get.bind fun _ => Keeps.bind (fun _ => rfl) fun _ => srvOutSealed_sending e piece

theorem sendFragments_sending (pieces : List Bytes) :
    Keeps St.sending (sendFragments e pieces) := by
  induction pieces with
  | nil => exact keeps_pure _
  | cons piece pieces ih => exact (sendFragment_sending e piece).bind fun _ => ih

variable {e}

theorem srvOutLimit_of_sending {s : St} (same : next.sending = s.sending) :
    srvOutLimit e next.t = srvOutLimit e s.t := by
  have limit : next.t.peerLimit = s.t.peerLimit := congrArg Prod.fst same
  unfold srvOutLimit
  rw [limit]

theorem sendFragments_append (left right : List Bytes) :
    sendFragments e (left ++ right) = sendFragments e left >>= fun _ => sendFragments e right := by
  induction left with
  | nil => rfl
  | cons piece left ih =>
    rw [cons_append,sendFragments,ih,sendFragments,Proc.bind_assoc]

/-! ### The writer against the fragments -/

variable (e)

/-- The writer once `full` has gone out and `held` is in its buffer; a failure
empties the buffer. -/
def fragRun (full : List Bytes) (s : St) (held : Bytes) : SrvFrag :=
  let (rc, s) := sendFragments e full s
  { buf := if rc.isOk then held else [], rc := rc, s := s }

variable {e} {s : St} {full : List Bytes} {held : Bytes}

theorem fragRun_ok (sent : sendFragments e full s = (.ok (), next)) :
    fragRun e full s held = { buf := held, rc := .ok (), s := next } := by
  simp [fragRun,sent,Except.isOk,Except.toBool]

theorem fragRun_failed {rc : Rc} (sent : sendFragments e full s = (.error rc, next))
    (more : List Bytes) :
    fragRun e (full ++ more) s held = { buf := [], rc := .error rc, s := next } := by
  have stopped : sendFragments e (full ++ more) s = (.error rc, next) := by
    rw [sendFragments_append]
    exact bind_of_error sent
  simp [fragRun,stopped,Except.isOk,Except.toBool]

/-- Either the fragments went out, or the writer stands as the failure left it
whatever is added. -/
theorem fragRun_cases (e : Env) (full : List Bytes) (s : St) :
    (∃ next, sendFragments e full s = (.ok (), next) ∧
        ∀ held, fragRun e full s held = { buf := held, rc := .ok (), s := next }) ∨
      ∃ rc next, ∀ more held,
        fragRun e (full ++ more) s held = { buf := [], rc := .error rc, s := next } := by
  rcases sent : sendFragments e full s with ⟨rc | _,next⟩
  · exact .inr ⟨rc,next,fun more held => fragRun_failed sent more⟩
  · exact .inl ⟨next,rfl,fun held => fragRun_ok sent⟩

theorem srvFragFlush_run (nonempty : piece ≠ []) :
    srvFragFlush e (fragRun e full s piece) = fragRun e (full ++ [piece]) s [] := by
  rcases fragRun_cases e full s with ⟨next,sent,ran⟩ | ⟨rc,next,stopped⟩
  · have whole : sendFragments e (full ++ [piece]) s = sendFragment e piece next := by
      rw [sendFragments_append,bind_of_ok sent,sendFragments]
      rcases last : sendFragment e piece next with ⟨rc | _,after⟩
      · exact bind_of_error last
      · exact bind_of_ok last
    rw [ran,srvFragFlush,if_neg (by simp [nonempty,Except.isOk,Except.toBool]),fragRun,whole]
    simp
  · have failed := stopped [] piece
    rw [append_nil] at failed
    rw [failed,stopped]
    exact if_pos rfl

theorem srvFragTurns_succ {f : SrvFrag} (more : p ≠ []) (live : f.rc.isOk = true) :
    srvFragTurns e limit (turns + 1) f p =
      (let take := min p.length (limit - f.buf.length)
       let f := { f with buf := f.buf ++ p.take take }
       srvFragTurns e limit turns (if f.buf.length = limit then srvFragFlush e f else f)
         (p.drop take)) := by
  rw [srvFragTurns,if_neg (by simp [more,live])]

theorem srvFragTurns_failed {f : SrvFrag} (dead : f.rc.isOk = false) :
    srvFragTurns e limit turns f p = some f := by
  cases turns <;> exact if_pos (by simp [dead])

/-- The fragmenter sends full pieces as they fill and holds the rest. -/
theorem srvFragTurns_run (positive : 0 < limit)
    (enough : p.length ≤ turns) (packed : Packed limit fed full held) :
    ∃ full' held', Packed limit (fed ++ p) full' held' ∧
      srvFragTurns e limit turns (fragRun e full s held) p = some (fragRun e full' s held') := by
  induction turns generalizing fed full held p with
  | zero =>
    have empty : p = [] := length_eq_zero_iff.mp (Nat.le_zero.mp enough)
    subst empty
    refine ⟨full,held,by rw [append_nil]; exact packed,?_⟩
    rw [srvFragTurns,if_pos (by simp)]
  | succ turns ih =>
    by_cases more : p = []
    · subst more
      refine ⟨full,held,by rw [append_nil]; exact packed,?_⟩
      rw [srvFragTurns,if_pos (by simp)]
    have short := packed.short
    generalize taken : min p.length (limit - held.length) = take
    have left : (p.drop take).length ≤ turns := by
      rw [length_drop]
      omega
    have grown : (held ++ p.take take).length = held.length + take := by
      rw [length_append,length_take]
      omega
    have split : fed ++ p = fed ++ p.take take ++ p.drop take := by
      rw [append_assoc,take_append_drop]
    -- What is packed after the turn, and the writer the turn leaves.
    obtain ⟨full',held',turned,next⟩ : ∃ full' held',
        Packed limit (fed ++ p.take take) full' held' ∧
        srvFragTurns e limit (turns + 1) (fragRun e full s held) p =
          srvFragTurns e limit turns (fragRun e full' s held') (p.drop take) := by
      by_cases filled : (held ++ p.take take).length = limit
      · refine ⟨full ++ [held ++ p.take take],[],packed.fill positive filled,?_⟩
        rcases fragRun_cases e full s with ⟨next,sent,ran⟩ | ⟨rc,next,stopped⟩
        · have nonempty : held ++ p.take take ≠ [] := by
            intro empty
            rw [empty,length_nil] at filled
            omega
          rw [← srvFragFlush_run nonempty,ran,ran,srvFragTurns_succ more (by rfl)]
          simp only [taken,filled,if_true]
        · have failed := stopped [] held
          rw [append_nil] at failed
          rw [failed,stopped,srvFragTurns_failed (by rfl),srvFragTurns_failed (by rfl)]
      · have room : (held ++ p.take take).length < limit := by omega
        refine ⟨full,held ++ p.take take,packed.hold room,?_⟩
        rcases fragRun_cases e full s with ⟨next,sent,ran⟩ | ⟨rc,next,stopped⟩
        · rw [ran,ran,srvFragTurns_succ more (by rfl)]
          simp only [taken,filled,if_false]
        · have failed := stopped []
          rw [append_nil] at failed
          rw [failed,failed,srvFragTurns_failed (by rfl),srvFragTurns_failed (by rfl)]
    rw [next,split]
    exact ih left turned

theorem fragRun_limit (e : Env) (full : List Bytes) (s : St) (held : Bytes) :
    srvFragLimit e (fragRun e full s held).s.t = srvFragLimit e s.t := by
  have same : srvOutLimit e (fragRun e full s held).s.t = srvOutLimit e s.t :=
    srvOutLimit_of_sending (sendFragments_sending e full s)
  unfold srvFragLimit
  rw [same]

theorem srvFragBytes_run (positive : 0 < srvFragLimit e s.t) (p : Bytes)
    (packed : Packed (srvFragLimit e s.t) fed full held) :
    ∃ full' held', Packed (srvFragLimit e s.t) (fed ++ p) full' held' ∧
      srvFragBytes e (fragRun e full s held) p = some (fragRun e full' s held') := by
  unfold srvFragBytes
  rw [fragRun_limit]
  exact srvFragTurns_run positive (Nat.le_refl _) packed

/-- Streaming keeps the fragments packed over the whole chain. -/
theorem streamEntries_run (positive : 0 < srvFragLimit e s.t) {chain : List Bytes}
    (short : ∀ cert ∈ chain, cert.length ≤ 0xffffff)
    (packed : Packed (srvFragLimit e s.t) fed full held) :
    ∃ full' held',
      Packed (srvFragLimit e s.t) (fed ++ (chain.map certificateEntry).flatten) full' held' ∧
        streamEntries e chain (fragRun e full s held) = some (fragRun e full' s held') := by
  induction chain generalizing fed full held with
  | nil =>
    refine ⟨full,held,?_,rfl⟩
    rw [map_nil,flatten_nil,append_nil]
    exact packed
  | cons cert chain ih =>
    have bounded : ¬ cert.length > 0xffffff := Nat.not_lt.mpr (short cert mem_cons_self)
    obtain ⟨_,_,packed,lengths⟩ := srvFragBytes_run positive (be24 cert.length) packed
    obtain ⟨_,_,packed,bytes⟩ := srvFragBytes_run positive cert packed
    obtain ⟨_,_,packed,suffix⟩ := srvFragBytes_run positive (be16 0) packed
    obtain ⟨full',held',packed,rest⟩ :=
      ih (forall_mem_cons.mp short).2 packed
    refine ⟨full',held',?_,?_⟩
    · simpa only [map_cons,flatten_cons,certificateEntry,append_assoc] using packed
    · rw [streamEntries,if_neg bounded,lengths,Option.bind_some,bytes,Option.bind_some,suffix,
        Option.bind_some,rest]

theorem srvFragFlush_last (positive : 0 < srvFragLimit e s.t)
    (packed : Packed (srvFragLimit e s.t) fed full held) :
    srvFragFlush e (fragRun e full s held) = fragRun e (cut (srvFragLimit e s.t) fed) s [] := by
  rw [packed.cut_eq positive]
  by_cases empty : held = []
  · rw [if_pos empty,append_nil,empty]
    unfold srvFragFlush
    rw [if_pos]
    rcases fragRun_cases e full s with ⟨next,_,ran⟩ | ⟨rc,next,stopped⟩
    · rw [ran]
      rfl
    · have failed := stopped [] []
      rw [append_nil] at failed
      rw [failed]
      rfl
  · rw [if_neg empty,srvFragFlush_run empty]

theorem certificateFitsLoop_short {room : Nat} {chain : List Bytes}
    (fits : certificateFitsLoop room chain = true) :
    ∀ cert ∈ chain, 1 ≤ cert.length ∧ cert.length ≤ room := by
  induction chain generalizing room with
  | nil => simp
  | cons first chain ih =>
    rw [certificateFitsLoop] at fits
    split at fits
    · cases fits
    rename_i within
    push Not at within
    obtain ⟨nonempty,_,short⟩ := within
    refine forall_mem_cons.mpr ⟨⟨length_pos_iff.mpr nonempty,by omega⟩,fun cert later => ?_⟩
    have rest := ih fits cert later
    exact ⟨rest.1,by omega⟩

/-- The message goes out cut at the fragment limit. -/
theorem srvStreamCertificate_eq {sel : Selection}
    (found : srvIdentityFor e s.t.cfg sel.sigalg = some id) (fits : srvCertificateFits id = true)
    (positive : 0 < srvFragLimit e s.t) :
    srvStreamCertificate e sel s =
      some (sendFragments e (cut (srvFragLimit e s.t) (certificateMessage id)) s) := by
  have short : ∀ cert ∈ id.chain, cert.length ≤ 0xffffff := fun cert among =>
    Nat.le_trans (certificateFitsLoop_short fits cert among).2 (by decide)
  have start : fragRun e [] s [] = { buf := [], rc := .ok (), s := s } := rfl
  obtain ⟨_,_,packed,header⟩ :=
    srvFragBytes_run positive (srvBuildCertificateHeader id) (@packed_nil UInt8 _ positive)
  obtain ⟨_,_,packed,entries⟩ := streamEntries_run positive short packed
  have last := srvFragFlush_last positive packed
  unfold srvStreamCertificate
  rw [found]
  dsimp only
  rw [← start,header,Option.bind_some,entries,Option.map_some,last,nil_append]
  rfl

/-- A message goes out in pieces of the limit. -/
theorem srvFragLoop_eq {msg : Bytes} (enough : msg.length ≤ turns)
    (positive : 0 < srvFragLimit e s.t) :
    srvFragLoop e turns msg s = sendFragments e (cut (srvFragLimit e s.t) msg) s := by
  induction turns generalizing msg s with
  | zero =>
    rw [length_eq_zero_iff.mp (Nat.le_zero.mp enough),cut_nil]
    rfl
  | succ turns ih =>
    by_cases empty : msg = []
    · rw [empty,cut_nil]
      rfl
    have filled := length_pos_iff.mpr empty
    have piece : msg.take (min msg.length (srvFragLimit e s.t)) =
        msg.take (srvFragLimit e s.t) := by
      rw [take_eq_take_iff]
      omega
    have rest : msg.drop (min msg.length (srvFragLimit e s.t)) =
        msg.drop (srvFragLimit e s.t) := by
      rw [drop_eq_drop_iff]
      omega
    have first : srvFragLoop e (turns + 1) msg s =
        (sendFragment e (msg.take (min msg.length (srvFragLimit e s.t))) >>= fun _ =>
          srvFragLoop e turns (msg.drop (min msg.length (srvFragLimit e s.t)))) s := by
      rw [srvFragLoop,if_neg empty,sendFragment,Proc.bind_assoc,bind_of_ok (Proc.get_apply s),
        bind_of_ok (Proc.get_apply s)]
      exact congrFun (Proc.bind_assoc _ _ _).symm s
    rw [first,cut_of_ne_nil positive empty,sendFragments,piece,rest]
    rcases sent : sendFragment e (msg.take (srvFragLimit e s.t)) s with ⟨rc | _,next⟩
    · rw [bind_of_error sent,bind_of_error sent]
    · have same : srvFragLimit e next.t = srvFragLimit e s.t := by
        have kept := sendFragment_sending e (msg.take (srvFragLimit e s.t)) s
        rw [sent] at kept
        unfold srvFragLimit
        rw [srvOutLimit_of_sending kept]
      have shorter : (msg.drop (srvFragLimit e s.t)).length ≤ turns := by
        rw [length_drop]
        omega
      rw [bind_of_ok sent,bind_of_ok sent,ih shorter (by rw [same]; exact positive),same]

theorem srvSendCertificate_eq {sel : Selection}
    (found : srvIdentityFor e s.t.cfg sel.sigalg = some id) (fits : srvCertificateFits id = true)
    (positive : 0 < srvFragLimit e s.t) :
    srvSendCertificate e sel s =
      sendFragments e (cut (srvFragLimit e s.t) (certificateMessage id)) s := by
  have short : ¬ id.chain.any (fun cert => decide (cert.length > 0xffffff)) = true := by
    rw [any_eq_true]
    rintro ⟨cert,among,long⟩
    have bound := (certificateFitsLoop_short fits cert among).2
    have exceeds := of_decide_eq_true long
    omega
  unfold srvSendCertificate
  rw [found]
  dsimp only
  rw [if_neg short]
  exact srvFragLoop_eq (Nat.le_refl _) positive

/-! ### The message -/

def certificateList (chain : List Bytes) : Bytes := (chain.map certificateEntry).flatten

/-- The Certificate message of RFC 9846: no request context, and the entries
behind their length. -/
def rfcCertificate (chain : List Bytes) : Bytes :=
  handshakeMessage hsCertificate
    (byte 0 :: (be24 (certificateList chain).length ++ certificateList chain))

theorem certificateMessage_eq (id : Identity) :
    certificateMessage id = rfcCertificate id.chain := by
  have total : srvCertificateMessageLen id = 8 + (certificateList id.chain).length := by
    rw [← certificateMessage_length]
    simp only [certificateMessage,srvBuildCertificateHeader,certificateList,length_append,
      length_cons,be24_length]
  have body : srvCertificateMessageLen id - 4 =
      (byte 0 :: (be24 (certificateList id.chain).length ++ certificateList id.chain)).length := by
    simp only [total,length_cons,length_append,be24_length]
    omega
  have list : srvCertificateMessageLen id - 8 = (certificateList id.chain).length := by omega
  rw [certificateMessage,srvBuildCertificateHeader,body,list,rfcCertificate,handshakeMessage,
    certificateList]
  simp

structure CertificateLengths (chain : List Bytes) : Prop where
  message : (rfcCertificate chain).length - 4 < 2 ^ 24
  list : (certificateList chain).length < 2 ^ 24
  entries : ∀ cert ∈ chain, 1 ≤ cert.length ∧ cert.length < 2 ^ 24

theorem certificateLengths_of_fits (fits : srvCertificateFits id = true) :
    CertificateLengths id.chain := by
  have whole := certificateMessage_fits fits
  rw [certificateMessage_eq] at whole
  have shape : (rfcCertificate id.chain).length = 8 + (certificateList id.chain).length := by
    simp only [rfcCertificate,handshakeMessage_length,length_cons,length_append,be24_length]
    omega
  refine ⟨by omega,by omega,?_⟩
  intro cert among
  have bound := certificateFitsLoop_short fits cert among
  omega

/-! ### What goes out -/

theorem orInternalError_ok {out : Proc Io Rc Unit} (ran : orInternalError out s = (.ok (), next)) :
    ∃ io, out s.io = (.ok (), io) ∧ next = { s with io := io } := by
  unfold orInternalError onIo Proc.within at ran
  rcases sent : out s.io with ⟨rc | _,io⟩
  · rw [sent] at ran
    cases ran
  · rw [sent] at ran
    cases ran
    exact ⟨io,rfl,rfl⟩

theorem onCryptoOut_ok {level : Nat} {io next : Io}
    (ran : onCryptoOut level p io = (.ok (), next)) : next.crypto = io.crypto ++ [(level, p)] := by
  unfold onCryptoOut at ran
  dsimp only at ran
  split at ran
  · cases ran
    rfl
  · cases ran

variable (e)

/-- The records of handshake plaintexts sealed one after the other, and the keys
behind the last. -/
def sealAll : RecDir → List Bytes → Option (List Bytes × RecDir)
  | wr, [] => some ([], wr)
  | wr, piece :: pieces =>
    (recSeal e wr recHandshake piece (txCap e.build)).bind fun made =>
      (sealAll made.2 pieces).map fun rest => (made.1 :: rest.1, rest.2)

/-- The plaintexts went out in order, one record each, or one CRYPTO push each
over QUIC, and the transcript took the same bytes. -/
structure Carried (pieces : List Bytes) (s next : St) : Prop where
  transcript : next.t.transcript =
    transcriptUpdateSelected s.t.transcript s.t.hashLen pieces.flatten
  records : e.build.quic = false → ∃ records, sealAll e s.t.wr pieces = some (records, next.t.wr) ∧
    next.io.sent = s.io.sent ++ records
  crypto : e.build.quic = true →
    next.io.crypto = s.io.crypto ++ pieces.map fun piece => (s.h.level, piece)

variable {e}

theorem srvOutSealed_whole (nonempty : piece ≠ [])
    (short : piece.length ≤ srvOutLimit e s.t) (tcp : e.build.quic = false)
    (ran : srvOutSealed e piece s = (.ok (), next)) :
    ∃ record, recSeal e s.t.wr recHandshake piece (txCap e.build) = some (record, next.t.wr) ∧
      next.io.sent = s.io.sent ++ [record] := by
  obtain ⟨length,whole⟩ : ∃ length, piece.length = length + 1 :=
    ⟨piece.length - 1,by have := length_pos_iff.mpr nonempty; omega⟩
  have all : min piece.length (srvOutLimit e s.t) = piece.length := Nat.min_eq_left short
  rw [srvOutSealed,tcp,if_neg Bool.false_ne_true,whole,srvOutSealedLoop] at ran
  dsimp only at ran
  rw [if_neg nonempty,all,take_length,drop_length] at ran
  rcases sealed : recSeal e s.t.wr recHandshake piece (txCap e.build) with _ | ⟨record,wr⟩
  · rw [sealed] at ran
    cases ran
  rw [sealed] at ran
  dsimp only at ran
  rcases out : srvOutRecord e record (stageTx record { s with t := { s.t with wr := wr } }) with
    ⟨rc | _,after⟩
  · rw [out] at ran
    cases ran
  rw [out] at ran
  dsimp only at ran
  have ended : after = next := by
    cases length <;> cases ran <;> rfl
  subst ended
  obtain ⟨io,sent,rfl⟩ := orInternalError_ok out
  have appended := srvEmit_sent e sent
  exact ⟨record,rfl,appended⟩

theorem srvOutSealed_crypto (quic : e.build.quic = true)
    (ran : srvOutSealed e piece s = (.ok (), next)) :
    next.io.crypto = s.io.crypto ++ [(s.h.level, piece)] := by
  rw [srvOutSealed,if_pos quic] at ran
  obtain ⟨io,pushed,rfl⟩ := orInternalError_ok ran
  exact onCryptoOut_ok pushed

theorem sendFragment_carried (nonempty : piece ≠ [])
    (short : piece.length ≤ srvOutLimit e s.t) (ran : sendFragment e piece s = (.ok (), next)) :
    Carried e [piece] s next := by
  obtain ⟨_,_,got,ran⟩ := bind_eq_ok.mp ran
  cases got
  obtain ⟨_,hashed,absorbed,ran⟩ := bind_eq_ok.mp ran
  cases absorbed
  refine ⟨?_,fun tcp => ?_,fun quic => ?_⟩
  · have kept := (srvOutSealed_unsent e piece).of_eq ran
    have transcript := congrArg (fun parts : Tls × Hs × Rx => parts.1.transcript) kept
    rw [flatten_singleton]
    exact transcript
  · obtain ⟨record,sealed,sent⟩ := srvOutSealed_whole nonempty (by exact short) tcp ran
    refine ⟨[record],?_,sent⟩
    have first : recSeal e s.t.wr recHandshake piece (txCap e.build) = some (record, next.t.wr) :=
      sealed
    simp [sealAll,first]
  · have pushed := srvOutSealed_crypto quic ran
    exact pushed

theorem transcriptUpdateSelected_append (t : Transcript) (hashLen : Nat) (first rest : Bytes) :
    transcriptUpdateSelected (transcriptUpdateSelected t hashLen first) hashLen rest =
      transcriptUpdateSelected t hashLen (first ++ rest) := by
  unfold transcriptUpdateSelected
  split <;> simp

theorem Carried.cons {piece : Bytes} {pieces : List Bytes} {middle next : St}
    (head : Carried e [piece] s middle) (same : middle.sending = s.sending)
    (tail : Carried e pieces middle next) : Carried e (piece :: pieces) s next := by
  simp only [St.sending,Prod.mk.injEq] at same
  refine ⟨?_,fun tcp => ?_,fun quic => ?_⟩
  · rw [tail.transcript,head.transcript,same.2.1,transcriptUpdateSelected_append,flatten_singleton,
      flatten_cons]
  · obtain ⟨made,sealed,sent⟩ := head.records tcp
    obtain ⟨others,rest,restSent⟩ := tail.records tcp
    refine ⟨made ++ others,?_,by rw [restSent,sent,append_assoc]⟩
    simp only [sealAll,Option.bind_eq_some_iff,Option.map_some,Option.some.injEq,
      Prod.mk.injEq] at sealed
    obtain ⟨⟨record,wr⟩,first,rfl,rfl⟩ := sealed
    simp [sealAll,first,rest]
  · rw [tail.crypto quic,head.crypto quic,same.2.2,append_assoc]
    rfl

theorem sendFragments_carried {pieces : List Bytes}
    (within : ∀ piece ∈ pieces, piece ≠ [] ∧ piece.length ≤ srvOutLimit e s.t)
    (ran : sendFragments e pieces s = (.ok (), next)) : Carried e pieces s next := by
  induction pieces generalizing s with
  | nil =>
    cases ran
    refine ⟨?_,fun _ => ⟨[],rfl,(append_nil _).symm⟩,fun _ => (append_nil _).symm⟩
    simp [transcriptUpdateSelected]
  | cons piece pieces ih =>
    obtain ⟨_,middle,sent,ran⟩ := bind_eq_ok.mp ran
    have first := within piece mem_cons_self
    have same := (sendFragment_sending e piece).of_eq sent
    refine (sendFragment_carried first.1 first.2 sent).cons same (ih ?_ ran)
    intro other among
    rw [srvOutLimit_of_sending same]
    exact within other (mem_cons_of_mem _ among)

theorem srvFragLimit_pos {t : Tls} (positive : e.build.quic = false → 0 < t.peerLimit) :
    0 < srvFragLimit e t := by
  have range := e.build.txPtRange
  have whole : 0 < srvOutLimit e t := by
    unfold srvOutLimit
    split
    · omega
    · rename_i records
      have peer := positive (Bool.not_eq_true _ |>.mp records)
      omega
  simp only [srvFragLimit,srvFragMax]
  omega

/-- The certificate goes out as the fragments of its message: each within the
peer's limit and the writer's buffer, all lengths exact and within their fields,
and the transcript takes what the records carry. -/
theorem srvSendCertificate_exact {sel : Selection} {id : Identity}
    (found : srvIdentityFor e s.t.cfg sel.sigalg = some id) (fits : srvCertificateFits id = true)
    (positive : e.build.quic = false → 0 < s.t.peerLimit) :
    CertificateLengths id.chain ∧
      srvStreamCertificate e sel s = some (srvSendCertificate e sel s) ∧
      ∃ pieces : List Bytes, pieces.flatten = rfcCertificate id.chain ∧
        (∀ piece ∈ pieces, piece ≠ [] ∧ piece.length ≤ srvOutLimit e s.t ∧
          piece.length ≤ srvFragMax) ∧
        srvStreamCertificate e sel s = some (sendFragments e pieces s) ∧
        ∀ next, srvStreamCertificate e sel s = some (.ok (), next) → Carried e pieces s next := by
  have limit : 0 < srvFragLimit e s.t := srvFragLimit_pos positive
  have streamed := srvStreamCertificate_eq found fits limit
  have pieces := cut_length_le limit (certificateMessage id)
  have within : ∀ piece ∈ cut (srvFragLimit e s.t) (certificateMessage id),
      piece ≠ [] ∧ piece.length ≤ srvOutLimit e s.t ∧ piece.length ≤ srvFragMax := by
    intro piece among
    obtain ⟨filled,short⟩ := pieces piece among
    exact ⟨filled,Nat.le_trans short (Nat.min_le_left _ _),
      Nat.le_trans short (Nat.min_le_right _ _)⟩
  refine ⟨certificateLengths_of_fits fits,by rw [streamed,srvSendCertificate_eq found fits limit],
    cut (srvFragLimit e s.t) (certificateMessage id),?_,within,streamed,?_⟩
  · rw [cut_flatten limit,certificateMessage_eq]
  · intro next ran
    rw [streamed] at ran
    exact sendFragments_carried
      (fun piece among => ⟨(within piece among).1,(within piece among).2.1⟩)
      (Option.some.inj ran)

end Writer

def sampleCertIdentity : Identity :=
  { chain := [replicate 200 1,[2,3]], priv := some [], pub := some [] }

def sampleCertEnv : Env := .sample (.plain .tcpBlocking .server)

def sampleCertSt : St :=
  blankSt sampleCertEnv { Tls.fresh { Cfg.unset with srv := { Cfg.unset.srv with
    ecdsaP256 := sampleCertIdentity } } with peerLimit := 63 } []
    { inbox := [], sendPlan := [], sent := [], crypto := [], tx := [] }

theorem srvSendCertificate_exact_small : ∃ pieces : List Bytes,
    pieces.flatten = rfcCertificate sampleCertIdentity.chain ∧
      (∀ piece ∈ pieces, piece.length ≤ 63) ∧
      srvStreamCertificate sampleCertEnv { Selection.zero with sigalg := sigalgEcdsaP256Sha256 }
        sampleCertSt = some (sendFragments sampleCertEnv pieces sampleCertSt) := by
  obtain ⟨_,_,pieces,whole,within,streamed,_⟩ :=
    @srvSendCertificate_exact sampleCertEnv sampleCertSt
      { Selection.zero with sigalg := sigalgEcdsaP256Sha256 } sampleCertIdentity (by decide +kernel)
      (by decide +kernel) (by decide +kernel)
  refine ⟨pieces,whole,fun piece among => ?_,streamed⟩
  exact (within piece among).2.1

end Chapulin
