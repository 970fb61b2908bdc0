/-
Session storage (`cfg.h`, `session.h`, `handshake_record.h`).

`Tls` and `Hs` are `ch_tls_priv` and `handshake_state`; a field a build does not
declare is there and unused.  The receive buffer with its window is `Rx` and the
transport is `Io`, apart from the rest, so that a handler typed over `Core`
cannot touch them.  Pointers into caller memory are the bytes they point to.
-/

import Chapulin.Lib.Proc
import Chapulin.Crypto

namespace Chapulin

open Lib Proc

structure Ticket where
  identity : Bytes
  psk : Bytes
  lifetimeS : Nat
  ageAdd : Nat
  epoch : Nat
  trustHash : Bytes
  quicVersion : Nat
  deriving DecidableEq, Repr

structure Identity where
  chain : List Bytes
  priv : Option Bytes
  pub : Option Bytes
  deriving DecidableEq, Repr

def Identity.unset : Identity := { chain := [], priv := none, pub := none }

structure SrvCfg where
  ecdsaP256 : Identity
  rsaPss : Identity
  mldsa87 : Identity
  cookieKey : Option Bytes
  ticketKey : Option Bytes
  /-- `sni_buf` and `sni_cap`. -/
  sniCap : Option Nat
  requireServerName : Bool
  cipherSuites : List Nat
  /-- Whether `on_record_out` (TCP) or `on_crypto_out` (QUIC) is set. -/
  onOut : Bool
  /-- `choose_version`'s answer, none when the callback is `NULL`. -/
  chooseVersion : Option Nat

/-- `ch_cfg`.  `rand` is the byte stream the configured source yields and
`nowSeconds` what the clock callback answers. -/
structure Cfg where
  psk : Option Bytes
  pskId : Option Bytes
  ticket : Option Ticket
  ticketAgeMs : Nat
  serverPubkey : Option Bytes
  serverPubkey2 : Option Bytes
  bufLen : Nat
  send : Bool
  recv : Bool
  onTicket : Bool
  rand : Nat → UInt8
  /-- `epoch_load`: not set, or what a call reports (none for a failure). -/
  epochLoad : Option (Option Nat)
  /-- `epoch_store`: not set, or whether a call succeeds. -/
  epochStore : Option Bool
  requirePq : Bool
  /-- `cpu_bits_ok`. -/
  cpuBitsOk : Bool
  /-- `CH_CPU_CONSTANT_TIME_AES`. -/
  constantTimeAes : Bool
  nowSeconds : Option Nat
  /-- Name and key of each trust anchor. -/
  anchors : List (Bytes × Bytes)
  hostname : Bytes
  spkiPins : List Bytes
  /-- Empty for `NULL`. -/
  cipherSuites : List Nat
  alpnProtocols : List Bytes
  quicOriginalVersion : Nat
  transportParams : Bytes
  onLevelReady : Bool
  onTransportParams : Bool
  srv : SrvCfg

def Cfg.unset : Cfg where
  psk := none
  pskId := none
  ticket := none
  ticketAgeMs := 0
  serverPubkey := none
  serverPubkey2 := none
  bufLen := 0
  send := false
  recv := false
  onTicket := false
  rand := fun _ => 0
  epochLoad := none
  epochStore := none
  requirePq := false
  cpuBitsOk := true
  constantTimeAes := false
  nowSeconds := none
  anchors := []
  hostname := []
  spkiPins := []
  cipherSuites := []
  alpnProtocols := []
  quicOriginalVersion := 0
  transportParams := []
  onLevelReady := false
  onTransportParams := false
  srv := {
    ecdsaP256 := .unset
    rsaPss := .unset
    mldsa87 := .unset
    cookieKey := none
    ticketKey := none
    sniCap := none
    requireServerName := false
    cipherSuites := []
    onOut := false
    chooseVersion := none }

inductive KeyDirection where
  | read | write
  deriving DecidableEq, Repr

inductive Callback where
  | onTicket (ticket : Ticket)
  | epochStore (value : Nat)
  | onLevelReady (level : Nat) (direction : KeyDirection)
  | onTransportParams (body : Bytes)
  deriving DecidableEq, Repr

/-- `rec_dir`: one direction's record keys.  `used` lists the numbers the key
sealed or opened a record at, with the type inside, 0 for one that held none: a
history that no definition reads. -/
structure RecDir where
  key : Bytes
  iv : Bytes
  seq : Nat
  suite : Nat
  used : List (Nat × Nat)
  deriving DecidableEq, Repr

def RecDir.wiped : RecDir := { key := zeros 32, iv := zeros 12, seq := 0, suite := 0, used := [] }

def RecDir.advance (type : Nat) (d : RecDir) : RecDir :=
  { d with seq := d.seq + 1, used := d.used ++ [(d.seq, type)] }

/-- The side a session takes; `CH_QUIC_ENDPOINT_CLIENT` and
`CH_QUIC_ENDPOINT_SERVER` of a QUIC session. -/
inductive Endpoint where
  | client | server
  deriving DecidableEq, Repr

def Endpoint.peer : Endpoint → Endpoint
  | .client => .server
  | .server => .client

structure Tls where
  cfg : Cfg
  rd : RecDir
  wr : RecDir
  rdSecret : Bytes
  wrSecret : Bytes
  resMaster : Bytes
  expMaster : Bytes
  transcript : Transcript
  peerLimit : Nat
  state : SessionState
  keys : Bool
  pinSlot : Nat
  pskSelected : Bool
  group : Nat
  suite : Nat
  sessionId : Bytes
  hashLen : Nat
  sigalg : Nat
  hrrSent : Bool
  compatCcs : Bool
  server : Bool
  /-- The name copied to `sni_buf`. -/
  sni : Bytes
  alpnSelected : Nat
  ticketConfigHash : Bytes
  serverCertType : Nat
  nowSeconds : Nat
  epoch : Nat
  epochStoreFailed : Bool
  keyUpdateOwed : Bool
  keyUpdateRun : Nat
  limitSent : Bool
  takesTickets : Bool
  epochSeen : Nat
  epochStatus : Nat
  alertSent : Nat
  readClosed : Bool
  sendEpochs : Nat
  quicNegotiatedVersion : Nat
  /-- How many bytes have been drawn from `cfg.rand`. -/
  randPos : Nat
  calls : List Callback
  /-- The ClientHellos a client built: a history that no definition reads. -/
  hellos : List Bytes
  /-- Level and description of the alerts handed to the transport, as a history. -/
  alerts : List (Nat × Nat)
  /-- The record keys that were replaced or wiped, as a history. -/
  spent : List (KeyDirection × RecDir)

def Tls.spentRd (t : Tls) : List (KeyDirection × RecDir) := t.spent ++ [(.read, t.rd)]

def Tls.spentWr (t : Tls) : List (KeyDirection × RecDir) := t.spent ++ [(.write, t.wr)]

def Tls.spentBoth (t : Tls) : List (KeyDirection × RecDir) := t.spentRd ++ [(.write, t.wr)]

/-- A session after `memset` and the copy of the configuration. -/
def Tls.fresh (cfg : Cfg) : Tls where
  cfg := cfg
  rd := .wiped
  wr := .wiped
  rdSecret := []
  wrSecret := []
  resMaster := []
  expMaster := []
  transcript := transcriptInit
  peerLimit := 0
  state := .start
  keys := false
  pinSlot := 0
  pskSelected := false
  group := 0
  suite := 0
  sessionId := []
  hashLen := 0
  sigalg := 0
  hrrSent := false
  compatCcs := false
  server := false
  sni := []
  alpnSelected := 0
  ticketConfigHash := []
  serverCertType := 0
  nowSeconds := 0
  epoch := 0
  epochStoreFailed := false
  keyUpdateOwed := false
  keyUpdateRun := 0
  limitSent := false
  takesTickets := false
  epochSeen := 0
  epochStatus := 0
  alertSent := 0
  readClosed := false
  sendEpochs := 0
  quicNegotiatedVersion := 0
  randPos := 0
  calls := []
  hellos := []
  alerts := []
  spent := []

structure Hs where
  priv : Bytes
  pub : Bytes
  dz : Bytes
  retryGroup : Nat
  p256Pub : Bytes
  p256Priv : Bytes
  suite : Nat
  random : Bytes
  early : Bytes
  binderKey : Bytes
  handshakeSecret : Bytes
  cHs : Bytes
  sHs : Bytes
  master : Bytes
  cookie : Bytes
  mlkemSs : Bytes
  ticketAuthSeconds : Nat
  recordSizeLimit : Nat
  encrypted : Bool
  level : Nat
  alert : Nat
  serverFinishedOk : Bool
  leaf : LeafInfo

/-- A handshake state after `memset` or `ct_wipe`. -/
def Hs.wiped : Hs where
  priv := []
  pub := []
  dz := []
  retryGroup := 0
  p256Pub := []
  p256Priv := []
  suite := 0
  random := []
  early := []
  binderKey := []
  handshakeSecret := []
  cHs := []
  sHs := []
  master := []
  cookie := []
  mlkemSs := []
  ticketAuthSeconds := 0
  recordSizeLimit := 0
  encrypted := false
  level := 0
  alert := 0
  serverFinishedOk := false
  leaf := .none

/-- A change_cipher_spec record the reader came to: its bytes, or its header
alone when the length check refused it, whether it was skipped, what was left of
`cfg.buf`, and the alert the driver held. -/
structure CcsEvent where
  bytes : Bytes
  skipped : Bool
  room : Nat
  held : Nat
  deriving DecidableEq, Repr

/-- The receive side: `cfg.buf` with the window `[pt_off, pt_len)` of bytes not
read yet, the number of bytes of a partial post-handshake message kept at its
front, and the fields of `ch_tls_priv` and `handshake_state` that only the
readers write.  The last three are histories that no definition reads: the
messages `hsr_next_msg` handed out, the plaintexts of the application_data
records that `rec_open` accepted, and the change_cipher_spec records. -/
structure Rx where
  buf : Bytes
  ptOff : Nat
  ptLen : Nat
  postFill : Nat
  ccsSeen : Nat
  quiet : Nat
  alertReceived : Nat
  taken : List Bytes
  opened : List Bytes
  ccs : List CcsEvent
  deriving DecidableEq, Repr

/-- The receive side of a session that has read nothing into `buf`. -/
def Rx.fresh (buf : Bytes) : Rx where
  buf := buf
  ptOff := 0
  ptLen := 0
  postFill := 0
  ccsSeen := 0
  quiet := 0
  alertReceived := 0
  taken := []
  opened := []
  ccs := []

/-- The bytes between `pt_off` and `pt_len`. -/
def Rx.window (rx : Rx) : Bytes := (rx.buf.take rx.ptLen).drop rx.ptOff

/-- The transport callbacks.  `inbox` holds what successive `recv` calls find:
a call returns at most one entry, an empty entry is a return of 0 and an
exhausted list an error.  `sendPlan` says how many bytes successive `send`
calls take, 0 or too many for an error, and all of them once it runs out.
The server's output callback takes its answers from the plan as well: 0 stands
for a refusal.  `sent` lists the byte strings handed to `io_send_all` or to
`on_record_out`, each as far as it was taken, and `crypto` what `on_crypto_out`
took, with its level.  `tx` is the staging buffer. -/
structure Io where
  inbox : List Bytes
  sendPlan : List Nat
  sent : List Bytes
  crypto : List (Nat × Bytes)
  tx : Bytes
  deriving DecidableEq, Repr

structure Core where
  t : Tls
  h : Hs

structure St where
  t : Tls
  h : Hs
  rx : Rx
  io : Io

def St.core (s : St) : Core := { t := s.t, h := s.h }

def St.putCore (c : Core) (s : St) : St := { s with t := c.t, h := c.h }

abbrev Act (α : Type) := Proc St Rc α

abbrev Handler (α : Type) := Proc Core Rc α

def onCore {α : Type} (handler : Handler α) : Act α := Proc.within St.core St.putCore handler

/-- The build, the primitives and the rules that accept a server's key.  A rule
is given the alert to start from and leaves the one it last wrote. -/
structure Env extends Crypto where
  build : Build
  /-- List, first and second configured authority. -/
  x509VerifyLeaf : Bytes → Option Bytes → Option Bytes → Nat → Except Rc LeafInfo × Nat
  webpkiVerifyRawKey : Bytes → Cfg → Nat → Except Rc LeafInfo × Nat
  webpkiVerifyLeafPin : Bytes → Cfg → Nat → Except Rc LeafInfo × Nat
  /-- List, configuration, the clock's answer. -/
  webpkiVerifyChain : Bytes → Cfg → Nat → Nat → Except Rc LeafInfo × Nat
  webpkiPathPinned : Bytes → Cfg → LeafInfo → Bool
  /-- `p256_sign_key_ok`, `rsa_pss_sign_key_ok` and the ML-DSA check, by scheme. -/
  signKeyOk : Nat → Identity → Bool

def Env.sample (b : Build) : Env where
  toCrypto := .sample
  build := b
  x509VerifyLeaf _ _ _ alert := (.error .eauth, alert)
  webpkiVerifyRawKey _ _ alert := (.error .eauth, alert)
  webpkiVerifyLeafPin _ _ alert := (.error .eauth, alert)
  webpkiVerifyChain _ _ _ alert := (.error .eauth, alert)
  webpkiPathPinned _ _ _ := false
  signKeyOk _ _ := true

theorem eq_ok_of_toBool {α : Type} {result : Except Rc Unit × α} (ok : result.1.toBool = true) :
    result = (.ok (), result.2) := by
  rcases result with ⟨rc | _,state⟩
  · cases ok
  · rfl

/-- `rand_draw`: the next `n` bytes of the configured source. -/
def randDraw (n : Nat) : Handler Bytes := fun c =>
  (.ok ((List.range n).map fun i => c.t.cfg.rand (c.t.randPos + i)),
    { c with t := { c.t with randPos := c.t.randPos + n } })

def refuse {α : Type} (alert : Nat) (rc : Rc) : Handler α := fun c =>
  (.error rc, { c with h := { c.h with alert := alert } })

def setAlert (alert : Nat) : Handler Unit := fun c =>
  (.ok (), { c with h := { c.h with alert := alert } })

def modifyTls (edit : Tls → Tls) : Handler Unit := fun c => (.ok (), { c with t := edit c.t })

def modifyHs (edit : Hs → Hs) : Handler Unit := fun c => (.ok (), { c with h := edit c.h })

def modifyCore (edit : Core → Core) : Handler Unit := Proc.modify edit

def getTls : Handler Tls := fun c => (.ok c.t, c)

def getHs : Handler Hs := fun c => (.ok c.h, c)

def chAssert (condition : Bool) : Handler Unit := Proc.require condition .assertFail

/-! ### What handlers leave alone -/

def Core.fixed (c : Core) : Cfg × SessionState := (c.t.cfg, c.t.state)

abbrev Fixes {α : Type} (handler : Handler α) : Prop := Keeps Core.fixed handler

structure Tls.Kept where
  cfg : Cfg
  state : SessionState
  keys : Bool
  wr : RecDir
  rd : RecDir
  spent : List (KeyDirection × RecDir)
  alerts : List (Nat × Nat)
  alertSent : Nat
  sendEpochs : Nat
  keyUpdateOwed : Bool
  keyUpdateRun : Nat
  readClosed : Bool
  peerLimit : Nat
  hashLen : Nat

def Tls.kept (t : Tls) : Tls.Kept where
  cfg := t.cfg
  state := t.state
  keys := t.keys
  wr := t.wr
  rd := t.rd
  spent := t.spent
  alerts := t.alerts
  alertSent := t.alertSent
  sendEpochs := t.sendEpochs
  keyUpdateOwed := t.keyUpdateOwed
  keyUpdateRun := t.keyUpdateRun
  readClosed := t.readClosed
  peerLimit := t.peerLimit
  hashLen := t.hashLen

abbrev Steady {α : Type} (handler : Handler α) : Prop := Keeps (fun c => c.t.kept) handler

theorem Steady.fixes {α : Type} {handler : Handler α} (kept : Steady handler) :
    Fixes handler := kept.map fun parts => (parts.cfg, parts.state)

theorem steady_modifyTls {edit : Tls → Tls} (same : ∀ t, (edit t).kept = t.kept) :
    Steady (modifyTls edit) := fun c => same c.t

theorem steady_modifyHs (edit : Hs → Hs) : Steady (modifyHs edit) := fun _ => rfl

theorem steady_randDraw (n : Nat) : Steady (randDraw n) := fun _ => rfl

theorem steady_chAssert (condition : Bool) : Steady (chAssert condition) :=
  keeps_require condition _

theorem steady_refuse {α : Type} (alert : Nat) (rc : Rc) : Steady (refuse alert rc : Handler α) :=
  fun _ => rfl

theorem Keeps.onCore {α ρ : Type} {view : Core → ρ} {handler : Handler α}
    (kept : Keeps view handler) : Keeps (fun s => view s.core) (onCore handler) :=
  kept.within fun _ _ => rfl

theorem onCore_rx {α : Type} (handler : Handler α) : Keeps St.rx (onCore handler) :=
  keeps_within handler fun _ _ => rfl

end Chapulin
