/-
What the init calls admit of a client configuration (`tls.c`, `quic_config.c`,
`webpki_cfg.c`, `webpki_ticket.c`, `webpki_name.c`, `handshake_post.h`).

A `NULL` pointer with a length is not a value of `Cfg`; the checks that only
refuse such a pair have nothing to check here.
-/

import Chapulin.Hello

namespace Chapulin

open Lib

def ticketIdMax : Nat := 320
def ticketLifetimeMax : Nat := 604800
def alpnMax : Nat := 8
def alpnNameMax : Nat := 32
def hostnameMax : Nat := 253
def spkiPinMax : Nat := 4
def transportParamsMax : Nat := 256
def pskLenMin : Nat := 16

def hkdfHashMax (b : Build) : Nat := if b.aesGcm then sha384Len else sha256Len

/-! ### Host names -/

def isLetter (c : UInt8) : Bool := (0x41 ≤ c && c ≤ 0x5a) || (0x61 ≤ c && c ≤ 0x7a)

def isDigit (c : UInt8) : Bool := 0x30 ≤ c && c ≤ 0x39

def isHostnameByte (c : UInt8) : Bool := isLetter c || isDigit c || c == 0x2e || c == 0x2d

def labelsOk (run : Nat) : Bytes → Bool
  | [] => 1 ≤ run && run ≤ 63
  | c :: rest =>
    if c ≠ 0x2e then labelsOk (run + 1) rest
    else 1 ≤ run && run ≤ 63 && labelsOk 0 rest

/-- `label_edges_ok`; `before` is the byte in front, a dot at the start. -/
def labelEdgesOk (before : UInt8) : Bytes → Bool
  | [] => true
  | c :: rest =>
    (c != 0x2d || (before != 0x2e && rest.headD 0x2e != 0x2e)) && labelEdgesOk c rest

def lastLabelAllDigits (host : Bytes) : Bool := (host.reverse.takeWhile (· != 0x2e)).all isDigit

def webpkiHostnameOk (host : Bytes) : Bool :=
  1 ≤ host.length && host.length ≤ hostnameMax && host.all isHostnameByte && labelsOk 0 host &&
    labelEdgesOk 0x2e host && !lastLabelAllDigits host

/-! ### Tickets -/

def trustLabel : Bytes :=
  [0x63,0x68,0x61,0x70,0x75,0x6c,0x69,0x6e,0x20,0x74,0x69,0x63,0x6b,0x65,0x74,0x20,0x74,0x72,0x75,
   0x73,0x74]

def trustPin : UInt8 := 1
def trustPsk : UInt8 := 2

section ClientConfig

variable (e : Env)

def hspostTrustHash (kind : UInt8) (bytes : Bytes) : Bytes :=
  e.hash sha256Len (trustLabel ++ [kind] ++ bytes)

def hspostTrustHolds (cfg : Cfg) (ticket : Ticket) : Bool :=
  let names (kind : UInt8) (bytes : Option Bytes) : Bool :=
    bytes.any fun bytes => hspostTrustHash e kind bytes == ticket.trustHash
  names trustPin cfg.serverPubkey || names trustPin cfg.serverPubkey2 || names trustPsk cfg.psk

/-- `hspost_present_ticket`: the configuration with the ticket's key in place. -/
def hspostPresentTicket (cfg : Cfg) : Option Cfg :=
  match cfg.ticket with
  | none => some cfg
  | some saved =>
    if e.build.webpki && (cfg.psk.isSome || cfg.pskId.isSome) then none
    else if (saved.psk.length ≠ sha256Len ∧ saved.psk.length ≠ hkdfHashMax e.build) ∨
        saved.lifetimeS = 0 then none
    else if !e.build.webpki && e.build.role != .server && !hspostTrustHolds e cfg saved then none
    else if e.build.webpki then
      some { cfg with psk := some saved.psk, pskId := some saved.identity }
    else
      some { cfg with
        psk := some saved.psk
        pskId := some saved.identity
        serverPubkey := none
        serverPubkey2 := none }

def hspostTicketAgeOk (cfg : Cfg) : Bool :=
  match cfg.ticket with
  | none => true
  | some ticket => cfg.ticketAgeMs ≤ min ticket.lifetimeS ticketLifetimeMax * 1000

def asciiLower (c : UInt8) : UInt8 := if 0x41 ≤ c && c ≤ 0x5a then c + 0x20 else c

def webpkiTicketConfigHash (cfg : Cfg) : Bytes :=
  let sized (bytes : Bytes) : Bytes := be64 bytes.length ++ bytes
  e.hash sha256Len
    (sized (cfg.hostname.map asciiLower) ++
      (be64 cfg.anchors.length ++ (cfg.anchors.map fun a => sized a.1 ++ sized a.2).flatten) ++
      (be64 cfg.spkiPins.length ++ cfg.spkiPins.flatten))

def bindingLabel : Bytes :=
  [0x63,0x68,0x61,0x70,0x75,0x6c,0x69,0x6e,0x20,0x77,0x65,0x62,0x70,0x6b,0x69,0x20,0x74,0x69,0x63,
   0x6b,0x65,0x74]

def webpkiTicketBinding (psk configHash : Bytes) : Bytes :=
  e.hmac sha256Len psk (bindingLabel ++ configHash)

def webpkiResumptionOk (cfg : Cfg) : Bool :=
  match cfg.psk, cfg.pskId, cfg.ticket with
  | none, none, none => true
  | some psk, some pskId, some ticket =>
    ((e.build.clientAesSuites && psk.length == sha384Len) || psk.length == sha256Len) &&
      1 ≤ pskId.length && pskId.length ≤ ticketIdMax &&
      webpkiTicketBinding e psk (webpkiTicketConfigHash e cfg) == ticket.trustHash
  | _, _, _ => false

/-! ### Names, suites and trust -/

/-- `alpn_ok` on a list: every name has a length, and none repeats. -/
def alpnNamesOk (names : List Bytes) : Bool :=
  names.length ≤ alpnMax && names.all (fun name => 1 ≤ name.length && name.length ≤ alpnNameMax) &&
    decide names.Nodup

def suiteRunsHere (cfg : Cfg) (suite : Nat) : Bool :=
  !suiteRunsAesGcm e.build suite || cfg.constantTimeAes

def clientSuitesOk (cfg : Cfg) : Bool :=
  cfg.cipherSuites.length ≤ 3 && cfg.cipherSuites.all (fun s => suiteHashLen e.build s != 0) &&
    decide cfg.cipherSuites.Nodup &&
    (!e.build.cpuRuntime || cfg.cipherSuites.all (suiteRunsHere e cfg))

def pinsAlone (cfg : Cfg) : Bool := cfg.spkiPins != [] && cfg.anchors == []

def anchorsOk (cfg : Cfg) : Bool :=
  cfg.anchors != [] && cfg.anchors.all fun a => a.1 != [] && a.2 != []

def webpkiTrustOk (cfg : Cfg) : Bool :=
  if pinsAlone cfg then cfg.hostname == [] || webpkiHostnameOk cfg.hostname
  else anchorsOk cfg && webpkiHostnameOk cfg.hostname

def webpkiCfgOk (cfg : Cfg) : Bool :=
  (!e.build.clientAesSuites || clientSuitesOk e cfg) && cfg.spkiPins.length ≤ spkiPinMax &&
    webpkiTrustOk cfg && webpkiResumptionOk e cfg &&
    cfg.serverPubkey.isNone && cfg.serverPubkey2.isNone && alpnNamesOk cfg.alpnProtocols

def webpkiClockOk (cfg : Cfg) (nowSeconds : Nat) : Bool := pinsAlone cfg || nowSeconds != 0

def pinLenOk (n : Nat) : Bool :=
  match e.build.pin with
  | .mldsa => n == 2592
  | .ecdsa => n == 64
  | .rsa => 256 ≤ n && n ≤ 384 && n % 8 == 0

def takesPins : Bool := !e.build.cnsa2 || e.build.pin == .mldsa

def pskConfigured (cfg : Cfg) : Bool :=
  cfg.psk.any (fun psk => pskLenMin ≤ psk.length) &&
    cfg.pskId.any (fun id => 1 ≤ id.length && id.length ≤ ticketIdMax) && cfg.serverPubkey.isNone

def pinConfigured (cfg : Cfg) : Bool :=
  cfg.psk.isNone && cfg.serverPubkey.any fun key => pinLenOk e key.length

def modulusOk (key : Bytes) : Bool := e.build.pin != .rsa || (key.getLastD 0).toNat % 2 == 1

def pinTrustOk (cfg : Cfg) : Bool :=
  (pskConfigured cfg || pinConfigured e cfg) && (!pinConfigured e cfg || takesPins e) &&
    cfg.serverPubkey2.all (fun key => pinConfigured e cfg && pinLenOk e key.length) &&
    (!pinConfigured e cfg || cfg.serverPubkey.all (modulusOk e)) &&
    cfg.serverPubkey2.all (modulusOk e)

def trustConfigOk (cfg : Cfg) : Bool :=
  if e.build.webpki then webpkiCfgOk e cfg else pinTrustOk e cfg

def tlsiConfigOk (cfg : Cfg) : Bool :=
  trustConfigOk e cfg && e.build.minRxbuf ≤ cfg.bufLen &&
    (!e.build.cpuRuntime || cfg.cpuBitsOk) &&
    (e.build.webpki || e.build.kexPq || e.build.cnsa2 || !cfg.requirePq) &&
    hspostTicketAgeOk cfg

/-- `tlsi_epoch_init`; the QUIC `epoch_init` is the same. -/
def tlsiEpochInit (cfg : Cfg) : Proc Tls Rc Unit := fun t =>
  if e.build.trust ≠ .ca then
    (if cfg.epochLoad.isSome || cfg.epochStore.isSome then .error .einval else .ok (), t)
  else if cfg.epochLoad.isSome != cfg.epochStore.isSome then (.error .einval, t)
  else
    match cfg.epochLoad with
    | none => (.ok (), t)
    | some none => (.error .einval, t)
    | some (some stored) =>
      if stored > epochMax then (.error .einval, t)
      else
        let t := { t with epoch := stored }
        match cfg.ticket with
        | none => (.ok (), t)
        | some ticket =>
          if ticket.epoch > epochMax then (.error .einval, t)
          else
            let t := { t with epochSeen := ticket.epoch }
            if ticket.epoch < stored then
              (.error .einval, { t with epochStatus := epochRevoked })
            else (.ok (), { t with
              epochStatus := if ticket.epoch > stored then epochAhead else epochMatched })

def webpkiSetup (cfg : Cfg) : Proc Tls Rc Unit := fun t =>
  if !e.build.webpki then (.ok (), t)
  else
    let t := { t with nowSeconds := cfg.nowSeconds.getD 0 }
    if !webpkiClockOk cfg t.nowSeconds then (.error .einval, t)
    else
      let t := { t with takesTickets := cfg.onTicket }
      (.ok (), if cfg.onTicket then
        { t with ticketConfigHash := webpkiTicketConfigHash e cfg } else t)

/-- The checks a TCP client's init call makes of its configuration, and the
session it starts from when they pass.  The two init calls make them in
different orders and answer every failure alike. -/
def tcpClientSetup (cfg : Cfg) : Except Rc Tls × Tls :=
  match hspostPresentTicket e cfg with
  | none => (.error .einval, Tls.fresh cfg)
  | some presented =>
    let t := Tls.fresh presented
    if !tlsiConfigOk e presented || !cfg.send || !cfg.recv then (.error .einval, t)
    else
      match tlsiEpochInit e presented t with
      | (.error rc, t) => (.error rc, t)
      | (.ok _, t) =>
        match webpkiSetup e cfg t with
        | (.error rc, t) => (.error rc, t)
        | (.ok _, t) => (.ok t, t)

def Tls.beforeSetup (t : Tls) : Tls :=
  { t with
    epoch := 0, epochSeen := 0, epochStatus := 0, nowSeconds := 0, takesTickets := false,
    ticketConfigHash := [] }

theorem tlsiEpochInit_beforeSetup (cfg : Cfg) :
    Proc.Keeps Tls.beforeSetup (tlsiEpochInit e cfg) := by
  intro t
  unfold tlsiEpochInit
  split
  · rfl
  split
  · rfl
  split
  · rfl
  · rfl
  split
  · rfl
  dsimp only
  split
  · rfl
  split
  · rfl
  split <;> rfl

theorem webpkiSetup_beforeSetup (cfg : Cfg) : Proc.Keeps Tls.beforeSetup (webpkiSetup e cfg) := by
  intro t
  unfold webpkiSetup
  split
  · rfl
  dsimp only
  split
  · rfl
  · dsimp only
    split <;> rfl

/-- A client's session has nothing but its configuration and what the setup
filled in, whether it is refused or not. -/
theorem tcpClientSetup_beforeSetup (cfg : Cfg) :
    ∃ presented, (tcpClientSetup e cfg).2.beforeSetup = Tls.fresh presented := by
  unfold tcpClientSetup
  split
  · exact ⟨cfg,rfl⟩
  rename_i presented found
  refine ⟨presented,?_⟩
  dsimp only
  split
  · rfl
  have loaded := tlsiEpochInit_beforeSetup e presented (Tls.fresh presented)
  rcases ran : tlsiEpochInit e presented (Tls.fresh presented) with ⟨rc | _,t⟩
  · rw [ran] at loaded
    exact loaded
  rw [ran] at loaded
  have trusted := webpkiSetup_beforeSetup e cfg t
  rcases set : webpkiSetup e cfg t with ⟨rc | _,last⟩ <;>
    · rw [set] at trusted
      dsimp only
      rw [set]
      exact trusted.trans loaded

/-- A client's session starts with nothing but its configuration and what the
setup filled in. -/
theorem tcpClientSetup_ok {cfg : Cfg} {t t' : Tls} (ok : tcpClientSetup e cfg = (.ok t, t')) :
    ∃ presented, hspostPresentTicket e cfg = some presented ∧
      t.beforeSetup = Tls.fresh presented := by
  unfold tcpClientSetup at ok
  split at ok
  · cases ok
  rename_i presented found
  dsimp only at ok
  split at ok
  · cases ok
  have loaded := tlsiEpochInit_beforeSetup e presented (Tls.fresh presented)
  split at ok
  · cases ok
  rename_i t₁ ran
  rw [ran] at loaded
  have trusted := webpkiSetup_beforeSetup e cfg t₁
  split at ok
  · cases ok
  rename_i ran
  rw [ran] at trusted
  cases ok
  exact ⟨presented,found,trusted.trans loaded⟩

def transportConfigOk (quicVersionDerived : Nat → Bool) (cfg : Cfg) : Bool :=
  1 ≤ cfg.transportParams.length && cfg.transportParams.length ≤ transportParamsMax &&
    cfg.onLevelReady && quicVersionDerived cfg.quicOriginalVersion

end ClientConfig

end Chapulin
