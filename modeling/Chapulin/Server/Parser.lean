/-
The server's ClientHello parser (`srv_parser.c`, `srv_parser_ext.c`).

The source collects code points in bit sets; here a set is the list of the code
points it knows, in the order the hello names them.  Every refusal is
`CH_EPROTO` with an alert, so the alert is what a parser stops with.
-/

import Chapulin.Parser

namespace Chapulin

open Lib Alert

structure ClientHello where
  random : Bytes
  sessionId : Bytes
  suites : List Nat
  groups : List Nat
  /-- The first share of each group the server knows. -/
  shares : List (Nat × Bytes)
  sigalgs : List Nat
  cookie : Option Bytes
  serverName : Option Bytes
  alpnSelected : Nat
  recordSizeLimit : Nat
  pskModes : List Nat
  truncatedLen : Nat
  pskIdentities : Bytes
  pskBinders : Bytes
  binderHash : Bytes
  binderHashSha384 : Bytes
  seen : List Nat
  frozen : Bytes
  transportParams : Option Bytes
  deriving DecidableEq, Repr

/-- A `client_hello` after `memset` and the first line of the parser. -/
def ClientHello.zero : ClientHello where
  random := []
  sessionId := []
  suites := []
  groups := []
  shares := []
  sigalgs := []
  cookie := none
  serverName := none
  alpnSelected := alpnNone
  recordSizeLimit := 0
  pskModes := []
  truncatedLen := 0
  pskIdentities := []
  pskBinders := []
  binderHash := []
  binderHashSha384 := []
  seen := []
  frozen := []
  transportParams := none

def ClientHello.saw (ch : ClientHello) (ext : Nat) : Bool := ch.seen.contains ext

/-- The share of a group, none for a `NULL` pointer. -/
def ClientHello.share (ch : ClientHello) (group : Nat) : Option Bytes := ch.shares.lookup group

abbrev HelloParse (α : Type) := Proc ClientHello Nat α

def extPadding : Nat := 21
def pskKe : Nat := 0
def pskDheKe : Nat := 1
def clientHelloExtMax : Nat := 128

def srvSuiteKnown (b : Build) (suite : Nat) : Bool :=
  if b.suiteCnsa2Server then suite == suiteAes256GcmSha384
  else (b.aesGcm && (suite == suiteAes128GcmSha256 || suite == suiteAes256GcmSha384)) ||
    suite == suiteChacha20Poly1305Sha256

def srvGroupKnown (b : Build) (group : Nat) : Bool :=
  if b.cnsa2 then group == groupMlkem1024
  else group == groupMlkem1024 || group == groupX25519Mlkem768 || group == groupSecp256r1 ||
    group == groupX25519

/-- The schemes `read_signature_algorithms` keeps. -/
def srvSigalgKnown (b : Build) (scheme : Nat) : Bool :=
  (b.signMldsa && scheme == sigalgMldsa87) ||
    (!b.cnsa2 && (scheme == sigalgEcdsaP256Sha256 || scheme == sigalgRsaPssRsaeSha256))

def srvExtKnown (type : Nat) : Bool :=
  [extServerName,extSupportedGroups,extSignatureAlgorithms,extAlpn,extRecordSizeLimit,
    extPreSharedKey,extSupportedVersions,extCookie,extPskModes,extKeyShare,extEarlyData,extPadding,
    extQuicTransportParams].contains type

/-! ### Lists inside an extension -/

def srvOpenCodePointList (r : Rbuf) : Option (Nat × Rbuf) :=
  let (listLen, r) := rbU16 r
  if !r.err && 2 ≤ listLen && listLen % 2 == 0 && listLen ≤ rbLeft r then some (listLen, r)
  else none

def rbCodes : Nat → Rbuf → List Nat × Rbuf
  | 0, r => ([], r)
  | count + 1, r =>
    let (code, r) := rbU16 r
    let (codes, r) := rbCodes count r
    (code :: codes, r)

/-- The next `count` bytes as numbers. -/
def rbOctets : Nat → Rbuf → List Nat × Rbuf
  | 0, r => ([], r)
  | count + 1, r =>
    let (octet, r) := rbU8 r
    let (octets, r) := rbOctets count r
    (octet :: octets, r)

/-- The `while (used < list_len)` loop: an entry returns the bytes it took, and
the entries must fill the list.  The fuel is the length of the list. -/
def rbEntries (entry : Rbuf → HelloParse (Nat × Rbuf)) (listLen : Nat) :
    Nat → Nat → Rbuf → HelloParse Rbuf
  | 0, used, r => if used = listLen then Proc.ret r else Proc.stop decodeError
  | fuel + 1, used, r =>
    if used < listLen then do
      let (took, r) ← entry r
      rbEntries entry listLen fuel (used + took) r
    else if used ≠ listLen then Proc.stop decodeError
    else Proc.ret r

/-! ### The extensions -/

def readServerName (e : Rbuf) : HelloParse Rbuf := fun ch =>
  let (listLen, e) := rbU16 e
  let (nameType, e) := rbU8 e
  let (nameLen, e) := rbU16 e
  match rbBytes nameLen e with
  | (none, _) => (.error decodeError, ch)
  | (some name, e) =>
    if nameType ≠ 0 ∨ nameLen = 0 ∨ listLen ≠ 3 + nameLen then (.error decodeError, ch)
    else (.ok e, { ch with serverName := some name })

def readCodePoints (keep : List Nat → ClientHello → ClientHello) (e : Rbuf) : HelloParse Rbuf :=
  fun ch =>
    match srvOpenCodePointList e with
    | none => (.error decodeError, ch)
    | some (listLen, e) =>
      let (codes, e) := rbCodes (listLen / 2) e
      (.ok e, keep codes ch)

def readSupportedGroups (b : Build) : Rbuf → HelloParse Rbuf :=
  readCodePoints fun codes ch => { ch with groups := codes.filter (srvGroupKnown b) }

def readSignatureAlgorithms (b : Build) : Rbuf → HelloParse Rbuf :=
  readCodePoints fun codes ch => { ch with sigalgs := codes.filter (srvSigalgKnown b) }

/-- `alpn_offered`: keeps the lowest index of the server's list. -/
def alpnOffered (offered : List Bytes) (name : Bytes) (ch : ClientHello) : ClientHello :=
  let index := offered.idxOf name
  if index < offered.length ∧ (ch.alpnSelected = alpnNone ∨ index < ch.alpnSelected) then
    { ch with alpnSelected := index }
  else ch

def alpnEntry (offered : List Bytes) (e : Rbuf) : HelloParse (Nat × Rbuf) := fun ch =>
  let (nameLen, e) := rbU8 e
  match rbBytes nameLen e with
  | (none, _) => (.error decodeError, ch)
  | (some name, e) =>
    if nameLen = 0 then (.error decodeError, ch)
    else (.ok (1 + nameLen, e), alpnOffered offered name ch)

def readAlpn (offered : List Bytes) (e : Rbuf) : HelloParse Rbuf :=
  let (listLen, e) := rbU16 e
  if e.err || listLen < 2 || listLen > rbLeft e then Proc.stop decodeError
  else rbEntries (alpnEntry offered) listLen listLen 0 e

def readRecordSizeLimit (e : Rbuf) : HelloParse Rbuf := fun ch =>
  let (limit, e) := rbU16 e
  if e.err then (.error decodeError, ch)
  else if limit < 64 then (.error illegalParameter, ch)
  else (.ok e, { ch with recordSizeLimit := limit - 1 })

def identityEntry (e : Rbuf) : HelloParse (Nat × Rbuf) := fun ch =>
  let (identityLen, e) := rbU16 e
  match rbBytes identityLen e with
  | (none, _) => (.error decodeError, ch)
  | (some _, e) =>
    if identityLen = 0 then (.error decodeError, ch)
    else match rbBytes 4 e with
      | (none, _) => (.error decodeError, ch)
      | (some _, e) => (.ok (2 + identityLen + 4, e), ch)

def readPskIdentities (e : Rbuf) : HelloParse (Nat × Rbuf) := do
  let (identitiesLen, e) := rbU16 e
  if e.err || identitiesLen < 7 || identitiesLen > rbLeft e then Proc.stop decodeError
  else do
    Proc.modify fun ch => { ch with pskIdentities := e.rest.take identitiesLen }
    let e ← rbEntries identityEntry identitiesLen identitiesLen 0 e
    pure (identitiesLen, e)

def binderEntry (e : Rbuf) : HelloParse (Nat × Rbuf) := fun ch =>
  let (binderLen, e) := rbU8 e
  match rbBytes binderLen e with
  | (none, _) => (.error decodeError, ch)
  | (some _, e) =>
    if binderLen < 32 then (.error decodeError, ch) else (.ok (1 + binderLen, e), ch)

def readPskBinders (e : Rbuf) : HelloParse Rbuf := do
  let (bindersLen, e) := rbU16 e
  if e.err || bindersLen < 33 || bindersLen > rbLeft e then Proc.stop decodeError
  else do
    Proc.modify fun ch => { ch with pskBinders := e.rest.take bindersLen }
    rbEntries binderEntry bindersLen bindersLen 0 e

def readPreSharedKey (dataOff : Nat) (e : Rbuf) : HelloParse Rbuf := do
  let (identitiesLen, e) ← readPskIdentities e
  Proc.modify fun ch => { ch with truncatedLen := dataOff + 2 + identitiesLen }
  readPskBinders e

def readSupportedVersions (e : Rbuf) : HelloParse Rbuf := fun ch =>
  let (listLen, e) := rbU8 e
  if e.err || listLen < 2 || listLen % 2 != 0 || listLen > rbLeft e then
    (.error decodeError, ch)
  else
    let (codes, e) := rbCodes (listLen / 2) e
    if codes.contains tls13 then (.ok e, ch) else (.error protocolVersion, ch)

def readCookie (e : Rbuf) : HelloParse Rbuf := fun ch =>
  let (cookieLen, e) := rbU16 e
  match rbBytes cookieLen e with
  | (none, _) => (.error decodeError, ch)
  | (some cookie, e) =>
    if cookieLen = 0 then (.error decodeError, ch)
    else (.ok e, { ch with cookie := some cookie })

def readPskModes (e : Rbuf) : HelloParse Rbuf := fun ch =>
  let (listLen, e) := rbU8 e
  if e.err || listLen == 0 || listLen > rbLeft e then (.error decodeError, ch)
  else
    let (modes, e) := rbOctets listLen e
    (.ok e, { ch with pskModes := modes.filter fun mode => mode == pskKe || mode == pskDheKe })

def shareLenOf (b : Build) (group : Nat) : Nat :=
  if b.cnsa2 || group == groupMlkem1024 then 1568
  else if group = groupX25519Mlkem768 then hybridClientShare
  else if group = groupSecp256r1 then p256PointLen else 32

def takeShare (b : Build) (group : Nat) (share : Bytes) : HelloParse Unit := fun ch =>
  if share.length ≠ shareLenOf b group then (.error illegalParameter, ch)
  else if (ch.share group).isSome then (.ok (), ch)
  else (.ok (), { ch with shares := ch.shares ++ [(group, share)] })

def shareEntry (b : Build) (e : Rbuf) : HelloParse (Nat × Rbuf) :=
  let (group, share, e) := rbItem e
  match share with
  | none => Proc.stop decodeError
  | some share =>
    if share = [] then Proc.stop decodeError
    else if srvGroupKnown b group then do
      takeShare b group share
      pure (4 + share.length, e)
    else pure (4 + share.length, e)

def readKeyShare (b : Build) (e : Rbuf) : HelloParse Rbuf :=
  let (listLen, e) := rbU16 e
  if e.err || listLen > rbLeft e then Proc.stop decodeError
  else rbEntries (shareEntry b) listLen listLen 0 e

def readTransportParams (b : Build) (e : Rbuf) : HelloParse Rbuf := fun ch =>
  if b.quic then
    (.ok { e with rest := [] }, { ch with transportParams := some e.rest })
  else (.error unsupportedExtension, ch)

def srvReadExtension (b : Build) (offered : List Bytes) (type dataOff : Nat) (e : Rbuf) :
    HelloParse Rbuf :=
  if type = extServerName then readServerName e
  else if type = extSupportedGroups then readSupportedGroups b e
  else if type = extSignatureAlgorithms then readSignatureAlgorithms b e
  else if type = extAlpn then readAlpn offered e
  else if type = extRecordSizeLimit then readRecordSizeLimit e
  else if type = extPreSharedKey then readPreSharedKey dataOff e
  else if type = extSupportedVersions then readSupportedVersions e
  else if type = extCookie then readCookie e
  else if type = extPskModes then readPskModes e
  else if type = extKeyShare then readKeyShare b e
  else if type = extPadding then Proc.ret { e with rest := [] }
  else if type = extEarlyData then Proc.ret e
  else if type = extQuicTransportParams then readTransportParams b e
  else Proc.stop decodeError

/-! ### The message -/

/-- `type_before`, on the reader of the bytes before an extension. -/
def typeBefore (type : Nat) : Nat → Rbuf → Bool
  | 0, _ => false
  | fuel + 1, r =>
    if rbLeft r = 0 then false
    else match rbItem r with
      | (_, none, _) => false
      | (seen, some _, r) => if seen = type then true else typeBefore type fuel r

/-- The loop of `srv_ext_over_max` with `count` extensions read. -/
def extOverMaxFrom : Nat → Nat → Rbuf → Bool
  | 0, _, _ => false
  | fuel + 1, count, r =>
    if rbLeft r = 0 then false
    else match rbItem r with
      | (_, none, _) => false
      | (_, some _, r) =>
        if count + 1 > clientHelloExtMax then true else extOverMaxFrom fuel (count + 1) r

def srvExtOverMax (exts : Bytes) : Bool := extOverMaxFrom exts.length 0 (rbInit exts)

/-- The loop of `srv_ext_duplicate` with `before` bytes of the block read; each
turn scans those bytes again. -/
def extDuplicateFrom (exts : Bytes) : Nat → Nat → Rbuf → Bool
  | 0, _, _ => false
  | fuel + 1, before, r =>
    if rbLeft r = 0 then false
    else match rbItem r with
      | (_, none, _) => false
      | (type, some data, r) =>
        if typeBefore type before (rbInit (exts.take before)) then true
        else extDuplicateFrom exts fuel (before + (4 + data.length)) r

def srvExtDuplicate (exts : Bytes) : Bool := extDuplicateFrom exts exts.length 0 (rbInit exts)

def frozenCovers (type : Nat) : Bool :=
  type != extKeyShare && type != extEarlyData && type != extCookie && type != extPreSharedKey &&
    type != extPadding

/-- The test of `next_covered` on the extension it has just read. -/
def takesCovered (lowest : Nat) (found : Option Item) (item : Item) : Bool :=
  frozenCovers item.1 && (lowest ≤ item.1 && found.all fun least => decide (item.1 < least.1))

/-- The loop of `next_covered`, with what it has found so far. -/
def nextCoveredFrom (lowest : Nat) : Nat → Option Item → Rbuf → Option Item
  | 0, found, _ => found
  | fuel + 1, found, r =>
    if rbLeft r = 0 then found
    else match rbItem r with
      | (_, none, _) => none
      | (type, some data, r) =>
        nextCoveredFrom lowest fuel
          (if takesCovered lowest found (type, data) then some (type, data) else found) r

/-- The loop of `add_frozen_extensions` for at most `passes` passes, as the
updates of the digest; nothing when the last pass still found an extension. -/
def addFrozenExtensions (exts : Bytes) : Nat → Nat → Option (List Bytes)
  | 0, _ => none
  | passes + 1, lowest =>
    match nextCoveredFrom lowest exts.length none (rbInit exts) with
    | none => some []
    | some item => (addFrozenExtensions exts passes (item.1 + 1)).map fun updates =>
      item.encode :: updates

/-- `parse_extension` on the items of the block: what precedes the data of an
item is the running offset and four bytes. -/
def parseExtension (b : Build) (offered : List Bytes) (type : Nat) (data : Bytes) :
    Proc (Nat × ClientHello) Nat Unit := fun (off, ch) =>
  let next := off + 4 + data.length
  if ch.saw extPreSharedKey then (.error illegalParameter, (next, ch))
  else if !srvExtKnown type then (.ok (), (next, ch))
  else
    match srvReadExtension b offered type (off + 4) (rbInit data)
        { ch with seen := type :: ch.seen } with
    | (.error alert, ch) => (.error alert, (next, ch))
    | (.ok e, ch) =>
      if e.err || rbLeft e != 0 then (.error decodeError, (next, ch))
      else (.ok (), (next, ch))

def shortExtension : Proc (Nat × ClientHello) Nat Unit := fun (off, ch) =>
  (.error (if ch.saw extPreSharedKey then illegalParameter else decodeError), (off, ch))

def checkRequired (ch : ClientHello) : Option Nat :=
  if !ch.saw extSupportedVersions then some protocolVersion
  else if ch.saw extPreSharedKey && !ch.saw extPskModes then some illegalParameter
  else if !ch.saw extPreSharedKey &&
      !(ch.saw extSignatureAlgorithms && ch.saw extSupportedGroups) then
    some missingExtension
  else if ch.saw extSupportedGroups != ch.saw extKeyShare then some missingExtension
  else if ch.shares.any fun share => !ch.groups.contains share.1 then some illegalParameter
  else none

/-- `parse_head`: what it read and the reader behind it. -/
def parseHead (b : Build) (r : Rbuf) (ch : ClientHello) : Except Nat (ClientHello × Rbuf) :=
  let (_, r) := rbU16 r
  match rbBytes 32 r with
  | (none, _) => .error decodeError
  | (some random, r) =>
    let (sessionIdLen, r) := rbU8 r
    match rbBytes sessionIdLen r with
    | (none, _) => .error decodeError
    | (some sessionId, r) =>
      if sessionIdLen > 32 then .error decodeError
      else match srvOpenCodePointList r with
        | none => .error decodeError
        | some (suitesLen, r) =>
          let (suites, r) := rbCodes (suitesLen / 2) r
          let (compressionLen, r) := rbU8 r
          match rbBytes compressionLen r with
          | (none, _) => .error decodeError
          | (some compression, r) =>
            if compression ≠ [0] then .error illegalParameter
            else .ok ({ ch with
              random := random
              sessionId := sessionId
              suites := suites.filter (srvSuiteKnown b) }, r)

/-- The block of extensions, after its length, and the hash of what a second
hello must repeat; `head` is what stands before the block's length. -/
def parseExtensions (c : Crypto) (b : Build) (offered : List Bytes) (head : Bytes) (r : Rbuf)
    (ch : ClientHello) : Except Nat ClientHello :=
  if srvExtOverMax r.rest || srvExtDuplicate r.rest then .error illegalParameter
  else
    match rbForItems shortExtension (parseExtension b offered) (rbLeft r) r
        (head.length + 2, ch) with
    | (.error alert, _) => .error alert
    | (.ok _, (_, ch)) =>
      -- Each pass adds one extension, so the bytes of the block bound the passes.
      let updates := (addFrozenExtensions r.rest (r.rest.length + 1) 0).getD []
      let frozen := c.hash sha256Len (head ++ updates.flatten)
      match checkRequired { ch with frozen := frozen } with
      | some alert => .error alert
      | none => .ok { ch with frozen := frozen }

def srvParseClientHello (c : Crypto) (b : Build) (body : Bytes) (offered : List Bytes) :
    Except Nat ClientHello :=
  match parseHead b (rbInit body) ClientHello.zero with
  | .error alert => .error alert
  | .ok (ch, r) =>
    if rbLeft r = 0 then .error protocolVersion
    else
      let head := body.take (body.length - rbLeft r)
      let (extsLen, r) := rbU16 r
      if r.err || extsLen != rbLeft r then .error decodeError
      else parseExtensions c b offered head r ch

end Chapulin
