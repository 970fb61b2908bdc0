/-
The Retry token (`quic_token.c`): mint and check.

A token carries its type, the instant of its issue and two connection IDs, and ends in a
tag over them, the version and the client's address.  The two calls keep no state, so
what a check may rely on is the tag alone: the last part says which byte strings a check
accepts when no tag was made but by a mint.
-/

import Mathlib.Data.List.Forall2
import Chapulin.Lib.Der
import Chapulin.Quic.Session

namespace Chapulin

open Lib Lib.Der List

variable {address token : Bytes} {n version : Nat} {next r : Rbuf}
  {issued seconds : UInt64}

/-- `token_label`, the ASCII bytes "chapulin quic token". -/
def tokenLabel : Bytes :=
  [0x63,0x68,0x61,0x70,0x75,0x6c,0x69,0x6e,0x20,0x71,0x75,0x69,0x63,0x20,0x74,0x6f,0x6b,0x65,0x6e]

def tokenAddressMax : Nat := 18

def tokenTypeRetry : Nat := 0x01

def tokenFixed : Nat := 1 + 8 + 1 + 1 + sha256Len

def tokenMax : Nat := 1 + 8 + 1 + quicDcidMax + 1 + quicDcidMax + sha256Len

def tokenTagInputMax : Nat := tokenLabel.length + 4 + 1 + tokenAddressMax + tokenMax - sha256Len

/-- `ch_quic_retry_cids`; each is the bytes of its array that its length counts. -/
structure RetryCids where
  originalDcid : Bytes
  retryScid : Bytes
  deriving DecidableEq, Repr

variable {cids : RetryCids}

def tokenArgumentsOk (version addressLen : Nat) : Bool :=
  decide (addressLen > 0) && decide (addressLen ≤ tokenAddressMax) && quicVersionDerived version

/-- The shifts of the loop of `write_instant`. -/
def instantShifts : List UInt64 := [56,48,40,32,24,16,8,0]

def writeInstant (seconds : UInt64) : Writer :=
  wbAll (instantShifts.map fun shift => wbU8 (seconds >>> shift).toNat)

def readInstantLoop : Nat → UInt64 → Rbuf → UInt64 × Rbuf
  | 0, seconds, r => (seconds, r)
  | n + 1, seconds, r =>
    let (octet, r) := rbU8 r
    readInstantLoop n ((seconds <<< 8) ||| UInt64.ofNat octet) r

def readInstant (r : Rbuf) : UInt64 × Rbuf := readInstantLoop 8 0 r

section Calls

variable (c : Crypto)

/-- `token_tag`; a writer that refused a byte stops the program. -/
def tokenTag (key : Bytes) (version : Nat) (address body : Bytes) : Except Rc Bytes :=
  let w := wbAll [wbBytes tokenLabel,wbU16 (version / 65536),wbU16 version,wbU8 address.length,
    wbBytes address,wbBytes body] (wbInit tokenTagInputMax)
  if w.err then .error .assertFail else .ok (fitTo sha256Len (c.hmac sha256Len key w.out))

/-- `ch_srv_quic_token_mint` into `cap` bytes. -/
def srvQuicTokenMint (key : Bytes) (version : Nat) (address : Bytes) (cids : RetryCids)
    (issuedSeconds : UInt64) (cap : Nat) : Except Rc Bytes :=
  if !tokenArgumentsOk version address.length || decide (cids.originalDcid.length > quicDcidMax) ||
      decide (cids.retryScid.length > quicDcidMax) then .error .einval
  else
    let total := tokenFixed + cids.originalDcid.length + cids.retryScid.length
    if cap < total then .error .ecap
    else
      let w := wbAll [wbU8 tokenTypeRetry,writeInstant issuedSeconds,wbU8 cids.originalDcid.length,
        wbBytes cids.originalDcid,wbU8 cids.retryScid.length,wbBytes cids.retryScid] (wbInit cap)
      match tokenTag c key version address w.out with
      | .error rc => .error rc
      | .ok tag =>
        let w := wbBytes tag w
        if w.err || decide (w.out.length ≠ total) then .error .assertFail else .ok w.out

def srvQuicTokenCheck (key : Bytes) (version : Nat) (token address : Bytes)
    (nowSeconds lifetimeSeconds : UInt64) : Except Rc RetryCids :=
  if !tokenArgumentsOk version address.length then .error .einval
  else
    let (type, r) := rbU8 (rbInit token)
    if r.err || decide (type ≠ tokenTypeRetry) then .error .eproto
    else
      let (issuedSeconds, r) := readInstant r
      let (originalDcidLen, r) := rbU8 r
      let (originalDcid, r) := rbBytes originalDcidLen r
      let (retryScidLen, r) := rbU8 r
      let (retryScid, r) := rbBytes retryScidLen r
      let (tag, r) := rbBytes sha256Len r
      if r.err || decide (rbLeft r ≠ 0) || decide (originalDcidLen > quicDcidMax) ||
          decide (retryScidLen > quicDcidMax) then .error .eauth
      else
        match tokenTag c key version address (token.take (token.length - sha256Len)) with
        | .error rc => .error rc
        | .ok want =>
          if tag ≠ some want then .error .eauth
          else if nowSeconds < issuedSeconds ∨ nowSeconds - issuedSeconds > lifetimeSeconds then
            .error .eauth
          else .ok ⟨originalDcid.getD [],retryScid.getD []⟩

end Calls

/-! ### The bytes of a token -/

def tokenInput (version : Nat) (address body : Bytes) : Bytes :=
  tokenLabel ++ (be32 version ++ (byte address.length :: (address ++ body)))

def tokenBody (cids : RetryCids) (issued : UInt64) : Bytes :=
  byte tokenTypeRetry :: (be64 issued.toNat ++ (byte cids.originalDcid.length ::
    (cids.originalDcid ++ (byte cids.retryScid.length :: cids.retryScid))))

def RetryCids.Fits (cids : RetryCids) : Prop :=
  cids.originalDcid.length ≤ quicDcidMax ∧ cids.retryScid.length ≤ quicDcidMax

structure TokenArguments (version : Nat) (address : Bytes) : Prop where
  bound : 0 < address.length ∧ address.length ≤ tokenAddressMax
  derived : version = quicVersion1 ∨ version = quicVersion2

theorem tokenArgumentsOk_iff :
    tokenArgumentsOk version address.length = true ↔ TokenArguments version address := by
  simp only [tokenArgumentsOk,quicVersionDerived,Bool.and_eq_true,Bool.or_eq_true,beq_iff_eq,
    decide_eq_true_eq]
  exact ⟨fun ok => ⟨ok.1,ok.2⟩,fun ok => ⟨ok.bound,ok.derived⟩⟩

theorem writes_instant (seconds : UInt64) : Writes (writeInstant seconds) (be64 seconds.toNat) := by
  have each : List.Forall₂ Writes (instantShifts.map fun shift => wbU8 (seconds >>> shift).toNat)
      (instantShifts.map fun shift => [byte (seconds >>> shift).toNat]) := by
    rw [List.forall₂_map_left_iff,List.forall₂_map_right_iff,List.forall₂_same]
    exact fun shift _ => writes_u8 _
  have octets : (instantShifts.map fun shift => [byte (seconds >>> shift).toNat]).flatten =
      be64 seconds.toNat := by
    simp [instantShifts,UInt64.toNat_shiftRight,Nat.shiftRight_eq_div_pow,be64,be32,be16,
      Nat.div_div_eq_div_mul]
  rw [← octets]
  exact writes_all each

theorem instant_round (room : seconds.toNat < 2 ^ 56) (octet : UInt8) :
    ((seconds <<< 8) ||| UInt64.ofNat octet.toNat).toNat = seconds.toNat * 256 + octet.toNat := by
  have small : octet.toNat < 2 ^ 8 := octet.toNat_lt
  have shifted : (seconds <<< 8).toNat = seconds.toNat <<< 8 := by
    rw [UInt64.toNat_shiftLeft,Nat.mod_eq_of_lt]
    · rfl
    · rw [Nat.shiftLeft_eq]
      change seconds.toNat * 2 ^ 8 < 2 ^ 64
      omega
  have same : (UInt64.ofNat octet.toNat).toNat = octet.toNat := by
    rw [UInt64.toNat_ofNat']
    exact Nat.mod_eq_of_lt (by omega)
  rw [UInt64.toNat_or,shifted,same,← Nat.shiftLeft_add_eq_or_of_lt small,Nat.shiftLeft_eq]

theorem readInstantLoop_eq {n : Nat} {seconds : UInt64} {octets rest : Bytes}
    (length : octets.length = n) (few : n ≤ 8) (room : seconds.toNat < 256 ^ (8 - n)) :
    ∃ value : UInt64, readInstantLoop n seconds ⟨octets ++ rest,false⟩ = (value, ⟨rest,false⟩) ∧
      value.toNat = seconds.toNat * 256 ^ n + ofBytes octets := by
  induction n generalizing seconds octets with
  | zero =>
    cases length_eq_zero_iff.mp length
    exact ⟨seconds,rfl,by simp [ofBytes]⟩
  | succ n ih =>
    obtain ⟨octet,octets,rfl⟩ := exists_cons_of_length_eq_add_one length
    rw [length_cons] at length
    have small := octet.toNat_lt
    have places : 256 ^ (8 - n) = 256 ^ (8 - (n + 1)) * 256 := by
      rw [← Nat.pow_succ]
      congr 1
      omega
    have narrow : 256 ^ (8 - (n + 1)) ≤ 256 ^ 7 := Nat.pow_le_pow_right (by decide) (by omega)
    have added := instant_round (Nat.lt_of_lt_of_le room narrow) octet
    obtain ⟨value,read,same⟩ := @ih _ octets (by omega) (by omega) (by rw [added]; omega)
    refine ⟨value,read,?_⟩
    rw [same,added,ofBytes_cons,Nat.pow_succ,show octets.length = n by omega]
    ring

theorem ofBytes_be64 (n : Nat) (bounded : n < 2 ^ 64) : ofBytes (be64 n) = n := by
  simp only [be64,be32,be16,cons_append,nil_append,ofBytes,foldl_cons,foldl_nil,byte_toNat]
  omega

theorem be64_ofBytes {octets : Bytes} (length : octets.length = 8) :
    be64 (ofBytes octets) = octets := by
  have below := ofBytes_lt octets
  rw [length] at below
  exact ofBytes_inj length.symm (ofBytes_be64 _ below)

theorem readInstant_be64 (seconds : UInt64) (rest : Bytes) :
    readInstant ⟨be64 seconds.toNat ++ rest,false⟩ = (seconds, ⟨rest,false⟩) := by
  obtain ⟨value,read,same⟩ := @readInstantLoop_eq 8 0 (be64 seconds.toNat) rest rfl (Nat.le_refl 8)
    (by decide)
  rw [ofBytes_be64 _ seconds.toNat_lt,UInt64.toNat_zero,Nat.zero_mul,Nat.zero_add] at same
  rw [readInstant,read,UInt64.toNat_inj.mp same]

theorem readInstantLoop_inv (live : (readInstantLoop n seconds r).2.err = false) :
    ∃ octets rest, octets.length = n ∧ r = ⟨octets ++ rest,false⟩ := by
  induction n generalizing seconds r with
  | zero =>
    rcases r with ⟨rest,err⟩
    cases live
    exact ⟨[],rest,rfl,rfl⟩
  | succ n ih =>
    obtain ⟨octets,rest,length,same⟩ := ih live
    have behind : (rbU8 r).2 = ⟨octets ++ rest,false⟩ := same
    obtain ⟨octet,tail,rfl,read⟩ := rbU8_inv (congrArg Rbuf.err behind)
    rw [read] at behind
    cases behind
    exact ⟨octet :: octets,rest,by rw [length_cons,length],rfl⟩

theorem readInstant_inv (read : readInstant r = (seconds, next))
    (live : next.err = false) : r = ⟨be64 seconds.toNat ++ next.rest,false⟩ := by
  have nextLive : (readInstantLoop 8 0 r).2.err = false := by
    change (readInstant r).2.err = false
    rw [read]
    exact live
  obtain ⟨octets,rest,length,rfl⟩ := readInstantLoop_inv nextLive
  obtain ⟨value,loop,same⟩ := @readInstantLoop_eq 8 0 octets rest length (Nat.le_refl 8) (by decide)
  rw [readInstant,loop] at read
  cases read
  rw [UInt64.toNat_zero,Nat.zero_mul,Nat.zero_add] at same
  rw [same,be64_ofBytes length]

theorem rbU8_eq (read : rbU8 r = (n, next)) (live : next.err = false) :
    n < 256 ∧ r = ⟨byte n :: next.rest,false⟩ := by
  have nextLive : (rbU8 r).2.err = false := by
    rw [read]
    exact live
  obtain ⟨octet,rest,rfl,spelled⟩ := rbU8_inv nextLive
  rw [spelled] at read
  cases read
  exact ⟨octet.toNat_lt,by rw [byte_of_toNat]⟩

theorem rbBytes_eq {taken : Option Bytes} (read : rbBytes n r = (taken, next))
    (live : next.err = false) :
    ∃ bytes : Bytes, taken = some bytes ∧ bytes.length = n ∧ r = ⟨bytes ++ next.rest,false⟩ := by
  cases taken with
  | none =>
    unfold rbBytes at read
    split at read
    · cases read
      cases live
    · cases read
  | some bytes =>
    obtain ⟨same,-,length⟩ := rbBytes_eq_some read
    exact ⟨bytes,rfl,length,same⟩

section Calls

variable (c : Crypto)

def tagOf (key : Bytes) (version : Nat) (address body : Bytes) : Bytes :=
  fitTo sha256Len (c.hmac sha256Len key (tokenInput version address body))

def mintedToken (key : Bytes) (version : Nat) (address : Bytes) (cids : RetryCids)
    (issued : UInt64) : Bytes :=
  tokenBody cids issued ++ tagOf c key version address (tokenBody cids issued)

theorem tokenTag_eq {key : Bytes} {version : Nat} {address body : Bytes}
    (bound : address.length ≤ tokenAddressMax) (short : body.length ≤ tokenMax - sha256Len) :
    tokenTag c key version address body = .ok (tagOf c key version address body) := by
  have writes : Writes (wbAll [wbBytes tokenLabel,wbU16 (version / 65536),wbU16 version,
      wbU8 address.length,wbBytes address,wbBytes body]) (tokenInput version address body) := by
    have each := writes_all (.cons (writes_bytes tokenLabel) (.cons (writes_u16 (version / 65536))
      (.cons (writes_u16 version) (.cons (writes_u8 address.length) (.cons (writes_bytes address)
        (.cons (writes_bytes body) .nil))))))
    have joined : [tokenLabel,be16 (version / 65536),be16 version,[byte address.length],address,
        body].flatten = tokenInput version address body := by
      simp [tokenInput,be32]
    rw [← joined]
    exact each
  have fits : (tokenInput version address body).length ≤ tokenTagInputMax := by
    simp only [tokenInput,tokenTagInputMax,length_append,length_cons,be32_length]
    simp only [tokenAddressMax,tokenMax,sha256Len,quicDcidMax] at bound short ⊢
    omega
  rw [tokenTag,writes.fits (wbInit tokenTagInputMax) rfl (by simpa [wbInit] using fits)]
  rfl

theorem tokenBody_length (cids : RetryCids) (issued : UInt64) :
    (tokenBody cids issued).length = 11 + cids.originalDcid.length + cids.retryScid.length := by
  simp only [tokenBody,length_cons,length_append,be64_length]
  omega

theorem tokenBody_fits {cids : RetryCids} (fits : cids.Fits) (issued : UInt64) :
    (tokenBody cids issued).length ≤ tokenMax - sha256Len := by
  have original := fits.1
  have retry := fits.2
  rw [tokenBody_length]
  simp only [quicDcidMax] at original retry
  simp only [tokenMax,sha256Len,quicDcidMax]
  omega

theorem writes_tokenBody (cids : RetryCids) (issued : UInt64) :
    Writes (wbAll [wbU8 tokenTypeRetry,writeInstant issued,wbU8 cids.originalDcid.length,
      wbBytes cids.originalDcid,wbU8 cids.retryScid.length,wbBytes cids.retryScid])
      (tokenBody cids issued) := by
  have each := writes_all (.cons (writes_u8 tokenTypeRetry) (.cons (writes_instant issued)
    (.cons (writes_u8 cids.originalDcid.length) (.cons (writes_bytes cids.originalDcid)
      (.cons (writes_u8 cids.retryScid.length) (.cons (writes_bytes cids.retryScid) .nil))))))
  have joined : [[byte tokenTypeRetry],be64 issued.toNat,[byte cids.originalDcid.length],
      cids.originalDcid,[byte cids.retryScid.length],cids.retryScid].flatten =
        tokenBody cids issued := by
    simp [tokenBody]
  rw [← joined]
  exact each

theorem tagOf_length (key : Bytes) (version : Nat) (address body : Bytes) :
    (tagOf c key version address body).length = sha256Len := fitTo_length ..

/-- A token is minted exactly when its arguments are valid and it fits. -/
theorem srvQuicTokenMint_eq_ok {key : Bytes} {cap : Nat} :
    srvQuicTokenMint c key version address cids issued cap = .ok token ↔
      TokenArguments version address ∧ cids.Fits ∧
        tokenFixed + cids.originalDcid.length + cids.retryScid.length ≤ cap ∧
        token = mintedToken c key version address cids issued := by
  unfold srvQuicTokenMint
  have admits : ¬ (!tokenArgumentsOk version address.length ||
      decide (cids.originalDcid.length > quicDcidMax) ||
      decide (cids.retryScid.length > quicDcidMax)) = true ↔
        TokenArguments version address ∧ cids.Fits := by
    simp [← tokenArgumentsOk_iff,RetryCids.Fits,and_assoc]
  split
  · rename_i refused
    exact ⟨nofun,fun minted => absurd refused (admits.mpr ⟨minted.1,minted.2.1⟩)⟩
  rename_i admitted
  obtain ⟨arguments,cidsFit⟩ := admits.mp admitted
  have tagLength := tagOf_length c key version address (tokenBody cids issued)
  have length := tokenBody_length cids issued
  by_cases room : cap < tokenFixed + cids.originalDcid.length + cids.retryScid.length
  · rw [if_pos room]
    exact ⟨nofun,fun minted => absurd minted.2.2.1 (Nat.not_le.mpr room)⟩
  rw [if_neg room]
  simp only [tokenFixed,sha256Len] at room tagLength ⊢
  have written := (writes_tokenBody cids issued).fits (wbInit cap) rfl (by
    simp only [wbInit,length_nil]
    omega)
  have tagged := (writes_bytes (tagOf c key version address (tokenBody cids issued))).fits
    ⟨tokenBody cids issued,cap,false⟩ rfl (by dsimp only; omega)
  have total : (tokenBody cids issued ++
      tagOf c key version address (tokenBody cids issued)).length =
      1 + 8 + 1 + 1 + 32 + cids.originalDcid.length + cids.retryScid.length := by
    rw [length_append]
    omega
  simp only [wbInit,nil_append] at written
  simp only [wbInit,written,tokenTag_eq c arguments.bound.2 (tokenBody_fits cidsFit issued),tagged,
    total,ne_eq,not_true,decide_false,Bool.or_self,Bool.false_eq_true,if_false,Except.ok.injEq]
  constructor
  · rintro rfl
    exact ⟨arguments,cidsFit,Nat.le_of_not_lt room,rfl⟩
  · rintro ⟨-,-,-,rfl⟩
    rfl

theorem window_iff {now lifetime : UInt64} :
    ¬ (now < issued ∨ now - issued > lifetime) ↔
      issued.toNat ≤ now.toNat ∧ now.toNat ≤ issued.toNat + lifetime.toNat := by
  rw [not_or,UInt64.not_lt,UInt64.le_iff_toNat_le]
  refine and_congr_right fun started => ?_
  rw [gt_iff_lt,UInt64.not_lt,UInt64.le_iff_toNat_le,UInt64.toNat_sub_of_le _ _ started]
  omega

theorem take_tagged {body tag : Bytes} (length : tag.length = sha256Len) :
    (body ++ tag).take ((body ++ tag).length - sha256Len) = body := by
  rw [length_append,length,Nat.add_sub_cancel,take_left]

/-- A check accepts exactly the tokens a mint writes for its key, version and address,
in the window after their issue. -/
theorem srvQuicTokenCheck_eq_ok {key : Bytes} {now lifetime : UInt64} :
    srvQuicTokenCheck c key version token address now lifetime = .ok cids ↔
      TokenArguments version address ∧ cids.Fits ∧ ∃ issued : UInt64,
        token = mintedToken c key version address cids issued ∧
        issued.toNat ≤ now.toNat ∧ now.toNat ≤ issued.toNat + lifetime.toNat := by
  unfold srvQuicTokenCheck
  constructor
  · intro accepted
    split at accepted
    · cases accepted
    rename_i ok
    have arguments : TokenArguments version address :=
      tokenArgumentsOk_iff.mp (by simpa using ok)
    rcases typeRead : rbU8 (rbInit token) with ⟨type,r0⟩
    rcases instantRead : readInstant r0 with ⟨issued,r1⟩
    rcases lenRead : rbU8 r1 with ⟨dcidLen,r2⟩
    rcases dcidRead : rbBytes dcidLen r2 with ⟨dcid,r3⟩
    rcases scidLenRead : rbU8 r3 with ⟨scidLen,r4⟩
    rcases scidRead : rbBytes scidLen r4 with ⟨scid,r5⟩
    rcases tagRead : rbBytes sha256Len r5 with ⟨tag,r6⟩
    simp only [typeRead,instantRead,lenRead,dcidRead,scidLenRead,scidRead,tagRead] at accepted
    split at accepted
    · cases accepted
    rename_i typed
    split at accepted
    · cases accepted
    rename_i filled
    simp only [Bool.or_eq_true,decide_eq_true_eq,not_or,not_not,Nat.not_lt,Bool.not_eq_true]
      at typed filled
    obtain ⟨⟨⟨live,empty⟩,dcidShort⟩,scidShort⟩ := filled
    -- the last read did not fail, so each one before it did not
    obtain ⟨tag,rfl,tagLength,rfl⟩ := rbBytes_eq tagRead live
    obtain ⟨scid,rfl,rfl,rfl⟩ := rbBytes_eq scidRead rfl
    obtain ⟨-,rfl⟩ := rbU8_eq scidLenRead rfl
    obtain ⟨dcid,rfl,rfl,rfl⟩ := rbBytes_eq dcidRead rfl
    obtain ⟨-,rfl⟩ := rbU8_eq lenRead rfl
    have instantBytes := readInstant_inv instantRead rfl
    subst instantBytes
    obtain ⟨-,typeBytes⟩ := rbU8_eq typeRead rfl
    rcases r6 with ⟨rest,err⟩
    cases live
    have noRest : rest = [] := length_eq_zero_iff.mp empty
    subst noRest
    have spelled : token = tokenBody ⟨dcid,scid⟩ issued ++ tag := by
      have bytes := congrArg Rbuf.rest typeBytes
      simp only [rbInit_rest,typed.2,append_nil] at bytes
      simp [bytes,tokenBody]
    subst spelled
    have bodyFits := @tokenBody_fits ⟨dcid,scid⟩ ⟨dcidShort,scidShort⟩ issued
    rw [take_tagged tagLength,tokenTag_eq c arguments.bound.2 bodyFits] at accepted
    dsimp only at accepted
    split at accepted
    · cases accepted
    rename_i verified
    split at accepted
    · cases accepted
    rename_i window
    cases accepted
    have same : tag = tagOf c key version address (tokenBody ⟨dcid,scid⟩ issued) :=
      Option.some.inj (not_not.mp verified)
    exact ⟨arguments,⟨dcidShort,scidShort⟩,issued,by rw [same]; rfl,window_iff.mp window⟩
  · rintro ⟨arguments,⟨dcidShort,scidShort⟩,issued,rfl,window⟩
    rcases cids with ⟨dcid,scid⟩
    dsimp only at dcidShort scidShort
    have bodyFits := @tokenBody_fits ⟨dcid,scid⟩ ⟨dcidShort,scidShort⟩ issued
    have tagged := @tokenTag_eq c key version address _ arguments.bound.2 bodyFits
    have tagLength := tagOf_length c key version address (tokenBody ⟨dcid,scid⟩ issued)
    rw [mintedToken]
    generalize tagOf c key version address (tokenBody ⟨dcid,scid⟩ issued) = tag
      at tagged tagLength ⊢
    have typeRead : rbU8 (rbInit (tokenBody ⟨dcid,scid⟩ issued ++ tag)) =
        (tokenTypeRetry, ⟨be64 issued.toNat ++ (byte dcid.length :: (dcid ++ (byte scid.length ::
          (scid ++ tag)))),false⟩) := by
      simp only [tokenBody,rbInit,cons_append,append_assoc]
      rfl
    have octet : ∀ n rest, n ≤ quicDcidMax → rbU8 ⟨byte n :: rest,false⟩ = (n, ⟨rest,false⟩) := by
      intro n rest short
      simp only [quicDcidMax] at short
      rw [rbU8_cons,byte_toNat,Nat.mod_eq_of_lt (by omega)]
    have tagRead : rbBytes sha256Len ⟨tag,false⟩ = (some tag, ⟨[],false⟩) := by
      have whole := rbBytes_append tag []
      rw [append_nil,tagLength] at whole
      exact whole
    have ok := tokenArgumentsOk_iff.mpr arguments
    simp only [ok,Bool.not_true,Bool.false_eq_true,if_false,typeRead,readInstant_be64,
      octet _ _ dcidShort,octet _ _ scidShort,rbBytes_append,tagRead,take_tagged tagLength,tagged,
      rbLeft_live,length_nil,ne_eq,not_true,decide_false,Bool.or_self,Nat.not_lt.mpr dcidShort,
      Nat.not_lt.mpr scidShort,gt_iff_lt,Option.getD_some]
    rw [if_neg (window_iff.mpr window)]

end Calls

/-! ### What a tag binds -/

theorem be32_inj {first second : Nat} (firstFits : first < 2 ^ 32) (secondFits : second < 2 ^ 32)
    (same : be32 first = be32 second) : first = second := by
  have back : ∀ n, n < 2 ^ 32 → ofBytes (be32 n) = n := by
    intro n bounded
    simp only [be32,be16,cons_append,nil_append,ofBytes,foldl_cons,foldl_nil,byte_toNat]
    omega
  rw [← back first firstFits,← back second secondFits,same]

theorem be64_inj {first second : UInt64} (same : be64 first.toNat = be64 second.toNat) :
    first = second := by
  apply UInt64.toNat_inj.mp
  rw [← ofBytes_be64 _ first.toNat_lt,← ofBytes_be64 _ second.toNat_lt,same]

theorem TokenArguments.versionFits
    (arguments : TokenArguments version address) : version < 2 ^ 32 := by
  rcases arguments.derived with rfl | rfl <;> decide

theorem TokenArguments.addressFits
    (arguments : TokenArguments version address) : address.length < 256 := by
  have bound := arguments.bound.2
  simp only [tokenAddressMax] at bound
  omega

theorem tokenInput_inj {other : Nat} {elsewhere body behind : Bytes}
    (arguments : TokenArguments version address) (others : TokenArguments other elsewhere)
    (same : tokenInput version address body = tokenInput other elsewhere behind) :
    version = other ∧ address = elsewhere ∧ body = behind := by
  obtain ⟨versions,rest⟩ := append_inj (append_cancel_left same) rfl
  obtain ⟨addresses,bodies⟩ := counted_inj arguments.addressFits others.addressFits rest
  exact ⟨be32_inj arguments.versionFits others.versionFits versions,addresses,bodies⟩

theorem tokenBody_inj {others : RetryCids} {later : UInt64} (fits : cids.Fits)
    (othersFit : others.Fits) (same : tokenBody cids issued = tokenBody others later) :
    cids = others ∧ issued = later := by
  rcases cids with ⟨dcid,scid⟩
  rcases others with ⟨otherDcid,otherScid⟩
  simp only [RetryCids.Fits,quicDcidMax] at fits othersFit
  obtain ⟨instants,rest⟩ := append_inj (List.cons.inj same).2 rfl
  dsimp only at rest
  obtain ⟨rfl,behind⟩ := counted_inj (by omega) (by omega) rest
  have ends : byte scid.length :: (scid ++ []) = byte otherScid.length :: (otherScid ++ []) := by
    rw [append_nil,append_nil]
    exact behind
  obtain ⟨rfl,-⟩ := counted_inj (by omega) (by omega) ends
  exact ⟨rfl,be64_inj instants⟩

structure MintCall where
  key : Bytes
  version : Nat
  address : Bytes
  cids : RetryCids
  issued : UInt64
  cap : Nat

section Unforged

variable (c : Crypto)

def MintCall.result (call : MintCall) : Except Rc Bytes :=
  srvQuicTokenMint c call.key call.version call.address call.cids call.issued call.cap

/-- The presented string was not forged: if it ends in the tag of what stands before it,
then a mint under this key has computed the tag of that input. -/
def Unforged (mints : List MintCall) (key : Bytes) (version : Nat) (address token : Bytes) : Prop :=
  ∀ body, token = body ++ tagOf c key version address body →
    ∃ call ∈ mints, call.key = key ∧ (∃ minted, call.result c = .ok minted) ∧
      tokenInput call.version call.address (tokenBody call.cids call.issued) =
        tokenInput version address body

theorem unforged_of_minted {mints : List MintCall} {call : MintCall}
    (among : call ∈ mints) (minted : call.result c = .ok token) :
    Unforged c mints call.key call.version call.address token := by
  intro body spelled
  obtain ⟨-,-,-,same⟩ := (srvQuicTokenMint_eq_ok c).mp minted
  refine ⟨call,among,rfl,⟨token,minted⟩,?_⟩
  rw [same,mintedToken] at spelled
  have tags : ∀ body, (tagOf c call.key call.version call.address body).length = sha256Len :=
    fun body => fitTo_length ..
  rw [(append_inj' spelled ((tags _).trans (tags _).symm)).1]

/-- Where the tag is unforgeable, a check accepts exactly what was minted under its key for
its version and address, from the issue to the end of the lifetime, and hands out the IDs
that were minted.  The input of a tag determines every field. -/
theorem quicToken_exact (mints : List MintCall) (key : Bytes) (version : Nat)
    (token address : Bytes)
    (now lifetime : UInt64) (unforged : Unforged c mints key version address token) :
    (∀ cids, srvQuicTokenCheck c key version token address now lifetime = .ok cids ↔
      ∃ call ∈ mints, call.key = key ∧ call.version = version ∧ call.address = address ∧
        call.cids = cids ∧ call.result c = .ok token ∧ call.issued.toNat ≤ now.toNat ∧
        now.toNat ≤ call.issued.toNat + lifetime.toNat) ∧
    (∀ first second : MintCall, (∃ minted, first.result c = .ok minted) →
      (∃ minted, second.result c = .ok minted) →
      tokenInput first.version first.address (tokenBody first.cids first.issued) =
        tokenInput second.version second.address (tokenBody second.cids second.issued) →
      first.version = second.version ∧ first.address = second.address ∧ first.cids = second.cids ∧
        first.issued = second.issued) := by
  refine ⟨fun cids => ?_,?_⟩
  · rw [srvQuicTokenCheck_eq_ok]
    constructor
    · rintro ⟨arguments,fits,issued,spelled,window⟩
      obtain ⟨call,among,rfl,⟨minted,ok⟩,input⟩ := unforged _ spelled
      obtain ⟨callArguments,callFits,room,written⟩ := (srvQuicTokenMint_eq_ok c).mp ok
      obtain ⟨rfl,rfl,body⟩ := tokenInput_inj callArguments arguments input
      obtain ⟨rfl,rfl⟩ := tokenBody_inj callFits fits body
      rw [spelled,← written]
      exact ⟨call,among,rfl,rfl,rfl,rfl,ok,window⟩
    · rintro ⟨call,-,rfl,rfl,rfl,rfl,ok,window⟩
      obtain ⟨arguments,fits,-,written⟩ := (srvQuicTokenMint_eq_ok c).mp ok
      exact ⟨arguments,fits,call.issued,written,window⟩
  · rintro first second ⟨_,firstOk⟩ ⟨_,secondOk⟩ same
    obtain ⟨arguments,fits,-⟩ := (srvQuicTokenMint_eq_ok c).mp firstOk
    obtain ⟨others,othersFit,-⟩ := (srvQuicTokenMint_eq_ok c).mp secondOk
    obtain ⟨versions,addresses,bodies⟩ := tokenInput_inj arguments others same
    obtain ⟨cids,instants⟩ := tokenBody_inj fits othersFit bodies
    exact ⟨versions,addresses,cids,instants⟩

def sampleMint : MintCall where
  key := zeros 32
  version := quicVersion2
  address := [10,0,0,1]
  cids := ⟨[1,2,3],[]⟩
  issued := 100
  cap := tokenMax

/-- The token of `sampleMint` seven seconds after its issue. -/
theorem quicToken_exact_sample :
    ∃ token, sampleMint.result Crypto.sample = .ok token ∧
      srvQuicTokenCheck Crypto.sample (zeros 32) quicVersion2 token [10,0,0,1] 107 10 =
        .ok ⟨[1,2,3],[]⟩ := by
  have minted : sampleMint.result Crypto.sample = .ok (mintedToken Crypto.sample sampleMint.key
      sampleMint.version sampleMint.address sampleMint.cids sampleMint.issued) := by
    decide +kernel
  have among : sampleMint ∈ [sampleMint] := mem_singleton.mpr rfl
  have spec := quicToken_exact Crypto.sample [sampleMint] _ _ _ _ 107 10
    (unforged_of_minted Crypto.sample among minted)
  exact ⟨_,minted,(spec.1 _).mpr
    ⟨sampleMint,among,rfl,rfl,rfl,rfl,minted,by decide,by decide⟩⟩

end Unforged

end Chapulin
