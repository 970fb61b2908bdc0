/-
Which ServerHello and HelloRetryRequest messages the client takes
(`hsp_parse_server_hello`), and what its handlers admit of them
(`hsf_read_server_hello`, `hsf_accept_server_hello`).

The two messages share one syntax and one reader; the random value says which of
them a message is, and each extension is judged by that.
-/

import Chapulin.Lib.Format
import Chapulin.Lib.Once
import Chapulin.Flight
import Mathlib.Data.List.Nodup

namespace Chapulin

open Lib Proc List

/-! ### The grammar -/

inductive ShExt
  | supportedVersions (version : Nat)
  | keyShare (group : Nat) (share : Bytes)
  | retryShare (group : Nat)
  | preSharedKey (identity : Nat)
  | cookie (value : Bytes)
  deriving DecidableEq

def groupShareLen (group : Nat) : Nat :=
  if group = groupX25519 then 32
  else if group = groupSecp256r1 then 65
  else if group = groupX25519Mlkem768 then 1120
  else 1568

def shareGroups (b : Build) : List Nat :=
  if b.twoGroups then [groupX25519Mlkem768,groupX25519,groupSecp256r1] else [kexGroup b]

namespace ShExt

def type : ShExt → Nat
  | supportedVersions _ => extSupportedVersions
  | keyShare _ _ => extKeyShare
  | retryShare _ => extKeyShare
  | preSharedKey _ => extPreSharedKey
  | cookie _ => extCookie

def data : ShExt → Bytes
  | supportedVersions version => be16 version
  | keyShare group share => be16 group ++ (Format.vector16 0).encode share
  | retryShare group => be16 group
  | preSharedKey identity => be16 identity
  | cookie value => (Format.vector16 0).encode value

def item (ext : ShExt) : Item := (ext.type, ext.data)

/-- The extension may stand in the message: `hrr` says that it is a retry, `psk`
that the client offered a key.  The grammar's least cookie is of one byte, the
reader's of none. -/
def Allowed (b : Build) (least : Nat) (hrr psk : Bool) : ShExt → Prop
  | supportedVersions version => version < 65536
  | keyShare group share =>
    hrr = false ∧ group ∈ shareGroups b ∧ share.length = groupShareLen group
  | retryShare group => hrr = true ∧ b.twoGroups = true ∧ group = groupSecp256r1
  | preSharedKey identity => hrr = false ∧ psk = true ∧ identity < 65536
  | cookie value => hrr = true ∧ least ≤ value.length ∧ value.length ≤ cookieMax b

def storeShare (b : Build) (group : Nat) (share : Bytes) (info : ServerHelloInfo) :
    ServerHelloInfo :=
  let info := { info with group := group, haveShare := true }
  if b.twoGroups && group == groupX25519 then { info with serverPub := share }
  else if b.twoGroups && group == groupSecp256r1 then { info with serverP256 := share }
  else
    let ctLen := if b.kexMlkem then mlkemCtLen b else 0
    { info with
      serverCt := share.take ctLen
      serverPub := if b.cnsa2 then info.serverPub else share.drop ctLen }

def keep (b : Build) : ShExt → ServerHelloInfo → ServerHelloInfo
  | supportedVersions version, info => { info with versionOk := version == tls13 }
  | keyShare group share, info => storeShare b group share info
  | retryShare group, info => { info with retryGroup := group }
  | preSharedKey identity, info => { info with pskOk := identity == 0 }
  | cookie value, info => { info with cookie := some value }

def note (b : Build) (info : ServerHelloInfo) (ext : ShExt) : ServerHelloInfo :=
  ext.keep b { info with seen := ext.type :: info.seen }

end ShExt

/-! ### The body of an extension -/

section Bodies

variable {b : Build} {info : ServerHelloInfo}

theorem kexServerShare_eq (b : Build) : kexServerShare b = groupShareLen (kexGroup b) := by
  unfold kexServerShare kexGroup mlkemCtLen
  cases b.cnsa2 <;> cases b.kexPq <;> rfl

theorem readShare_encode {share : Bytes} (bounded : share.length < 65536) (rest : Bytes) :
    readShare share.length ⟨(Format.vector16 0).encode share ++ rest,false⟩ =
      some (share, ⟨rest,false⟩) := by
  have shape : (Format.vector16 0).encode share ++ rest = be16 share.length ++ (share ++ rest) := by
    simp [Format.vector16]
  unfold readShare
  rw [shape,rbU16_be16 _ _ bounded]
  simp [rbBytes_append]

theorem readShare_eq_some {length : Nat} {bytes share : Bytes} {next : Rbuf}
    (read : readShare length ⟨bytes,false⟩ = some (share, next)) :
    share.length = length ∧ next.err = false ∧
      bytes = (Format.vector16 0).encode share ++ next.rest := by
  unfold readShare at read
  rcases rbU16_cases bytes with ⟨declared,tail,_,rfl,number⟩ | ⟨_,failed⟩
  · rw [number] at read
    dsimp only at read
    split at read
    · cases read
    rename_i same
    rw [Decidable.not_not] at same
    rcases rbBytes_cases length tail with ⟨taken,rest,counted,rfl,took⟩ | ⟨_,short⟩
    · rw [took] at read
      cases read
      refine ⟨counted,rfl,?_⟩
      simp [Format.vector16,same,counted]
    · rw [short] at read
      cases read
  · dsimp only at read
    split at read
    · cases read
    · rw [rbBytes_failed failed] at read
      cases read

theorem rbU16_filled {data : Bytes} (live : (rbU16 (rbInit data)).2.err = false)
    (filled : rbLeft (rbU16 (rbInit data)).2 = 0) :
    (rbU16 (rbInit data)).1 < 65536 ∧ data = be16 (rbU16 (rbInit data)).1 := by
  rcases rbU16_cases data with ⟨number,rest,bounded,rfl,read⟩ | ⟨_,failed⟩
  · have whole : rbU16 (rbInit (be16 number ++ rest)) = (number, ⟨rest,false⟩) := read
    rw [whole] at filled ⊢
    have empty : rest = [] := length_eq_zero_iff.mp filled
    exact ⟨bounded,by rw [empty,append_nil]⟩
  · rw [show (rbU16 (rbInit data)).2.err = true from failed] at live
    cases live

theorem rbU16_be16_whole {number : Nat} (bounded : number < 65536) :
    rbU16 (rbInit (be16 number)) = (number, ⟨[],false⟩) := by
  have read := rbU16_be16 number [] bounded
  rw [append_nil] at read
  exact read

/-- `parse_key_share` in a ServerHello: a share of its group's length, in one of
the build's groups. -/
theorem parseKeyShare_hello {group : Nat} (bounded : group < 65536) (rest : Bytes) :
    parseKeyShare b info false ⟨be16 group ++ rest,false⟩ =
      if group ∈ shareGroups b then
        (readShare (groupShareLen group) ⟨rest,false⟩).map fun read =>
          (ShExt.storeShare b group read.1 info, read.2)
      else none := by
  unfold parseKeyShare shareGroups ShExt.storeShare
  rw [rbU16_be16 _ _ bounded]
  dsimp only
  rw [if_neg Bool.false_ne_true]
  cases two : b.twoGroups with
  | false =>
    by_cases same : group = kexGroup b
    · subst same
      rw [← kexServerShare_eq,Option.map_eq_bind]
      simp only [Bool.false_and,Bool.false_eq_true,↓reduceIte,ne_eq,not_true_eq_false,
        Option.bind_eq_bind,mem_cons,not_mem_nil,or_false]
      rfl
    · simp [same]
  | true =>
    by_cases x25519 : group = groupX25519
    · subst x25519
      rw [show groupShareLen groupX25519 = 32 from rfl,Option.map_eq_bind]
      simp only [BEq.rfl,Bool.and_self,↓reduceIte,Option.bind_eq_bind,mem_cons,not_mem_nil,or_false,
        true_or,or_true]
      rfl
    by_cases p256 : group = groupSecp256r1
    · subst p256
      rw [show groupShareLen groupSecp256r1 = p256PointLen from rfl,Option.map_eq_bind]
      simp only [Bool.true_and,beq_iff_eq,x25519,↓reduceIte,BEq.rfl,Bool.and_self,
        Option.bind_eq_bind,mem_cons,not_mem_nil,or_false,or_true]
      rfl
    by_cases hybrid : group = groupX25519Mlkem768
    · subst hybrid
      rw [show groupShareLen groupX25519Mlkem768 = hybridServerShare from rfl,Option.map_eq_bind]
      simp only [Bool.true_and,beq_iff_eq,x25519,↓reduceIte,p256,ne_eq,not_true_eq_false,
        Option.bind_eq_bind,mem_cons,not_mem_nil,or_self,or_false]
      rfl
    · simp [x25519,p256,hybrid]

theorem parseKeyShare_retry {group : Nat} (bounded : group < 65536) (rest : Bytes) :
    parseKeyShare b info true ⟨be16 group ++ rest,false⟩ =
      if b.twoGroups = true ∧ group = groupSecp256r1 then
        some ({ info with retryGroup := group }, ⟨rest,false⟩)
      else none := by
  unfold parseKeyShare
  rw [rbU16_be16 _ _ bounded]
  by_cases named : b.twoGroups = true ∧ group = groupSecp256r1
  · obtain ⟨two,rfl⟩ := named
    simp [two]
  · rw [if_neg named]
    simp only [if_true,Bool.and_eq_true,beq_iff_eq,if_neg named]

theorem readShare_failed {length : Nat} {r : Rbuf} (failed : r.err = true) :
    readShare length r = none := by
  unfold readShare
  have sticky : (rbU16 r).2.err = true := rbU16_err_of_err failed
  dsimp only
  rw [rbBytes_failed sticky]
  split <;> rfl

theorem parseKeyShare_failed {hrr : Bool} {data : Bytes}
    (failed : (rbU16 ⟨data,false⟩).2.err = true) {out : ServerHelloInfo} {next : Rbuf}
    (read : parseKeyShare b info hrr ⟨data,false⟩ = some (out, next)) : next.err = true := by
  unfold parseKeyShare at read
  dsimp only at read
  simp only [readShare_failed failed,Option.bind_eq_bind,Option.bind_none] at read
  split at read
  · split at read
    · cases read
      exact failed
    · cases read
  · simp at read

/-! ### One extension -/

theorem groupShareLen_lt (group : Nat) : groupShareLen group < 65536 := by
  unfold groupShareLen
  repeat' split
  all_goals omega

theorem kexGroup_lt (b : Build) : kexGroup b < 65536 := by
  unfold kexGroup
  repeat' split
  all_goals decide

theorem shareGroups_lt {group : Nat} (among : group ∈ shareGroups b) : group < 65536 := by
  have each : ∀ group ∈ [groupX25519Mlkem768,groupX25519,groupSecp256r1], group < 65536 := by
    decide
  unfold shareGroups at among
  split at among
  · exact each group among
  · rw [mem_singleton.mp among]
    exact kexGroup_lt b

theorem cookieMax_lt (b : Build) : cookieMax b < 65536 := by
  unfold cookieMax
  split <;> omega

variable {psk : Bool}

/-- The parser takes every allowed extension whole. -/
theorem serverHelloArm_takes {ext : ShExt} (allowed : ext.Allowed b 0 info.hrr psk) :
    serverHelloArm b info ext.type (rbInit ext.data) = some (ext.keep b info, ⟨[],false⟩) := by
  cases ext with
  | supportedVersions version =>
    have read := rbU16_be16_whole allowed
    change some ({ info with versionOk := (rbU16 (rbInit (be16 version))).1 == tls13 },
      (rbU16 (rbInit (be16 version))).2) = _
    rw [read]
    rfl
  | keyShare group share =>
    obtain ⟨hello,among,length⟩ := allowed
    change parseKeyShare b info info.hrr
      ⟨be16 group ++ (Format.vector16 0).encode share,false⟩ = _
    have bounded : share.length < 65536 := by
      rw [length]
      exact groupShareLen_lt group
    have read := readShare_encode bounded []
    rw [append_nil,length] at read
    rw [hello,parseKeyShare_hello (shareGroups_lt among),if_pos among,read]
    rfl
  | retryShare group =>
    obtain ⟨retry,two,named⟩ := allowed
    change parseKeyShare b info info.hrr ⟨be16 group,false⟩ = _
    have read := @parseKeyShare_retry b info group (by rw [named]; decide) []
    rw [append_nil,if_pos ⟨two,named⟩] at read
    rw [retry,read]
    rfl
  | preSharedKey identity =>
    have read := rbU16_be16_whole allowed.2.2
    change some ({ info with pskOk := (rbU16 (rbInit (be16 identity))).1 == 0 },
      (rbU16 (rbInit (be16 identity))).2) = _
    rw [read]
    rfl
  | cookie value =>
    obtain ⟨retry,_,short⟩ := allowed
    have bounded : value.length < 65536 := Nat.lt_of_le_of_lt short (cookieMax_lt b)
    have length := rbU16_be16 value.length value bounded
    have bytes := rbBytes_append value []
    rw [append_nil] at bytes
    change parseCookie b info info.hrr ⟨be16 value.length ++ value,false⟩ = _
    unfold parseCookie
    rw [if_neg (by simp [retry]),length]
    dsimp only
    rw [bytes]
    dsimp only
    rw [if_neg (Nat.not_lt.mpr short)]
    rfl

theorem rest_of_filled {r : Rbuf} (live : r.err = false) (filled : rbLeft r = 0) : r.rest = [] := by
  rw [rbLeft,live,if_neg Bool.false_ne_true] at filled
  exact length_eq_zero_iff.mp filled

/-- An extension taken to its last byte is an allowed one of that type. -/
theorem serverHelloArm_taken {type : Nat} {data : Bytes} {out : ServerHelloInfo} {next : Rbuf}
    (known : serverHelloExtKnown type = true)
    (selects : type = extPreSharedKey → info.hrr = false ∧ psk = true)
    (ran : serverHelloArm b info type (rbInit data) = some (out, next)) (live : next.err = false)
    (filled : rbLeft next = 0) :
    ∃ ext : ShExt, ext.item = (type, data) ∧ ext.Allowed b 0 info.hrr psk ∧
      out = ext.keep b info := by
  unfold serverHelloArm at ran
  by_cases versions : type = extSupportedVersions
  · rw [if_pos versions] at ran
    cases ran
    obtain ⟨bounded,spelled⟩ := rbU16_filled live filled
    exact ⟨.supportedVersions _,by rw [versions]; exact Prod.ext rfl spelled.symm,bounded,rfl⟩
  rw [if_neg versions] at ran
  by_cases share : type = extKeyShare
  · rw [if_pos share] at ran
    rcases rbU16_cases data with ⟨group,rest,bounded,rfl,_⟩ | ⟨_,failed⟩
    swap
    · rw [parseKeyShare_failed failed ran] at live
      cases live
    by_cases retry : info.hrr = true
    · have named : parseKeyShare b info true ⟨be16 group ++ rest,false⟩ = some (out, next) := by
        rw [← ran,retry]
        rfl
      rw [parseKeyShare_retry bounded] at named
      split at named
      swap
      · cases named
      rename_i listed
      cases named
      have empty := rest_of_filled live filled
      dsimp only at empty
      refine ⟨.retryShare group,?_,⟨retry,listed⟩,rfl⟩
      rw [share,empty,append_nil]
      rfl
    · have hello : info.hrr = false := Bool.not_eq_true _ |>.mp retry
      have shared : parseKeyShare b info false ⟨be16 group ++ rest,false⟩ = some (out, next) := by
        rw [← ran,hello]
        rfl
      rw [parseKeyShare_hello bounded] at shared
      split at shared
      swap
      · cases shared
      rename_i among
      rw [Option.map_eq_some_iff] at shared
      obtain ⟨⟨value,after⟩,read,same⟩ := shared
      cases same
      obtain ⟨length,_,spelled⟩ := readShare_eq_some read
      refine ⟨.keyShare group value,?_,⟨hello,among,length⟩,rfl⟩
      rw [share,spelled,rest_of_filled live filled,append_nil]
      rfl
  rw [if_neg share] at ran
  by_cases key : type = extPreSharedKey
  · rw [if_pos key] at ran
    cases ran
    obtain ⟨bounded,spelled⟩ := rbU16_filled live filled
    obtain ⟨hello,offered⟩ := selects key
    exact ⟨.preSharedKey _,by rw [key]; exact Prod.ext rfl spelled.symm,⟨hello,offered,bounded⟩,rfl⟩
  rw [if_neg key] at ran
  have cookie : type = extCookie := by
    unfold serverHelloExtKnown at known
    simp only [contains_cons,contains_nil,Bool.or_false,Bool.or_eq_true,beq_iff_eq] at known
    tauto
  unfold parseCookie at ran
  split at ran
  · cases ran
  rename_i retry
  rcases rbU16_cases data with ⟨length,rest,_,rfl,read⟩ | ⟨_,failed⟩
  · rw [show rbInit (be16 length ++ rest) = ⟨be16 length ++ rest,false⟩ from rfl,read] at ran
    dsimp only at ran
    rcases rbBytes_cases length rest with ⟨value,after,counted,rfl,took⟩ | ⟨_,short⟩
    · rw [took] at ran
      dsimp only at ran
      split at ran
      · cases ran
      rename_i short
      cases ran
      have empty := rest_of_filled live filled
      dsimp only at empty
      refine ⟨.cookie value,?_,⟨by simpa using retry,Nat.zero_le _,
        by rw [counted]; exact Nat.not_lt.mp short⟩,rfl⟩
      rw [cookie,empty,append_nil,← counted]
      rfl
    · rw [short] at ran
      cases ran
  · rw [show rbInit data = ⟨data,false⟩ from rfl] at ran
    dsimp only at ran
    rw [rbBytes_failed failed] at ran
    cases ran

variable (ext : ShExt)

theorem ShExt.known : serverHelloExtKnown ext.type = true := by
  cases ext <;> rfl

theorem ShExt.storeShare_view {ρ : Type} {view : ServerHelloInfo → ρ}
    (blind : ∀ info group pub ct p256, view { info with
      group := group, haveShare := true, serverPub := pub, serverCt := ct, serverP256 := p256 } =
        view info) (group : Nat) (share : Bytes) (info : ServerHelloInfo) :
    view (storeShare b group share info) = view info := by
  unfold storeShare
  dsimp only
  split
  · exact blind info group share info.serverCt info.serverP256
  split
  · exact blind info group info.serverPub info.serverCt share
  · exact blind info group _ _ info.serverP256

theorem ShExt.keep_seen (info : ServerHelloInfo) : (ext.keep b info).seen = info.seen := by
  cases ext with
  | keyShare group share => exact storeShare_view (fun _ _ _ _ _ => rfl) group share info
  | _ => rfl

theorem ShExt.keep_hrr (info : ServerHelloInfo) : (ext.keep b info).hrr = info.hrr := by
  cases ext with
  | keyShare group share => exact storeShare_view (fun _ _ _ _ _ => rfl) group share info
  | _ => rfl

theorem ShExt.note_seen (info : ServerHelloInfo) :
    (ShExt.note b info ext).seen = ext.type :: info.seen := ext.keep_seen _

theorem ShExt.note_hrr (info : ServerHelloInfo) :
    (ShExt.note b info ext).hrr = info.hrr := ext.keep_hrr _

theorem parseServerHelloExt_takes {ext : ShExt} (allowed : ext.Allowed b 0 info.hrr psk)
    (first : ext.type ∉ info.seen) :
    parseServerHelloExt b psk ext.type ext.data info = (.ok (), ShExt.note b info ext) := by
  have selects : ¬ (ext.type = extPreSharedKey ∧ (info.hrr || !psk) = true) := by
    rintro ⟨key,refused⟩
    cases ext with
    | preSharedKey identity =>
      obtain ⟨hello,offered,_⟩ := allowed
      simp [hello,offered] at refused
    | _ => exact absurd key (Nat.ne_of_beq_eq_false rfl)
  have taken := @serverHelloArm_takes b { info with seen := ext.type :: info.seen } psk ext allowed
  unfold parseServerHelloExt
  rw [if_neg selects,if_neg (by simp [ext.known]),if_neg (by simpa using first)]
  dsimp only
  rw [taken]
  rfl

theorem parseServerHelloExt_taken {type : Nat} {data : Bytes} {out : ServerHelloInfo}
    (ran : parseServerHelloExt b psk type data info = (.ok (), out)) :
    ∃ ext : ShExt, ext.item = (type, data) ∧ ext.Allowed b 0 info.hrr psk ∧ ext.type ∉ info.seen ∧
      out = ShExt.note b info ext := by
  unfold parseServerHelloExt at ran
  split at ran
  · cases ran
  rename_i selects
  split at ran
  · cases ran
  rename_i known
  split at ran
  · cases ran
  rename_i first
  dsimp only at ran
  split at ran
  · cases ran
  rename_i kept next armed
  split at ran
  · cases ran
  rename_i filled
  cases ran
  simp only [Bool.or_eq_true,bne_iff_ne,ne_eq,not_or,Decidable.not_not,Bool.not_eq_true] at filled
  have offers : type = extPreSharedKey → info.hrr = false ∧ psk = true := by
    intro key
    have clear : ¬ (info.hrr || !psk) = true := fun refused => selects ⟨key,refused⟩
    simpa using clear
  obtain ⟨ext,item,allowed,kept⟩ := @serverHelloArm_taken b
    { info with seen := type :: info.seen } psk type data _ next
      (by simpa using known) offers armed filled.1 filled.2
  have type : ext.type = type := congrArg Prod.fst item
  refine ⟨ext,item,allowed,?_,?_⟩
  · rw [type]
    simpa using first
  · rw [kept,ShExt.note,type]

/-- The walk over the block takes exactly the extensions that are allowed, one of
each type. -/
theorem runItems_shExt {items : List Item} {out : ServerHelloInfo} :
    runItems (parseServerHelloExt b psk) items info = (.ok (), out) ↔
      ∃ exts : List ShExt, exts.map ShExt.item = items ∧
        (∀ ext ∈ exts, ext.Allowed b 0 info.hrr psk) ∧ (exts.map ShExt.type).Nodup ∧
        (∀ ext ∈ exts, ext.type ∉ info.seen) ∧ out = exts.foldl (ShExt.note b) info := by
  induction items generalizing info with
  | nil =>
    constructor
    · intro ran
      cases ran
      exact ⟨[],rfl,by simp,nodup_nil,by simp,rfl⟩
    · rintro ⟨exts,absent,_,_,_,rfl⟩
      rw [map_eq_nil_iff.mp absent]
      rfl
  | cons item items ih =>
    constructor
    · intro ran
      obtain ⟨_,middle,stepped,rest⟩ := bind_eq_ok.mp ran
      obtain ⟨ext,spelled,allowed,first,rfl⟩ := parseServerHelloExt_taken stepped
      obtain rfl : ext.item = item := spelled
      obtain ⟨exts,rfl,all,distinct,unseen,rfl⟩ := ih.mp rest
      simp only [ShExt.note_hrr,ShExt.note_seen,mem_cons,not_or] at all unseen
      refine ⟨ext :: exts,rfl,forall_mem_cons.mpr ⟨allowed,all⟩,?_,
        forall_mem_cons.mpr ⟨first,fun other among => (unseen other among).2⟩,rfl⟩
      rw [map_cons,nodup_cons]
      refine ⟨?_,distinct⟩
      intro repeated
      obtain ⟨other,among,same⟩ := mem_map.mp repeated
      exact (unseen other among).1 same
    · rintro ⟨exts,spelled,all,distinct,unseen,rfl⟩
      cases exts with
      | nil => cases spelled
      | cons ext exts =>
        rw [map_cons,cons.injEq] at spelled
        obtain ⟨rfl,rfl⟩ := spelled
        rw [map_cons,nodup_cons] at distinct
        have stepped := parseServerHelloExt_takes (all ext mem_cons_self)
          (unseen ext mem_cons_self)
        refine bind_eq_ok.mpr ⟨(),_,stepped,ih.mpr ⟨exts,rfl,?_,distinct.2,?_,rfl⟩⟩
        · intro other among
          rw [ShExt.note_hrr]
          exact all other (mem_cons_of_mem _ among)
        · intro other among
          rw [ShExt.note_seen,mem_cons,not_or]
          refine ⟨?_,unseen other (mem_cons_of_mem _ among)⟩
          intro same
          exact distinct.1 (mem_map.mpr ⟨other,among,same⟩)

end Bodies

/-! ### The message -/

structure ServerHelloMsg where
  random : Bytes
  suite : Nat
  exts : List ShExt

namespace ServerHelloMsg

def hrr (msg : ServerHelloMsg) : Bool := msg.random == hrrMagic

def block (msg : ServerHelloMsg) : Bytes := Item.encodeAll (msg.exts.map ShExt.item)

def encode (msg : ServerHelloMsg) : Bytes :=
  be16 0x0303 ++ (msg.random ++ (byte 0 :: (be16 msg.suite ++ (byte 0 ::
    (be16 msg.block.length ++ msg.block)))))

/-- A message of the grammar, with cookies of `least` bytes and more. -/
structure Accepted (b : Build) (least : Nat) (psk : Bool) (msg : ServerHelloMsg) : Prop where
  random : msg.random.length = 32
  suite : shSuiteOffered b msg.suite = true
  length : msg.block.length < 65536
  distinct : (msg.exts.map ShExt.type).Nodup
  allowed : ∀ ext ∈ msg.exts, ext.Allowed b least msg.hrr psk
  version : .supportedVersions tls13 ∈ msg.exts

def opened (b : Build) (msg : ServerHelloMsg) : ServerHelloInfo :=
  { ServerHelloInfo.zero with
    hrr := msg.hrr
    suite := if b.aesGcm then msg.suite else 0 }

def info (b : Build) (msg : ServerHelloMsg) : ServerHelloInfo :=
  msg.exts.foldl (ShExt.note b) (msg.opened b)

end ServerHelloMsg

section Message

variable {b : Build} {psk : Bool}

theorem shSuiteOffered_known {suite : Nat} (offered : shSuiteOffered b suite = true) :
    suite ∈ [suiteChacha20Poly1305Sha256,suiteAes128GcmSha256,suiteAes256GcmSha384] := by
  unfold shSuiteOffered at offered
  split at offered
  · simpa using offered
  split at offered
  · rw [beq_iff_eq.mp offered]
    decide
  · rw [beq_iff_eq.mp offered]
    decide

/-! ### What the reader reports -/

theorem ShExt.note_versionOk {ext : ShExt} (other : ext.type ≠ extSupportedVersions)
    (info : ServerHelloInfo) : (note b info ext).versionOk = info.versionOk := by
  cases ext with
  | supportedVersions version => exact absurd rfl other
  | keyShare group share => exact storeShare_view (fun _ _ _ _ _ => rfl) group share _
  | _ => rfl

def ServerHelloInfo.shared (info : ServerHelloInfo) : Nat × Bool := (info.group, info.haveShare)

theorem ShExt.storeShare_shared (group : Nat) (share : Bytes) (info : ServerHelloInfo) :
    (storeShare b group share info).shared = (group, true) := by
  unfold storeShare
  dsimp only
  split
  · rfl
  split <;> rfl

theorem ShExt.note_shared {ext : ShExt} (other : ∀ group share, ext ≠ .keyShare group share)
    (info : ServerHelloInfo) : (note b info ext).shared = info.shared := by
  cases ext with
  | keyShare group share => exact absurd rfl (other group share)
  | _ => rfl

theorem ShExt.note_retryGroup {ext : ShExt} (other : ∀ group, ext ≠ .retryShare group)
    (info : ServerHelloInfo) : (note b info ext).retryGroup = info.retryGroup := by
  cases ext with
  | retryShare group => exact absurd rfl (other group)
  | keyShare group share => exact storeShare_view (fun _ _ _ _ _ => rfl) group share _
  | _ => rfl

theorem ShExt.note_cookie {ext : ShExt} (other : ∀ value, ext ≠ .cookie value)
    (info : ServerHelloInfo) : (note b info ext).cookie = info.cookie := by
  cases ext with
  | cookie value => exact absurd rfl (other value)
  | keyShare group share => exact storeShare_view (fun _ _ _ _ _ => rfl) group share _
  | _ => rfl

theorem ShExt.note_suite (ext : ShExt) (info : ServerHelloInfo) :
    (note b info ext).suite = info.suite := by
  cases ext with
  | keyShare group share => exact storeShare_view (fun _ _ _ _ _ => rfl) group share _
  | _ => rfl

namespace ServerHelloMsg

variable {msg : ServerHelloMsg}

theorem info_hrr (msg : ServerHelloMsg) : (msg.info b).hrr = msg.hrr :=
  foldl_keeps fun ext _ => ext.note_hrr

theorem info_suite (msg : ServerHelloMsg) :
    (msg.info b).suite = if b.aesGcm then msg.suite else 0 :=
  foldl_keeps fun ext _ => ext.note_suite

theorem info_versionOk (distinct : (msg.exts.map ShExt.type).Nodup) :
    (msg.info b).versionOk = true ↔ .supportedVersions tls13 ∈ msg.exts := by
  by_cases present : ∃ version, .supportedVersions version ∈ msg.exts
  · obtain ⟨version,among⟩ := present
    have written : (msg.info b).versionOk = (version == tls13) :=
      foldl_writes among (pairwise_map.mp distinct) (fun _ => rfl)
        fun other apart => ShExt.note_versionOk apart.symm
    rw [written,beq_iff_eq]
    constructor
    · rintro rfl
      exact among
    · intro listed
      have again : (msg.info b).versionOk = (tls13 == tls13) :=
        foldl_writes listed (pairwise_map.mp distinct) (fun _ => rfl)
          fun other apart => ShExt.note_versionOk apart.symm
      rw [written,beq_self_eq_true] at again
      exact beq_iff_eq.mp again
  · have kept : (msg.info b).versionOk = false := foldl_keeps fun ext among =>
      ShExt.note_versionOk fun same => by
        cases ext with
        | supportedVersions version => exact present ⟨version,among⟩
        | _ => exact absurd same (Nat.ne_of_beq_eq_false rfl)
    rw [kept]
    constructor
    · intro wrong
      cases wrong
    · intro listed
      exact absurd ⟨tls13,listed⟩ present

theorem info_shared (distinct : (msg.exts.map ShExt.type).Nodup)
    (shared : (msg.info b).haveShare = true) :
    ∃ share, .keyShare (msg.info b).group share ∈ msg.exts := by
  by_cases present : ∃ group share, .keyShare group share ∈ msg.exts
  · obtain ⟨group,share,among⟩ := present
    have written : (msg.info b).shared = (group, true) :=
      foldl_writes among (pairwise_map.mp distinct)
        (fun info => ShExt.storeShare_shared group share _) fun other apart =>
        ShExt.note_shared fun group share same => apart (by rw [same]; rfl)
    have named : (msg.info b).group = group := congrArg Prod.fst written
    exact ⟨share,by rw [named]; exact among⟩
  · have kept : (msg.info b).shared = (0, false) := foldl_keeps fun ext among =>
      ShExt.note_shared fun group share same => present ⟨group,share,by rw [← same]; exact among⟩
    rw [show (msg.info b).haveShare = false from congrArg Prod.snd kept] at shared
    cases shared

theorem info_retryGroup (distinct : (msg.exts.map ShExt.type).Nodup) {group : Nat}
    (among : .retryShare group ∈ msg.exts) : (msg.info b).retryGroup = group :=
  foldl_writes among (pairwise_map.mp distinct) (fun _ => rfl)
    fun other apart => ShExt.note_retryGroup fun group same => apart (by rw [same]; rfl)

theorem info_cookie (distinct : (msg.exts.map ShExt.type).Nodup) {value : Bytes} :
    (msg.info b).cookie = some value ↔ .cookie value ∈ msg.exts := by
  have written {other : Bytes} (among : .cookie other ∈ msg.exts) :
      (msg.info b).cookie = some other :=
    foldl_writes among (pairwise_map.mp distinct) (fun _ => rfl)
      fun ext apart => ShExt.note_cookie fun value same => apart (by rw [same]; rfl)
  refine ⟨fun kept => ?_,written⟩
  by_cases present : ∃ other, .cookie other ∈ msg.exts
  · obtain ⟨other,among⟩ := present
    cases (written among).symm.trans kept
    exact among
  · have absent : (msg.info b).cookie = none := foldl_keeps fun ext among =>
      ShExt.note_cookie fun value same => present ⟨value,by rw [← same]; exact among⟩
    cases absent.symm.trans kept

end ServerHelloMsg

/-! ### Acceptance -/

theorem ServerHelloMsg.Accepted.spare {msg : ServerHelloMsg} (accepted : msg.Accepted b 1 psk) :
    msg.Accepted b 0 psk := by
  refine { accepted with allowed := fun ext among => ?_ }
  have allowed := accepted.allowed ext among
  cases ext with
  | cookie value => exact ⟨allowed.1,Nat.zero_le _,allowed.2.2⟩
  | _ => exact allowed

theorem ServerHelloMsg.Accepted.strict {msg : ServerHelloMsg} (accepted : msg.Accepted b 0 psk)
    (filled : .cookie [] ∉ msg.exts) : msg.Accepted b 1 psk := by
  refine { accepted with allowed := fun ext among => ?_ }
  have allowed := accepted.allowed ext among
  cases ext with
  | cookie value =>
    refine ⟨allowed.1,length_pos_iff.mpr ?_,allowed.2.2⟩
    rintro rfl
    exact filled among
  | _ => exact allowed

theorem ServerHelloMsg.item_fits {msg : ServerHelloMsg} (length : msg.block.length < 65536) :
    ∀ item ∈ msg.exts.map ShExt.item, item.Fits := by
  intro item among
  have short := Item.length_le_encodeAll among
  obtain ⟨ext,_,rfl⟩ := mem_map.mp among
  refine ⟨?_,Nat.lt_of_le_of_lt short length⟩
  cases ext <;> exact Nat.lt_of_sub_eq_succ rfl

theorem serverHello_fields {tail : Bytes}
    (live : (rbU16 (rbU8 (rbU16 (rbU8 ⟨tail,false⟩).2).2).2).2.err = false) :
    ∃ sessionIdLen compression suite length block, suite < 65536 ∧ length < 65536 ∧
      tail = sessionIdLen :: (be16 suite ++ (compression :: (be16 length ++ block))) := by
  have stuck {r : Rbuf} (failed : r.err = true) : (rbU16 (rbU8 (rbU16 r).2).2).2.err = true :=
    rbU16_err_of_err (rbU8_err_of_err (rbU16_err_of_err failed))
  rcases rbU8_cases tail with ⟨sessionIdLen,tail,rfl,read⟩ | ⟨_,failed⟩
  swap
  · rw [stuck failed] at live
    cases live
  rw [read] at live
  rcases rbU16_cases tail with ⟨suite,tail,suiteFits,rfl,read⟩ | ⟨_,failed⟩
  swap
  · rw [rbU16_err_of_err (rbU8_err_of_err failed)] at live
    cases live
  rw [read] at live
  rcases rbU8_cases tail with ⟨compression,tail,rfl,read⟩ | ⟨_,failed⟩
  swap
  · rw [rbU16_err_of_err failed] at live
    cases live
  rw [read] at live
  rcases rbU16_cases tail with ⟨length,block,lengthFits,rfl,read⟩ | ⟨_,failed⟩
  swap
  · rw [failed] at live
    cases live
  exact ⟨sessionIdLen,compression,suite,length,block,suiteFits,lengthFits,rfl⟩

theorem hspParseServerHello_fields {body : Bytes} {info out : ServerHelloInfo}
    (ran : hspParseServerHello b body psk info = (.ok (), out)) :
    ∃ version random sessionIdLen compression suite length block, version < 65536 ∧
      random.length = 32 ∧ suite < 65536 ∧ length < 65536 ∧
      body = be16 version ++ (random ++ (sessionIdLen :: (be16 suite ++
        (compression :: (be16 length ++ block))))) := by
  unfold hspParseServerHello at ran
  rcases rbU16_cases body with ⟨version,tail,versionFits,rfl,read⟩ | ⟨_,failed⟩
  swap
  · dsimp only at ran
    split at ran
    · cases ran
    rw [show rbInit body = ⟨body,false⟩ from rfl,rbBytes_failed failed] at ran
    cases ran
  rw [show rbInit (be16 version ++ tail) = ⟨be16 version ++ tail,false⟩ from rfl,read] at ran
  dsimp only at ran
  split at ran
  · cases ran
  rcases rbBytes_cases 32 tail with ⟨random,tail,counted,rfl,took⟩ | ⟨_,short⟩
  swap
  · rw [short] at ran
    cases ran
  rw [took] at ran
  dsimp only at ran
  split at ran
  · cases ran
  split at ran
  · cases ran
  split at ran
  · cases ran
  rename_i whole
  simp only [Bool.or_eq_true,not_or,Bool.not_eq_true] at whole
  obtain ⟨sessionIdLen,compression,suite,length,block,suiteFits,lengthFits,rfl⟩ :=
    serverHello_fields whole.1
  exact ⟨version,random,sessionIdLen,compression,suite,length,block,versionFits,counted,suiteFits,
    lengthFits,rfl⟩

def walkServerHello (b : Build) (psk : Bool) (block : Bytes) : Proc ServerHelloInfo Rc Unit :=
  fun info =>
    match rbForItems (Proc.stop .eproto) (parseServerHelloExt b psk) block.length ⟨block,false⟩
        info with
    | (.error rc, info) => (.error rc, info)
    | (.ok _, info) => if info.versionOk then (.ok (), info) else (.error .eproto, info)

theorem hspParseServerHello_framed {version suite length : Nat} {random block : Bytes}
    {sessionIdLen compression : UInt8} (versionFits : version < 65536)
    (randomFits : random.length = 32) (suiteFits : suite < 65536) (lengthFits : length < 65536) :
    hspParseServerHello b (be16 version ++ (random ++ (sessionIdLen :: (be16 suite ++
        (compression :: (be16 length ++ block)))))) psk ServerHelloInfo.zero =
      if version ≠ 0x0303 then (.error .eproto, ServerHelloInfo.zero)
      else
        let info := { ServerHelloInfo.zero with hrr := random == hrrMagic }
        if sessionIdLen.toNat ≠ 0 then (.error .eproto, info)
        else
          let info := if b.aesGcm then { info with suite := suite } else info
          if !shSuiteOffered b suite || compression.toNat != 0 then (.error .eproto, info)
          else if length != block.length then (.error .eproto, info)
          else walkServerHello b psk block info := by
  have randoms := rbBytes_append random (sessionIdLen :: (be16 suite ++
    (compression :: (be16 length ++ block))))
  rw [randomFits] at randoms
  unfold hspParseServerHello
  simp only [show ∀ bytes, rbInit bytes = ⟨bytes,false⟩ from fun _ => rfl,
    rbU16_be16 _ _ versionFits,randoms,rbU8_cons,rbU16_be16 _ _ suiteFits,rbU16_be16 _ _ lengthFits,
    Bool.false_or,rbLeft_live]
  rfl

/-- The walk accepts items it takes that name the version. -/
theorem walkServerHello_eq_ok {block : Bytes} {info out : ServerHelloInfo} :
    walkServerHello b psk block info = (.ok (), out) ↔
      ∃ items : List Item, (∀ item ∈ items, item.Fits) ∧ block = Item.encodeAll items ∧
        runItems (parseServerHelloExt b psk) items info = (.ok (), out) ∧ out.versionOk = true := by
  unfold walkServerHello
  constructor
  · intro ran
    rcases walked : rbForItems (Proc.stop .eproto) (parseServerHelloExt b psk) block.length
      ⟨block,false⟩ info with ⟨rc | _,after⟩
    · rw [walked] at ran
      cases ran
    rw [walked] at ran
    dsimp only at ran
    split at ran
    · rename_i named
      cases ran
      obtain ⟨items,fits,spelled,took⟩ := rbForItems_eq_ok
        (fun state next wrong => by cases wrong) (Nat.le_refl _) walked
      exact ⟨items,fits,spelled,took,named⟩
    · cases ran
  · rintro ⟨items,fits,rfl,took,named⟩
    have walked := congrFun (rbForItems_encodeAll (Proc.stop .eproto)
      (parseServerHelloExt b psk) fits (Nat.le_refl _)) info
    rw [took] at walked
    rw [walked]
    exact if_pos named

/-- The parser accepts exactly the encodings of accepted messages. -/
theorem hspParseServerHello_eq_ok {body : Bytes} {out : ServerHelloInfo} :
    hspParseServerHello b body psk ServerHelloInfo.zero = (.ok (), out) ↔
      ∃ msg : ServerHelloMsg, msg.Accepted b 0 psk ∧ body = msg.encode ∧ out = msg.info b := by
  have start (random : Bytes) (suite : Nat) (exts : List ShExt) :
      (if b.aesGcm = true then
          { ServerHelloInfo.zero with hrr := random == hrrMagic, suite := suite }
        else { ServerHelloInfo.zero with hrr := random == hrrMagic }) =
        ServerHelloMsg.opened b ⟨random,suite,exts⟩ := by
    unfold ServerHelloMsg.opened
    cases b.aesGcm <;> rfl
  constructor
  · intro ran
    obtain ⟨version,random,sessionIdLen,compression,suite,length,block,versionFits,randomFits,
      suiteFits,lengthFits,rfl⟩ := hspParseServerHello_fields ran
    rw [hspParseServerHello_framed versionFits randomFits suiteFits lengthFits] at ran
    split at ran
    · cases ran
    rename_i legacy
    dsimp only at ran
    split at ran
    · cases ran
    rename_i session
    split at ran
    · cases ran
    rename_i offered
    split at ran
    · cases ran
    rename_i whole
    rw [Decidable.not_not] at legacy session
    simp only [Bool.or_eq_true,Bool.not_eq_eq_eq_not,Bool.not_true,bne_iff_ne,ne_eq,not_or,
      Bool.not_eq_false,Decidable.not_not] at offered whole
    rw [start random suite []] at ran
    obtain ⟨items,fits,rfl,took,named⟩ := walkServerHello_eq_ok.mp ran
    obtain ⟨exts,rfl,allowed,distinct,_,rfl⟩ := runItems_shExt.mp took
    have echo : sessionIdLen = byte 0 := UInt8.toNat_inj.mp session
    have null : compression = byte 0 := UInt8.toNat_inj.mp offered.2
    refine ⟨⟨random,suite,exts⟩,⟨randomFits,offered.1,?_,distinct,allowed,?_⟩,?_,rfl⟩
    · rw [whole] at lengthFits
      exact lengthFits
    · exact (ServerHelloMsg.info_versionOk distinct).mp named
    · rw [legacy,echo,null,whole]
      rfl
  · rintro ⟨msg,accepted,rfl,rfl⟩
    have known := shSuiteOffered_known accepted.suite
    have bounded : msg.suite < 65536 := by
      have each : ∀ suite ∈ [suiteChacha20Poly1305Sha256,suiteAes128GcmSha256,suiteAes256GcmSha384],
          suite < 65536 := by decide
      exact each _ known
    have walked : walkServerHello b psk msg.block (msg.opened b) = (.ok (), msg.info b) :=
      walkServerHello_eq_ok.mpr ⟨_,ServerHelloMsg.item_fits accepted.length,rfl,
        runItems_shExt.mpr ⟨msg.exts,rfl,accepted.allowed,accepted.distinct,
          by simp [ServerHelloMsg.opened,ServerHelloInfo.zero],rfl⟩,
        (ServerHelloMsg.info_versionOk accepted.distinct).mpr accepted.version⟩
    rw [ServerHelloMsg.encode,hspParseServerHello_framed (by decide) accepted.random bounded
      accepted.length,if_neg (by simp)]
    dsimp only
    rw [if_neg (by decide),start msg.random msg.suite msg.exts,if_neg (by simp [accepted.suite]),
      if_neg (by simp)]
    exact walked

end Message

/-! ### What the client offered -/

section Offer

variable (e : Env)

def helloShares (c : Core) : List Item :=
  let ek := if c.h.retryGroup ≠ 0 then [] else e.mlkemEk (mlkemRank e.build) c.h.dz
  if e.build.twoGroups then
    if c.h.retryGroup ≠ 0 then [(groupSecp256r1, fitTo p256PointLen c.h.p256Pub)]
    else (groupX25519Mlkem768, fitTo 1184 ek ++ fitTo 32 c.h.pub) ::
      if c.t.cfg.requirePq then [] else [(groupX25519, fitTo 32 c.h.pub)]
  else [(kexGroup e.build, oneShare e.build ek c.h.pub)]

def helloExts (c : Core) : List Item :=
  clientHelloExts e.build c.t.cfg
    (if c.h.retryGroup ≠ 0 then [] else e.mlkemEk (mlkemRank e.build) c.h.dz)
    (if c.h.retryGroup ≠ 0 then some c.h.p256Pub else none) c.h.pub
    (if e.build.quic then 0 else c.h.recordSizeLimit)
    (if c.h.cookie.length > 0 then some c.h.cookie else none)

structure Offers (c : Core) (suite group : Nat) : Prop where
  suite : suite ∈ helloSuites e.build c.t.cfg
  group : group ∈ (helloShares e c).map Prod.fst
  carried : (extKeyShare, be16 (Item.encodeAll (helloShares e c)).length ++
    Item.encodeAll (helloShares e c)) ∈ helloExts e c

theorem shareBytes_eq {group length : Nat} {share : Bytes} (counted : share.length = length) :
    shareBytes group length share = Item.encode (group, share) := by
  rw [shareBytes,Item.encode,counted]

/-- The shares stand in the key_share of the ClientHello. -/
theorem helloShares_carried (c : Core) :
    (extKeyShare, be16 (Item.encodeAll (helloShares e c)).length ++
      Item.encodeAll (helloShares e c)) ∈ helloExts e c := by
  have within : ∀ item : Item, item ∈ groupItems e.build c.t.cfg
      (if c.h.retryGroup ≠ 0 then [] else e.mlkemEk (mlkemRank e.build) c.h.dz)
      (if c.h.retryGroup ≠ 0 then some c.h.p256Pub else none) c.h.pub → item ∈ helloExts e c := by
    intro item among
    unfold helloExts clientHelloExts
    simp only [mem_flatten,mem_cons]
    exact ⟨_,.inr (.inr (.inr (.inl rfl))),among⟩
  apply within
  unfold groupItems helloShares
  by_cases two : e.build.twoGroups = true
  · rw [if_pos two,if_pos two]
    unfold twoGroupItems
    by_cases retry : c.h.retryGroup ≠ 0
    · simp only [if_pos retry,shareBytes_eq (fitTo_length p256PointLen c.h.p256Pub)]
      simp
    · have hybrid : (fitTo 1184 (e.mlkemEk (mlkemRank e.build) c.h.dz) ++
          fitTo 32 c.h.pub).length = hybridClientShare := by
        rw [length_append,fitTo_length,fitTo_length]
        rfl
      simp only [if_neg retry,shareBytes_eq hybrid,shareBytes_eq (fitTo_length 32 c.h.pub)]
      cases c.t.cfg.requirePq <;> simp
  · have one : e.build.webpki = false := by simpa [Build.twoGroups] using two
    have length := oneShare_length e.build
      (if c.h.retryGroup ≠ 0 then [] else e.mlkemEk (mlkemRank e.build) c.h.dz) c.h.pub one
    rw [if_neg two,if_neg two]
    unfold oneGroupItems
    rw [shareBytes_eq length]
    simp only [Item.encodeAll_cons,Item.encodeAll_nil,append_nil,Item.encode_length,length]
    rw [show 4 + kexClientShare e.build = 2 + 2 + kexClientShare e.build from rfl]
    simp

end Offer

/-! ### What the handlers admit -/

section Handlers

variable {e : Env} {c next : Core} {info : ServerHelloInfo}

def Core.chosen (c : Core) : Nat × Nat × Cfg := (c.h.suite, c.h.retryGroup, c.t.cfg)

def Core.Offering (c : Core) : Prop := c.h.retryGroup = 0 ∨ c.h.retryGroup = groupSecp256r1

theorem Core.Offering.of_chosen (offering : c.Offering) (same : next.chosen = c.chosen) :
    next.Offering := by
  simp only [Core.chosen,Prod.mk.injEq] at same
  unfold Core.Offering
  rw [same.2.1]
  exact offering

theorem takeSuite_ok (ran : takeSuite e info c = (.ok (), next)) :
    next.t = c.t ∧ next.h.retryGroup = c.h.retryGroup ∧
      (e.build.aesGcm = true → next.h.suite = info.suite ∧
        info.suite ∈ helloSuites e.build c.t.cfg ∧
        (info.hrr = false → c.h.suite ≠ 0 → info.suite = c.h.suite)) := by
  unfold takeSuite at ran
  split at ran
  · rename_i plain
    cases ran
    refine ⟨rfl,rfl,fun gcm => ?_⟩
    rw [gcm] at plain
    cases plain
  split at ran
  · cases ran
  rename_i offered
  cases ran
  simp only [Bool.or_eq_true,Bool.and_eq_true,not_or,not_and,Bool.not_eq_true',bne_iff_ne,ne_eq,
    Decidable.not_not,Bool.not_eq_false] at offered
  refine ⟨rfl,rfl,fun _ => ⟨rfl,?_,fun hello set => offered.2 ⟨hello,set⟩⟩⟩
  simpa [hsSuiteOffered] using offered.1

theorem drawP256Loop_chosen (e : Env) (draws : Nat) : Keeps Core.chosen (drawP256Loop e draws) := by
  induction draws with
  | zero => exact keeps_require _ _
  | succ draws ih =>
    refine Keeps.bind (fun _ => rfl) fun draw => ?_
    cases e.p256EcdhKeygen draw with
    | none => exact ih
    | some pair => exact fun _ => rfl

/-- Taking a retry keeps the suite and records its group. -/
theorem hsgTakeRetry_ok (ran : hsgTakeRetry e info c = (.ok (), next)) :
    next.h.suite = c.h.suite ∧ next.t.cfg = c.t.cfg ∧ (c.Offering → next.Offering) ∧
      (info.retryGroup ≠ 0 → next.h.retryGroup = info.retryGroup ∧ c.t.cfg.requirePq = false) := by
  unfold hsgTakeRetry at ran
  by_cases none : info.retryGroup = 0
  · rw [if_pos none] at ran
    obtain ⟨_,rfl⟩ := require_eq_ok.mp ran
    exact ⟨rfl,rfl,id,fun named => absurd none named⟩
  rw [if_neg none] at ran
  obtain ⟨_,asserted,checked,getting⟩ := bind_eq_ok.mp ran
  obtain ⟨p256,rfl⟩ := require_eq_ok.mp checked
  obtain ⟨_,_,got,requiring⟩ := bind_eq_ok.mp getting
  cases got
  obtain ⟨_,required,allowed,setting⟩ := bind_eq_ok.mp requiring
  obtain ⟨classic,rfl⟩ := require_eq_ok.mp allowed
  obtain ⟨_,named,set,drawing⟩ := bind_eq_ok.mp setting
  cases set
  obtain ⟨_,drawn,drew,wiping⟩ := bind_eq_ok.mp drawing
  cases wiping
  have kept := (drawP256Loop_chosen e 4).of_eq drew
  simp only [Core.chosen,Prod.mk.injEq] at kept
  have offering : drawn.h.retryGroup = groupSecp256r1 := kept.2.1.trans (beq_iff_eq.mp p256)
  exact ⟨kept.1,kept.2.2,fun _ => .inr offering,fun _ => ⟨kept.2.1,by simpa using classic⟩⟩

theorem takeRetry_ok (ran : takeRetry e info c = (.ok (), next)) :
    next.h.suite = c.h.suite ∧ next.t.cfg = c.t.cfg ∧ (c.Offering → next.Offering) ∧
      (e.build.twoGroups = true → info.retryGroup ≠ 0 →
        next.h.retryGroup = info.retryGroup ∧ c.t.cfg.requirePq = false) := by
  obtain ⟨_,taken,took,ran⟩ := bind_eq_ok.mp ran
  cases ran
  by_cases two : e.build.twoGroups = true
  · rw [if_pos two] at took
    obtain ⟨suite,cfg,offering,named⟩ := hsgTakeRetry_ok took
    exact ⟨suite,cfg,offering,fun _ => named⟩
  · rw [if_neg two] at took
    obtain ⟨_,rfl⟩ := require_eq_ok.mp took
    exact ⟨rfl,rfl,id,fun yes => absurd yes two⟩

/-- A message that is read follows the grammar, but for an empty cookie; its suite
is one the client lists, and in a ServerHello the one a retry fixed. -/
structure ServerHelloRead (e : Env) (raw : Bytes) (c : Core) (msg : ServerHelloMsg) : Prop where
  type : msgType raw = hsServerHello
  accepted : msg.Accepted e.build 0 c.t.cfg.psk.isSome
  spelled : msgBody raw = msg.encode
  offered : msg.suite ∈ helloSuites e.build c.t.cfg
  suite : e.build.aesGcm = true → msg.hrr = false → c.h.suite ≠ 0 → msg.suite = c.h.suite

theorem shSuiteOffered_plain {b : Build} {suite : Nat} (plain : b.aesGcm = false)
    (offered : shSuiteOffered b suite = true) (cfg : Cfg) :
    suite = suiteChacha20Poly1305Sha256 ∧ suite ∈ helloSuites b cfg := by
  have profile : b.cnsa2 = false := by
    rw [Bool.eq_false_iff]
    intro cnsa2
    rw [(b.cnsa2Rules cnsa2).2.2.2] at plain
    cases plain
  have suites : b.clientAesSuites = false := by rw [Build.clientAesSuites,plain,Bool.false_and]
  have one : suite = suiteChacha20Poly1305Sha256 := by
    simpa [shSuiteOffered,profile,suites] using offered
  refine ⟨one,?_⟩
  simp [helloSuites,profile,suites,one]

/-- What a message leaves when it is read: a retry fixes its suite and the group
it names. -/
theorem onServerHello_ok {raw : Bytes} (ran : onServerHello e raw c = (.ok info, next)) :
    ∃ msg : ServerHelloMsg, ServerHelloRead e raw c msg ∧ info = msg.info e.build ∧
      next.t.cfg = c.t.cfg ∧ (c.Offering → next.Offering) ∧
      (e.build.aesGcm = true → next.h.suite = msg.suite) ∧
      (msg.hrr = false → next.h.retryGroup = c.h.retryGroup) ∧
      (msg.hrr = true → ∀ group, .retryShare group ∈ msg.exts →
        next.h.retryGroup = group ∧ c.t.cfg.requirePq = false) := by
  unfold onServerHello at ran
  split at ran
  · cases ran
  rename_i type
  rw [Decidable.not_not] at type
  rcases parsing : parseServerHello e raw c with ⟨rc | read,taken⟩
  · rw [parsing] at ran
    cases ran
  rw [parsing] at ran
  dsimp only at ran
  unfold parseServerHello at parsing
  rcases parsed : hspParseServerHello e.build (msgBody raw) c.t.cfg.psk.isSome
    ServerHelloInfo.zero with ⟨rc | _,out⟩
  · rw [parsed] at parsing
    cases parsing
  rw [parsed] at parsing
  dsimp only at parsing
  rcases took : takeSuite e out c with ⟨rc | _,after⟩
  · rw [took] at parsing
    cases parsing
  rw [took] at parsing
  cases parsing
  obtain ⟨msg,accepted,spelled,rfl⟩ := hspParseServerHello_eq_ok.mp parsed
  obtain ⟨sameT,sameGroup,suites⟩ := takeSuite_ok took
  have report : e.build.aesGcm = true → (msg.info e.build).suite = msg.suite := by
    intro gcm
    rw [msg.info_suite,if_pos gcm]
  have read : ServerHelloRead e raw c msg := by
    refine ⟨type,accepted,spelled,?_,fun gcm hello set => ?_⟩
    · cases gcm : e.build.aesGcm with
      | false => exact (shSuiteOffered_plain gcm accepted.suite c.t.cfg).2
      | true =>
        rw [← report gcm]
        exact (suites gcm).2.1
    · rw [← report gcm]
      exact (suites gcm).2.2 (by rw [msg.info_hrr]; exact hello) set
  have suite : e.build.aesGcm = true → taken.h.suite = msg.suite := fun gcm =>
    (suites gcm).1.trans (report gcm)
  rw [msg.info_hrr] at ran
  by_cases retry : msg.hrr = true
  · rw [if_pos retry] at ran
    unfold orRefuse at ran
    rcases retried : takeRetry e (msg.info e.build) { taken with
      t := hsrRestartTranscript e (hsrSuiteHashLen e.build taken.h) raw taken.t } with
      ⟨rc | _,last⟩
    · rw [retried] at ran
      cases rc <;> cases ran
    rw [retried] at ran
    cases ran
    obtain ⟨sameSuite,cfg,offering,named⟩ := takeRetry_ok retried
    refine ⟨msg,read,rfl,?_,fun held => offering (held.imp sameGroup.trans sameGroup.trans),
      fun gcm => sameSuite.trans (suite gcm),fun no => absurd (retry.symm.trans no) (by decide),
      fun _ group among => ?_⟩
    · rw [cfg,← sameT]
      rfl
    · obtain ⟨_,two,p256⟩ := accepted.allowed _ among
      have fixed := @ServerHelloMsg.info_retryGroup e.build msg accepted.distinct group among
      have filled : (msg.info e.build).retryGroup ≠ 0 := by
        rw [fixed,p256]
        decide
      obtain ⟨group,classic⟩ := named two filled
      have cfg : taken.t.cfg.requirePq = false := classic
      rw [sameT] at cfg
      exact ⟨group.trans fixed,cfg⟩
  · rw [if_neg retry] at ran
    cases ran
    refine ⟨msg,read,rfl,?_,fun held => held.imp sameGroup.trans sameGroup.trans,suite,
      fun _ => sameGroup,fun yes => absurd yes retry⟩
    rw [sameT]

theorem hsfAcceptServerHello_ok (ran : hsfAcceptServerHello e info c = (.ok (), next)) :
    info.haveShare = true ∧
      (e.build.twoGroups = true → hsgSelectedGroupOk c.h info.group = true ∧
        (c.t.cfg.requirePq = true → info.group = groupX25519Mlkem768)) := by
  obtain ⟨_,stored,storing,getting⟩ := bind_eq_ok.mp ran
  cases storing
  obtain ⟨_,_,got,judging⟩ := bind_eq_ok.mp getting
  cases got
  dsimp only at judging
  by_cases absent : (!info.haveShare) = true
  · rw [if_pos absent] at judging
    cases judging
  rw [if_neg absent] at judging
  by_cases wrong : (e.build.twoGroups && !hsgSelectedGroupOk c.h info.group) = true
  · rw [if_pos wrong] at judging
    cases judging
  rw [if_neg wrong] at judging
  obtain ⟨_,accepted,_,keeping⟩ := bind_eq_ok.mp judging
  obtain ⟨_,kept,_,last⟩ := bind_eq_ok.mp keeping
  by_cases weak :
      (e.build.kexHybrid && c.t.cfg.requirePq && info.group != groupX25519Mlkem768) = true
  · rw [if_pos weak] at last
    cases last
  refine ⟨by simpa using absent,fun two => ⟨by simpa [two] using wrong,fun required => ?_⟩⟩
  have hybrid : e.build.kexHybrid = true := by rw [Build.kexHybrid,two,Bool.or_true]
  simpa [hybrid,required] using weak

theorem offered_of_selected {group : Nat} (offering : c.Offering)
    (among : group ∈ shareGroups e.build)
    (selected : e.build.twoGroups = true → hsgSelectedGroupOk c.h group = true ∧
      (c.t.cfg.requirePq = true → group = groupX25519Mlkem768)) :
    group ∈ (helloShares e c).map Prod.fst := by
  unfold shareGroups at among
  unfold helloShares
  by_cases two : e.build.twoGroups = true
  · obtain ⟨chosen,quantum⟩ := selected two
    rw [if_pos two] at among ⊢
    unfold hsgSelectedGroupOk at chosen
    rcases offering with first | retry
    · rw [first,if_neg (by decide)] at chosen
      have classic : group ≠ groupSecp256r1 := by simpa using chosen
      simp only [first,ne_eq,not_true_eq_false,if_false,map_cons,mem_cons]
      cases required : c.t.cfg.requirePq with
      | true => exact .inl (quantum required)
      | false =>
        simp only [mem_cons,not_mem_nil,or_false] at among
        rcases among with hybrid | x25519 | p256
        · exact .inl hybrid
        · exact .inr (by simp [x25519])
        · exact absurd p256 classic
    · have named : c.h.retryGroup ≠ 0 := by rw [retry]; decide
      rw [if_pos named,beq_iff_eq,retry] at chosen
      simp [named,chosen]
  · rw [if_neg two] at among ⊢
    simpa using among

/-- An accepted ServerHello names what the ClientHello offered. -/
theorem accepted_offers {raw : Bytes} {read : Core} (offering : c.Offering)
    (ran : onServerHello e raw c = (.ok info, read)) (hello : info.hrr = false)
    (accepted : hsfAcceptServerHello e info read = (.ok (), next)) :
    ∃ (msg : ServerHelloMsg) (group : Nat) (share : Bytes), ServerHelloRead e raw c msg ∧
      msg.hrr = false ∧ .keyShare group share ∈ msg.exts ∧ Offers e c msg.suite group ∧
      (c.h.retryGroup ≠ 0 → e.build.twoGroups = true → group = c.h.retryGroup) := by
  obtain ⟨msg,taken,rfl,cfg,_,_,sameGroup,_⟩ := onServerHello_ok ran
  rw [msg.info_hrr] at hello
  obtain ⟨shared,selected⟩ := hsfAcceptServerHello_ok accepted
  obtain ⟨share,among⟩ := ServerHelloMsg.info_shared taken.accepted.distinct shared
  have kept := sameGroup hello
  have asked : hsgSelectedGroupOk read.h (msg.info e.build).group =
      hsgSelectedGroupOk c.h (msg.info e.build).group := by
    unfold hsgSelectedGroupOk
    rw [kept]
  rw [asked,cfg] at selected
  refine ⟨msg,_,share,taken,hello,among,⟨taken.offered,?_,helloShares_carried e c⟩,?_⟩
  · exact offered_of_selected offering (taken.accepted.allowed _ among).2.1 selected
  · intro named two
    have chosen := (selected two).1
    unfold hsgSelectedGroupOk at chosen
    rw [if_pos named] at chosen
    exact beq_iff_eq.mp chosen

/-- A HelloRetryRequest that is of the grammar but for its empty cookie. -/
def EmptyCookie (b : Build) (psk : Bool) (body : Bytes) : Prop :=
  ∃ msg : ServerHelloMsg, msg.Accepted b 0 psk ∧ .cookie [] ∈ msg.exts ∧ body = msg.encode

theorem emptyCookie_iff {b : Build} {psk : Bool} {body : Bytes} :
    EmptyCookie b psk body ↔ ∃ info,
      hspParseServerHello b body psk ServerHelloInfo.zero = (.ok (), info) ∧
        info.cookie = some [] := by
  constructor
  · rintro ⟨msg,accepted,empty,spelled⟩
    exact ⟨_,hspParseServerHello_eq_ok.mpr ⟨msg,accepted,spelled,rfl⟩,
      (msg.info_cookie accepted.distinct).mpr empty⟩
  · rintro ⟨info,parsed,empty⟩
    obtain ⟨msg,accepted,spelled,rfl⟩ := hspParseServerHello_eq_ok.mp parsed
    exact ⟨msg,accepted,(msg.info_cookie accepted.distinct).mp empty,spelled⟩

theorem ServerHelloMsg.Accepted.filled {b : Build} {psk : Bool} {msg : ServerHelloMsg}
    (accepted : msg.Accepted b 1 psk) : ¬ EmptyCookie b psk msg.encode := by
  rw [emptyCookie_iff,hspParseServerHello_eq_ok.mpr ⟨msg,accepted.spare,rfl,rfl⟩]
  rintro ⟨info,parsed,empty⟩
  cases parsed
  have among := (msg.info_cookie accepted.distinct).mp empty
  exact absurd (accepted.allowed _ among).2.1 (by decide)

/-- The messages the client takes are those of the grammar, but for exactly the
retries with an empty cookie.  A ServerHello it goes on with names a suite and a
group of its ClientHello, and after a retry the suite of the retry and the group
it named. -/
theorem serverHello_exact (e : Env) :
    (∀ body psk,
      ((∃ info, hspParseServerHello e.build body psk ServerHelloInfo.zero = (.ok (), info)) ↔
        ∃ msg : ServerHelloMsg, msg.Accepted e.build 1 psk ∧ body = msg.encode) ↔
      ¬ EmptyCookie e.build psk body) ∧
      (∀ c raw info read, c.Offering → onServerHello e raw c = (.ok info, read) → read.Offering) ∧
      (∀ c raw info read next, c.Offering → onServerHello e raw c = (.ok info, read) →
        info.hrr = false → hsfAcceptServerHello e info read = (.ok (), next) →
        ∃ (msg : ServerHelloMsg) (group : Nat) (share : Bytes), ServerHelloRead e raw c msg ∧
          .keyShare group share ∈ msg.exts ∧ Offers e c msg.suite group) ∧
      (∀ c raw info retried sent raw' info' read next, c.Offering →
        onServerHello e raw c = (.ok info, retried) → info.hrr = true →
        sent.chosen = retried.chosen → onServerHello e raw' sent = (.ok info', read) →
        info'.hrr = false → hsfAcceptServerHello e info' read = (.ok (), next) →
        ∃ (retry msg : ServerHelloMsg) (group : Nat) (share : Bytes),
          ServerHelloRead e raw c retry ∧
          ServerHelloRead e raw' sent msg ∧ .keyShare group share ∈ msg.exts ∧
          Offers e sent msg.suite group ∧ msg.suite = retry.suite ∧
          ∀ named, .retryShare named ∈ retry.exts → group = named) ∧
      Keeps Core.chosen (hsfBuildClientHello e) ∧
      Keeps (fun s : St => s.core.chosen) (hsrNextMsg e) := by
  refine ⟨fun body psk => ⟨fun exact empty => ?_,fun filled => ⟨?_,?_⟩⟩,?_,?_,?_,?_,?_⟩
  · obtain ⟨info,parsed,_⟩ := emptyCookie_iff.mp empty
    obtain ⟨msg,accepted,rfl⟩ := exact.mp ⟨info,parsed⟩
    exact accepted.filled empty
  · rintro ⟨info,parsed⟩
    obtain ⟨msg,accepted,spelled,_⟩ := hspParseServerHello_eq_ok.mp parsed
    exact ⟨msg,accepted.strict fun empty => filled ⟨msg,accepted,empty,spelled⟩,spelled⟩
  · rintro ⟨msg,accepted,spelled⟩
    exact ⟨_,hspParseServerHello_eq_ok.mpr ⟨msg,accepted.spare,spelled,rfl⟩⟩
  · intro c raw info read offering ran
    obtain ⟨_,_,_,_,held,_⟩ := onServerHello_ok ran
    exact held offering
  · intro c raw info read next offering ran hello accepted
    obtain ⟨msg,group,share,taken,_,among,offers,_⟩ :=
      accepted_offers offering ran hello accepted
    exact ⟨msg,group,share,taken,among,offers⟩
  · intro c raw info retried sent raw' info' read next offering ran again same ran' hello accepted
    obtain ⟨retry,took,rfl,_,held,suite,_,fixed⟩ := onServerHello_ok ran
    rw [retry.info_hrr] at again
    obtain ⟨msg,group,share,taken,plain,among,offers,only⟩ :=
      accepted_offers ((held offering).of_chosen same) ran' hello accepted
    simp only [Core.chosen,Prod.mk.injEq] at same
    refine ⟨retry,msg,group,share,took,taken,among,offers,?_,fun named asked => ?_⟩
    · cases gcm : e.build.aesGcm with
      | false =>
        rw [(shSuiteOffered_plain gcm taken.accepted.suite c.t.cfg).1,
          (shSuiteOffered_plain gcm took.accepted.suite c.t.cfg).1]
      | true =>
        have known : sent.h.suite = retry.suite := same.1.trans (suite gcm)
        have set : sent.h.suite ≠ 0 := by
          have each : ∀ suite ∈ [suiteChacha20Poly1305Sha256,suiteAes128GcmSha256,
              suiteAes256GcmSha384], suite ≠ 0 := by decide
          rw [known]
          exact each _ (shSuiteOffered_known took.accepted.suite)
        exact (taken.suite gcm plain set).trans known
    · obtain ⟨_,two,p256⟩ := took.accepted.allowed _ asked
      have kept : sent.h.retryGroup = named := same.2.1.trans (fixed again named asked).1
      have set : sent.h.retryGroup ≠ 0 := by
        rw [kept,p256]
        decide
      exact (only set two).trans kept
  · intro c
    unfold hsfBuildClientHello
    split <;> rfl
  · exact fun s => congrArg (fun view : Tls × Hs × List Bytes =>
      (view.2.1.suite, view.2.1.retryGroup, view.1.cfg)) (hsrNextMsg_protocol e s)

end Handlers

def sampleRetry : ServerHelloMsg where
  random := hrrMagic
  suite := suiteChacha20Poly1305Sha256
  exts := [.supportedVersions tls13,.cookie [1,2]]

def sampleAnswer : ServerHelloMsg where
  random := replicate 32 9
  suite := suiteChacha20Poly1305Sha256
  exts := [.keyShare groupX25519 (replicate 32 8),.supportedVersions tls13]

def sampleHelloEnv : Env := .sample (.plain .tcpBlocking .client)

def sampleHelloCore : Core := ⟨Tls.fresh Cfg.unset,Hs.wiped⟩

/-- A retry with an empty cookie is taken, and is not of the grammar. -/
theorem serverHello_empty_cookie : let body := ServerHelloMsg.encode { sampleRetry with exts :=
      [.supportedVersions tls13,.cookie []] }
    (∃ info, hspParseServerHello sampleHelloEnv.build body false ServerHelloInfo.zero =
        (.ok (), info)) ∧
      ¬ ∃ msg : ServerHelloMsg, msg.Accepted sampleHelloEnv.build 1 false ∧ body = msg.encode := by
  have parsed : hspParseServerHello sampleHelloEnv.build
      (ServerHelloMsg.encode { sampleRetry with exts := [.supportedVersions tls13,.cookie []] })
      false ServerHelloInfo.zero = (.ok (), ServerHelloMsg.info sampleHelloEnv.build
        { sampleRetry with exts := [.supportedVersions tls13,.cookie []] }) := by decide +kernel
  refine ⟨⟨_,parsed⟩,?_⟩
  rintro ⟨msg,accepted,spelled⟩
  refine accepted.filled ?_
  rw [← spelled]
  exact emptyCookie_iff.mpr ⟨_,parsed,rfl⟩

def sampleRetried : Except Rc ServerHelloInfo × Core :=
  onServerHello sampleHelloEnv (handshakeMessage hsServerHello sampleRetry.encode) sampleHelloCore

def sampleAnswered : Except Rc ServerHelloInfo × Core :=
  onServerHello sampleHelloEnv (handshakeMessage hsServerHello sampleAnswer.encode) sampleRetried.2

theorem sampleRetry_filled : ¬ EmptyCookie sampleHelloEnv.build false sampleRetry.encode := by
  rw [emptyCookie_iff]
  rintro ⟨info,parsed,empty⟩
  have kept : (hspParseServerHello sampleHelloEnv.build sampleRetry.encode false
      ServerHelloInfo.zero).2.cookie = some [1,2] := by decide +kernel
  rw [parsed] at kept
  cases empty.symm.trans kept

theorem serverHello_exact_retried :
    (∃ msg : ServerHelloMsg, msg.Accepted sampleHelloEnv.build 1 false ∧
        sampleRetry.encode = msg.encode) ∧
      ∃ (retry msg : ServerHelloMsg) (group : Nat) (share : Bytes),
        .keyShare group share ∈ msg.exts ∧ Offers sampleHelloEnv sampleRetried.2 msg.suite group ∧
          msg.suite = retry.suite := by
  have read : sampleRetried.1 = .ok (sampleRetry.info sampleHelloEnv.build) := by decide +kernel
  have answered : sampleAnswered.1 = .ok (sampleAnswer.info sampleHelloEnv.build) := by
    decide +kernel
  obtain ⟨exact,_,_,offers,_⟩ := serverHello_exact sampleHelloEnv
  refine ⟨((exact _ _).mpr sampleRetry_filled).mp ⟨sampleRetry.info sampleHelloEnv.build,by
    decide +kernel⟩,?_⟩
  obtain ⟨retry,msg,group,share,_,_,among,offers,same,_⟩ := offers sampleHelloCore
    (handshakeMessage hsServerHello sampleRetry.encode) _ _ sampleRetried.2
    (handshakeMessage hsServerHello sampleAnswer.encode) _ sampleAnswered.2 _ (.inl rfl)
    (by rw [← read]; rfl) (by decide +kernel) rfl (by rw [← answered]; rfl) (by decide +kernel)
    (eq_ok_of_toBool (by decide +kernel))
  exact ⟨retry,msg,group,share,among,offers,same⟩

end Chapulin
