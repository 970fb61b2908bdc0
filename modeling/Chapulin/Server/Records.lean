/-
The records a TCP server sends during its handshake, by their outer types.

A predicate says which types an action adds to the output when it returns; such
facts compose along the sequence of a flight, so that the output of a driver is
read off its steps.
-/

import Chapulin.Server.Nonblocking

namespace Chapulin

open Lib Proc List

def St.kinds (s : St) : List Nat := s.io.sent.map recordType

def AllSealed (kinds : List Nat) : Prop := ∀ kind ∈ kinds, kind = recAppdata

theorem allSealed_nil : AllSealed [] := nofun

theorem AllSealed.append {left right : List Nat} (first : AllSealed left)
    (second : AllSealed right) : AllSealed (left ++ right) :=
  forall_mem_append.mpr ⟨first,second⟩

theorem allSealed_single : AllSealed [recAppdata] := by
  intro kind among
  exact mem_singleton.mp among

def Emits {α : Type} (shape : List Nat → Prop) (act : Act α) : Prop :=
  ∀ s value next, act s = (.ok value, next) →
    next.rx.taken = s.rx.taken ∧ ∃ more, next.kinds = s.kinds ++ more ∧ shape more

section Composition

variable {α β : Type} {shape : List Nat → Prop}

theorem KeepsLedger.emits {act : Act α} (kept : KeepsLedger act) : Emits (· = []) act := by
  intro s value next ran
  have same := kept.of_eq ran
  simp only [St.ledger,Prod.mk.injEq] at same
  refine ⟨same.1,[],?_,rfl⟩
  rw [append_nil,St.kinds,same.2.1,St.kinds]

theorem Emits.after {first : Act α} {rest : α → Act β} (head : Emits (· = []) first)
    (tail : ∀ value, Emits shape (rest value)) : Emits shape (first >>= rest) := by
  intro s value next ran
  obtain ⟨middle,between,started,ran⟩ := bind_eq_ok.mp ran
  obtain ⟨taken,absent,kinds,rfl⟩ := head s middle between started
  obtain ⟨taken',more,kinds',shaped⟩ := tail middle between value next ran
  rw [append_nil] at kinds
  exact ⟨taken'.trans taken,more,kinds ▸ kinds',shaped⟩

theorem Emits.sealed_bind {first : Act α} {rest : α → Act β} (head : Emits AllSealed first)
    (tail : ∀ value, Emits AllSealed (rest value)) : Emits AllSealed (first >>= rest) := by
  intro s value next ran
  obtain ⟨middle,between,started,ran⟩ := bind_eq_ok.mp ran
  obtain ⟨taken,filled,kinds,shaped⟩ := head s middle between started
  obtain ⟨taken',more,kinds',shaped'⟩ := tail middle between value next ran
  refine ⟨taken'.trans taken,filled ++ more,?_,shaped.append shaped'⟩
  rw [kinds',kinds,append_assoc]

theorem emits_pure (value : α) : Emits (· = []) (pure value : Act α) :=
  KeepsLedger.emits (keeps_pure value)

theorem Emits.sealed {act : Act α} (absent : Emits (· = []) act) : Emits AllSealed act := by
  intro s value next ran
  obtain ⟨taken,more,kinds,rfl⟩ := absent s value next ran
  exact ⟨taken,[],kinds,allSealed_nil⟩

theorem Emits.ite {condition : Prop} [Decidable condition] {yes no : Act α}
    (left : Emits shape yes) (right : Emits shape no) :
    Emits shape (if condition then yes else no) := by
  split
  · exact left
  · exact right

end Composition

/-! ### Output -/

theorem sendLoop_all {fuel : Nat} {p taken : Bytes} {plan rest : List Nat}
    (all : sendLoop fuel p plan = (true, taken, rest)) : taken = p := by
  induction fuel generalizing p taken plan rest with
  | zero =>
    cases p with
    | nil =>
      cases all
      rfl
    | cons first p => cases all
  | succ fuel ih =>
    cases p with
    | nil =>
      cases all
      rfl
    | cons first p =>
      cases plan with
      | nil =>
        cases all
        rfl
      | cons took plan =>
        unfold sendLoop at all
        split at all
        · cases all
        dsimp only at all
        rcases more : sendLoop fuel ((first :: p).drop took) plan with ⟨fine,tail,left⟩
        rw [more] at all
        simp only [Prod.mk.injEq] at all
        obtain ⟨rfl,rfl,_⟩ := all
        rw [ih more,take_append_drop]

theorem ioSendAll_sent {p : Bytes} {io next : Io} (ran : ioSendAll p io = (.ok (), next)) :
    next.sent = io.sent ++ [p] := by
  unfold ioSendAll at ran
  rcases sent : sendLoop p.length p io.sendPlan with ⟨all,taken,plan⟩
  rw [sent] at ran
  cases all with
  | false => cases ran
  | true =>
    cases ran
    rw [sendLoop_all sent]

section Output

variable (e : Env)

theorem srvEmit_sent {p : Bytes} {io next : Io} (ran : srvEmit e p io = (.ok (), next)) :
    next.sent = io.sent ++ [p] := by
  unfold srvEmit at ran
  by_cases nonblocking : e.build.transport = .tcpNonblocking
  · rw [if_pos nonblocking] at ran
    unfold onRecordOut at ran
    dsimp only at ran
    split at ran
    · cases ran
      rfl
    · cases ran
  · rw [if_neg nonblocking] at ran
    exact ioSendAll_sent ran

theorem srvOutRecord_emits (rec : Bytes) : Emits (· = [recordType rec]) (srvOutRecord e rec) := by
  intro s value next ran
  unfold srvOutRecord orInternalError onIo Proc.within at ran
  rcases sent : srvEmit e rec s.io with ⟨rc | _,io⟩
  · rw [sent] at ran
    cases ran
  · rw [sent] at ran
    cases ran
    refine ⟨rfl,[recordType rec],?_,rfl⟩
    simp only [St.kinds,srvEmit_sent e sent,map_append,map_cons,map_nil]

theorem srvOutPlain_emits (tcp : e.build.quic = false) (msg : Bytes) :
    Emits (· = [recHandshake]) (srvOutPlain e msg) := by
  intro s value next ran
  simp only [srvOutPlain,tcp,Bool.false_eq_true,if_false] at ran
  exact srvOutRecord_emits e _ (stageTx _ s) value next ran

theorem srvOutSealedLoop_emits (fuel : Nat) (pt : Bytes) :
    Emits AllSealed (srvOutSealedLoop e fuel pt) := by
  induction fuel generalizing pt with
  | zero => exact (emits_pure ()).sealed
  | succ fuel ih =>
    intro s value next ran
    unfold srvOutSealedLoop at ran
    split at ran
    · cases ran
      exact ⟨rfl,[],(append_nil _).symm,allSealed_nil⟩
    dsimp only at ran
    split at ran
    · cases ran
    rename_i record wr sealed
    obtain ⟨_,_,_,_,shape,_⟩ := recSeal_eq_some.mp sealed
    split at ran
    · cases ran
    rename_i middle out
    obtain ⟨taken,one,kinds,rfl⟩ := srvOutRecord_emits e _ _ _ _ out
    obtain ⟨taken',more,kinds',all⟩ := ih _ _ _ _ ran
    have type : recordType record = recAppdata := by rw [shape]; rfl
    rw [type] at kinds
    refine ⟨taken'.trans taken,[recAppdata] ++ more,?_,allSealed_single.append all⟩
    rw [kinds',kinds,append_assoc]
    rfl

theorem srvOutSealed_emits (tcp : e.build.quic = false) (pt : Bytes) :
    Emits AllSealed (srvOutSealed e pt) := by
  unfold srvOutSealed
  rw [tcp]
  exact srvOutSealedLoop_emits e _ pt

theorem onCore_emits {α : Type} (handler : Handler α) : Emits (· = []) (onCore handler) :=
  (onCore_ledger handler).emits

variable (tcp : e.build.quic = false)
include tcp

theorem srvSendServerHello_emits (ch : ClientHello)
    (sel : Selection) : Emits (· = [recHandshake]) (srvSendServerHello e ch sel) :=
  (onCore_emits _).after fun msg => srvOutPlain_emits e tcp msg

theorem srvSendHelloRetryRequest_emits (ch : ClientHello)
    (sel : Selection) : Emits (· = [recHandshake]) (srvSendHelloRetryRequest e ch sel) :=
  (onCore_emits _).after fun msg => srvOutPlain_emits e tcp msg

/-- The types of the records `srv_send_compat_ccs` sends for a session id. -/
def compatKinds (sessionId : Bytes) : List Nat := if sessionId = [] then [] else [recCcs]

theorem srvSendCompatCcs_emits (ch : ClientHello) :
    Emits (· = compatKinds ch.sessionId) (srvSendCompatCcs e ch) := by
  unfold srvSendCompatCcs compatKinds
  rw [tcp,Bool.false_or]
  cases ch.sessionId with
  | nil => exact emits_pure ()
  | cons first rest => exact (onCore_emits _).after fun _ => srvOutRecord_emits e _

theorem srvFragLoop_emits (fuel : Nat) (msg : Bytes) :
    Emits AllSealed (srvFragLoop e fuel msg) := by
  induction fuel generalizing msg with
  | zero => exact (emits_pure ()).sealed
  | succ fuel ih =>
    refine .ite (emits_pure ()).sealed ?_
    exact Emits.after (KeepsLedger.emits keeps_get) fun s => (onCore_emits _).after fun _ =>
      (srvOutSealed_emits e tcp _).sealed_bind fun _ => ih _

theorem srvSendCertificate_emits (sel : Selection) :
    Emits AllSealed (srvSendCertificate e sel) := by
  intro s value next ran
  unfold srvSendCertificate at ran
  split at ran
  · cases ran
  split at ran
  · cases ran
  · exact srvFragLoop_emits e tcp _ _ s value next ran

theorem srvProtectedFlight_emits (sel : Selection) :
    Emits AllSealed (srvProtectedFlight e sel) := by
  have extensions : Emits AllSealed (srvSendEncryptedExtensions e sel) :=
    (onCore_emits _).after fun msg => srvOutSealed_emits e tcp msg
  have verify : Emits AllSealed (srvSendCertificateVerify e sel) :=
    (onCore_emits _).after fun msg => .ite (srvFragLoop_emits e tcp _ msg)
      ((onCore_emits _).after fun _ => srvOutSealed_emits e tcp msg)
  have auth : Emits AllSealed (srvAuthMessages e sel) :=
    .ite (emits_pure ()).sealed ((srvSendCertificate_emits e tcp sel).sealed_bind fun _ => verify)
  have finished : Emits AllSealed (srvSendFinished e) :=
    (onCore_emits _).after fun msg => (srvOutSealed_emits e tcp msg).sealed_bind fun _ =>
      (onCore_emits _).sealed
  exact extensions.sealed_bind fun _ => auth.sealed_bind fun _ => finished

theorem srvSendNewSessionTicket_emits : Emits AllSealed (srvSendNewSessionTicket e) := by
  refine (onCore_emits _).after fun msg => ?_
  cases msg with
  | none => exact (emits_pure ()).sealed
  | some msg => exact srvOutSealed_emits e tcp msg

end Output

/-! ### Messages -/

section Messages

variable (e : Env)

theorem srvNextMsg_takes : Takes (srvNextMsg e) := by
  intro s raw next ran
  unfold srvNextMsg at ran
  split at ran
  · cases ran
  · cases ran
  · rename_i read
    cases ran
    exact hsrNextMsg_takes e s _ _ read

def helloSessionId (cfg : Cfg) (raw : Bytes) : Bytes :=
  match srvParseClientHello e.toCrypto e.build (msgBody raw) cfg.alpnProtocols with
  | .ok ch => ch.sessionId
  | .error _ => []

theorem onClientHello_sessionId {raw : Bytes} {c next : Core} {ch : ClientHello}
    (ran : onClientHello e raw c = (.ok ch, next)) :
    ch.sessionId = helloSessionId e c.t.cfg raw := by
  unfold onClientHello at ran
  split at ran
  · cases ran
  unfold helloSessionId
  split at ran
  · cases ran
  · rename_i parsed accepted
    dsimp only at ran
    split at ran
    · cases ran
    · cases ran
      rw [accepted]
      unfold withBinderHashes
      split <;> rfl

/-- Reading a ClientHello takes one message and sends none. -/
theorem srvReadClientHello_takes {s next : St} {ch : ClientHello}
    (ran : srvReadClientHello e s = (.ok ch, next)) :
    ∃ raw, next.rx.taken = s.rx.taken ++ [raw] ∧ next.kinds = s.kinds ∧
      next.t.cfg = s.t.cfg ∧ ch.sessionId = helloSessionId e s.t.cfg raw := by
  have cfg :=
    congrArg (fun settings => settings.1.1) ((srvReadClientHello_exchange e).fixes.of_eq ran)
  obtain ⟨raw,middle,read,ran⟩ := bind_eq_ok.mp ran
  have taken := srvNextMsg_takes e s raw middle read
  have before := congrArg (fun parts => parts.1.cfg) ((srvNextMsg_protocol e).of_eq read)
  have ledger := (onCore_ledger (onClientHello e raw)).of_eq ran
  rw [taken] at ledger
  simp only [St.ledger,Prod.mk.injEq] at ledger
  refine ⟨raw,ledger.1,?_,cfg,?_⟩
  · rw [St.kinds,ledger.2.1,St.kinds]
  · have handled : onClientHello e raw middle.core = (.ok ch, next.core) := by
      rcases inner : onClientHello e raw middle.core with ⟨result,c⟩
      simp only [onCore,Proc.within,inner,Prod.mk.injEq] at ran
      rw [ran.1,← ran.2]
      rfl
    have id := onClientHello_sessionId e handled
    change ch.sessionId = helloSessionId e middle.t.cfg raw at id
    have same : middle.t.cfg = s.t.cfg := before
    rwa [same] at id

theorem srvReadClientFinished_takes {s next : St}
    (ran : srvReadClientFinished e s = (.ok (), next)) :
    ∃ raw, next.rx.taken = s.rx.taken ++ [raw] ∧ next.kinds = s.kinds := by
  obtain ⟨before,start,got,ran⟩ := bind_eq_ok.mp ran
  cases got
  obtain ⟨raw,middle,read,ran⟩ := bind_eq_ok.mp ran
  have taken := srvNextMsg_takes e s raw middle read
  have ledger := (onCore_ledger _).of_eq ran
  rw [taken] at ledger
  simp only [St.ledger,Prod.mk.injEq] at ledger
  refine ⟨raw,ledger.1,?_⟩
  rw [St.kinds,ledger.2.1,St.kinds]

end Messages

end Chapulin
