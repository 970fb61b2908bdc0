/-
How many records a TCP server seals under its handshake keys.

Its messages are cut into records of at least two bytes: the least limit a
client may ask for is 64, and a build stages at least 512.  So the longest
Certificate a configuration passes stays below the ceiling of AES-GCM, with the
other messages and an alert.
-/

import Chapulin.Server.Accept
import Chapulin.Tcp.Moves

namespace Chapulin

open Lib Proc List

variable {bound : Nat} {sel : Selection} {next s : St}

/-! ### The limit of a hello -/

/-- A hello that asks for no limit, or for one that leaves records of 63 bytes. -/
def ClientHello.LimitFair (ch : ClientHello) : Prop :=
  ch.recordSizeLimit = 0 ∨ 63 ≤ ch.recordSizeLimit

section Extensions

variable {c : Crypto} {b : Build} {offered : List Bytes} {off : Nat} {ch : ClientHello}

theorem HelloExt.keep_fair {ext : HelloExt} (judged : ext.judge b = none) (fair : ch.LimitFair) :
    (ext.keep b offered off ch).LimitFair := by
  have kept {next : ClientHello} (same : next.recordSizeLimit = ch.recordSizeLimit) :
      next.LimitFair := by
    rw [ClientHello.LimitFair,same]
    exact fair
  cases ext with
  | recordSizeLimit limit =>
    by_cases low : limit < 64
    · simp [judge,low] at judged
    · exact .inr (Nat.le_sub_one_of_lt (Nat.not_lt.mp low))
  | alpn names =>
    exact kept (foldl_keeps fun name _ => alpnOffered_keeps (fun _ _ => rfl) offered name)
  | keyShare shares =>
    exact kept (foldl_keeps fun share _ => shareKeep_keeps (fun _ _ => rfl) b share)
  | _ => exact fair

theorem HelloExt.noteAll_fair {exts : List HelloExt} (allowed : ∀ ext ∈ exts, ext.Allowed b)
    (fair : ch.LimitFair) : (HelloExt.noteAll b offered off exts ch).LimitFair := by
  induction exts generalizing off ch with
  | nil => exact fair
  | cons ext exts ih =>
    refine ih (forall_mem_cons.mp allowed).2 ?_
    unfold note
    split
    · exact keep_fair (allowed ext mem_cons_self).2 fair
    · exact fair

theorem srvParseClientHello_fair {body : Bytes}
    (parsed : srvParseClientHello c b body offered = .ok ch) : ch.LimitFair := by
  obtain ⟨head,exts,accepted⟩ := accepted_of_parsed parsed
  obtain ⟨off,_,read⟩ := @HelloAccepted.parsed c b offered body head exts accepted
  cases read.symm.trans parsed
  exact @HelloExt.noteAll_fair b offered off (head.keep b ClientHello.zero) exts accepted.allowed
    (.inl rfl)

end Extensions

/-! ### Records of a message -/

section Counting

variable (e : Env)

structure Cut (s : St) : Prop where
  configured : srvConfigOk e s.t.cfg = true
  wide : 2 ≤ srvOutLimit e s.t
  short : s.t.hashLen ≤ sha384Len

def CutUpTo (bound : Nat) (s : St) : Prop := Cut e s ∧ s.t.wr.seq ≤ bound

/-- An action that seals at most `count` records, however it ends. -/
def Counts {α : Type} (count : Nat) (act : Act α) : Prop :=
  ∀ bound, Triple (CutUpTo e bound) act (fun _ => CutUpTo e (bound + count))
    (fun _ => CutUpTo e (bound + count))

variable {e} {α β : Type} {count more : Nat}

theorem CutUpTo.mono {wider : Nat} (cut : CutUpTo e bound s)
    (wide : bound ≤ wider) : CutUpTo e wider s := ⟨cut.1,Nat.le_trans cut.2 wide⟩

/-- The records of acts in sequence add up. -/
theorem Counts.bind {first : Act α} {rest : α → Act β} (head : Counts e count first)
    (tail : ∀ value, Counts e more (rest value)) : Counts e (count + more) (first >>= rest) := by
  intro bound s cut
  have began := head bound s cut
  rw [Proc.bind_apply]
  rcases ran : first s with ⟨rc | value,middle⟩
  · rw [ran] at began
    exact CutUpTo.mono began (by omega)
  · rw [ran] at began
    have done := tail value (bound + count) middle began
    rw [Nat.add_assoc] at done
    exact done

theorem Counts.built (good : α → Prop) {first : Act α} {rest : α → Act β} (head : Counts e 0 first)
    (returns : ∀ s value next, Cut e s → first s = (.ok value, next) → good value)
    (tail : ∀ value, good value → Counts e count (rest value)) :
    Counts e count (first >>= rest) := by
  intro bound s cut
  have began := head bound s cut
  rw [Proc.bind_apply]
  rcases ran : first s with ⟨rc | value,middle⟩
  · rw [ran] at began
    exact CutUpTo.mono began (Nat.le_add_right _ _)
  · rw [ran] at began
    exact tail value (returns s value middle cut.1 ran) bound middle began

theorem Counts.ite {condition : Prop} [Decidable condition] {yes no : Act α}
    (left : Counts e count yes) (right : Counts e count no) :
    Counts e count (if condition then yes else no) := by
  split
  · exact left
  · exact right

theorem Counts.mono {act : Act α} (counts : Counts e count act) (fewer : count ≤ more) :
    Counts e more act := by
  intro bound s cut
  have wide : bound + count ≤ bound + more := by omega
  exact (counts bound s cut).mono (fun _ _ cut => cut.mono wide) fun _ _ cut => cut.mono wide

theorem counts_of_kept {act : Act α} (kept : Keeps (fun s => s.t.kept) act) : Counts e 0 act := by
  intro bound s cut
  have same := kept s
  have cfg : (act s).2.t.cfg = s.t.cfg := congrArg Tls.Kept.cfg same
  have limit : (act s).2.t.peerLimit = s.t.peerLimit := congrArg Tls.Kept.peerLimit same
  have hash : (act s).2.t.hashLen = s.t.hashLen := congrArg Tls.Kept.hashLen same
  have wr : (act s).2.t.wr = s.t.wr := congrArg Tls.Kept.wr same
  refine ends_of_state (CutUpTo e bound) ⟨⟨?_,?_,?_⟩,?_⟩ fun _ cut => cut
  · rw [cfg]
    exact cut.1.configured
  · unfold srvOutLimit
    rw [limit]
    exact cut.1.wide
  · rw [hash]
    exact cut.1.short
  · rw [wr]
    exact cut.2

theorem Steady.counts {handler : Handler α} (steady : Steady handler) :
    Counts e 0 (onCore handler) := counts_of_kept fun s => steady s.core

theorem stopAlert_counts (alert : Nat) (rc : Rc) : Counts e count (stopAlert alert rc : Act α) :=
  (steady_refuse alert rc).counts.mono (Nat.zero_le _)

variable (e)

theorem srvOutRecord_counts (rec : Bytes) : Counts e 0 (srvOutRecord e rec) := by
  refine counts_of_kept fun s => ?_
  have sent : (onIo (srvEmit e rec) s).2.t.kept = s.t.kept := rfl
  unfold srvOutRecord orInternalError
  split <;>
    · rename_i ran
      rw [ran] at sent
      exact sent

theorem sealed_cut (cut : CutUpTo e bound s) {type cap : Nat}
    {pt rec : Bytes} {wr : RecDir} (sealed : recSeal e s.t.wr type pt cap = some (rec, wr)) :
    CutUpTo e (bound + 1) (stageTx rec { s with t := { s.t with wr := wr } }) := by
  obtain ⟨_,_,_,_,_,rfl⟩ := recSeal_eq_some.mp sealed
  exact ⟨⟨cut.1.configured,cut.1.wide,cut.1.short⟩,Nat.succ_le_succ cut.2⟩

theorem srvOutSealedLoop_counts (fuel : Nat) (pt : Bytes) :
    Counts e fuel (srvOutSealedLoop e fuel pt) := by
  induction fuel generalizing pt with
  | zero => exact counts_of_kept fun _ => rfl
  | succ fuel ih =>
    intro bound s cut
    unfold srvOutSealedLoop
    split
    · exact cut.mono (Nat.le_add_right _ _)
    dsimp only
    split
    · exact stopAlert_counts _ _ bound s cut
    rename_i record wr sealed
    have sent := srvOutRecord_counts e record _ _ (sealed_cut e cut sealed)
    split
    · rename_i ran
      rw [ran] at sent
      exact CutUpTo.mono sent (by omega)
    · rename_i ran
      rw [ran] at sent
      have rest := ih (pt.drop (min pt.length (srvOutLimit e s.t))) _ _ sent
      rwa [Nat.add_zero,Nat.add_assoc,Nat.add_comm 1 fuel] at rest

theorem srvOutSealed_counts (tcp : e.build.quic = false) (pt : Bytes) :
    Counts e pt.length (srvOutSealed e pt) := by
  unfold srvOutSealed
  rw [tcp]
  exact srvOutSealedLoop_counts e _ pt

theorem srvOutSealedLoop_nil (fuel : Nat) (s : St) :
    srvOutSealedLoop e fuel [] s = (.ok (), s) := by
  cases fuel <;> rfl

theorem srvOutSealed_one (tcp : e.build.quic = false) {pt : Bytes}
    (cut : CutUpTo e bound s) (piece : pt.length ≤ srvOutLimit e s.t) :
    Ends (fun _ => CutUpTo e (bound + 1)) (fun _ => CutUpTo e (bound + 1))
      (srvOutSealed e pt s) := by
  unfold srvOutSealed
  rw [tcp]
  change Ends _ _ (srvOutSealedLoop e pt.length pt s)
  generalize pt.length = fuel
  cases fuel with
  | zero => exact cut.mono (Nat.le_succ _)
  | succ fuel =>
    unfold srvOutSealedLoop
    split
    · exact cut.mono (Nat.le_succ _)
    dsimp only
    split
    · exact stopAlert_counts _ _ bound s cut
    rename_i record wr sealed
    have sent := srvOutRecord_counts e record _ _ (sealed_cut e cut sealed)
    split
    · rename_i ran
      rw [ran] at sent
      exact sent
    · rename_i ran
      rw [ran] at sent
      have all : pt.drop (min pt.length (srvOutLimit e s.t)) = [] := by
        rw [Nat.min_eq_left piece,drop_length]
      rw [all,srvOutSealedLoop_nil]
      exact sent

/-- A record carries at least two bytes of a message. -/
theorem srvFragLoop_counts (tcp : e.build.quic = false) (fuel : Nat) (msg : Bytes) :
    Counts e ((msg.length + 1) / 2) (srvFragLoop e fuel msg) := by
  induction fuel generalizing msg with
  | zero => exact Counts.mono (counts_of_kept fun _ => rfl) (Nat.zero_le _)
  | succ fuel ih =>
    intro bound s cut
    unfold srvFragLoop
    by_cases empty : msg = []
    · rw [if_pos empty]
      exact cut.mono (Nat.le_add_right _ _)
    rw [if_neg empty]
    have filled : msg.length ≠ 0 := fun absent => empty (length_eq_zero_iff.mp absent)
    have wide := cut.1.wide
    change Ends _ _ ((do
      onCore (absorbSelected s.t.hashLen
        (msg.take (min msg.length (min (srvOutLimit e s.t) 512))))
      srvOutSealed e (msg.take (min msg.length (min (srvOutLimit e s.t) 512)))
      srvFragLoop e fuel (msg.drop (min msg.length (min (srvOutLimit e s.t) 512)))) s)
    generalize size : min msg.length (min (srvOutLimit e s.t) 512) = take
    have absorbed : CutUpTo e bound (onCore (absorbSelected s.t.hashLen (msg.take take)) s).2 :=
      (absorbSelected_steady s.t.hashLen (msg.take take)).counts bound s cut
    have fits : (msg.take take).length ≤
        srvOutLimit e (onCore (absorbSelected s.t.hashLen (msg.take take)) s).2.t := by
      change (msg.take take).length ≤ srvOutLimit e s.t
      rw [length_take]
      omega
    change Ends _ _ ((srvOutSealed e (msg.take take) >>= fun _ =>
      srvFragLoop e fuel (msg.drop take)) (onCore (absorbSelected s.t.hashLen (msg.take take)) s).2)
    generalize (onCore (absorbSelected s.t.hashLen (msg.take take)) s).2 = middle at absorbed fits ⊢
    have sent := srvOutSealed_one e tcp absorbed fits
    rw [Proc.bind_apply]
    rcases ran : srvOutSealed e (msg.take take) middle with ⟨rc | _,next⟩
    · rw [ran] at sent
      exact CutUpTo.mono sent (by omega)
    · rw [ran] at sent
      have left : (msg.drop take).length = msg.length - take := length_drop
      have fewer : bound + 1 + ((msg.drop take).length + 1) / 2 ≤ bound + (msg.length + 1) / 2 := by
        omega
      exact ((ih (msg.drop take)) _ next sent).mono (fun _ _ cut => cut.mono fewer)
        fun _ _ cut => cut.mono fewer

/-! ### The protected messages -/

theorem onCore_eq_ok {α : Type} {handler : Handler α} {value : α}
    (ran : onCore handler s = (.ok value, next)) : ∃ c, handler s.core = (.ok value, c) := by
  unfold onCore Proc.within at ran
  rcases inner : handler s.core with ⟨result,c⟩
  rw [inner] at ran
  cases ran
  exact ⟨c,rfl⟩

theorem srvSendEncryptedExtensions_counts (tcp : e.build.quic = false) (sel : Selection) :
    Counts e 305 (srvSendEncryptedExtensions e sel) := by
  refine Counts.built (fun msg => msg.length ≤ 305)
    (buildEncryptedExtensions_steady e sel).counts (fun s msg next _ ran => ?_)
    fun msg short => ((srvOutSealed_counts e tcp msg).mono short)
  obtain ⟨c,built⟩ := onCore_eq_ok ran
  unfold buildEncryptedExtensions at built
  simp only [tcp,Bool.false_eq_true,if_false] at built
  split at built
  · cases built
  rename_i message made
  cases built
  have cap := srvBuildEncryptedExtensions_length made
  have most : encryptedExtensionsMax e.build ≤ 305 := by
    unfold encryptedExtensionsMax
    split <;> omega
  omega

/-- A configured identity fits its certificate message. -/
theorem configured_fits {cfg : Cfg} (configured : srvConfigOk e cfg = true) {sigalg : Nat}
    {id : Identity} (found : srvIdentityFor e cfg sigalg = some id) :
    srvCertificateFits id = true := by
  have usable : srvIdentitiesUsable e cfg = true := by
    unfold srvConfigOk srvFieldsOk at configured
    simp only [Bool.and_eq_true] at configured
    exact configured.1.1.1.2.1.1.2
  have live : sigalg ∈ srvIdentityLive e cfg := by
    refine mem_filter.mpr ⟨?_,by rw [found]; rfl⟩
    have slot := (Option.filter_eq_some_iff.mp found).1
    unfold identitySlot at slot
    simp only [sigalgPreference,mem_cons]
    split at slot
    · rename_i known
      simp only [Bool.and_eq_true,beq_iff_eq] at known
      exact .inr (.inl known.2)
    split at slot
    · rename_i known
      simp only [Bool.and_eq_true,beq_iff_eq] at known
      exact .inr (.inr (.inl known.2))
    split at slot
    · rename_i known
      simp only [Bool.and_eq_true,beq_iff_eq] at known
      exact .inl known.2
    · cases slot
  have all := all_eq_true.mp usable sigalg live
  rw [found] at all
  simp only [Option.all_some,identityUsable,Bool.and_eq_true] at all
  exact all.1.2

variable (tcp : e.build.quic = false)
include tcp

theorem srvSendCertificate_counts (sel : Selection) :
    Counts e 8388610 (srvSendCertificate e sel) := by
  intro bound s cut
  unfold srvSendCertificate
  split
  · exact stopAlert_counts _ _ bound s cut
  rename_i id found
  split
  · exact stopAlert_counts _ _ bound s cut
  have short := certificateMessage_fits (configured_fits e cut.1.configured found)
  exact (srvFragLoop_counts e tcp _ (certificateMessage id)).mono (by omega) bound s cut

theorem srvSendCertificateVerify_counts (sel : Selection) :
    Counts e 4635 (srvSendCertificateVerify e sel) := by
  refine Counts.built (fun msg => msg.length ≤ 4635)
    (buildCertificateVerify_steady e sel).counts (fun s msg next _ ran => ?_)
    fun msg short => .ite ((srvFragLoop_counts e tcp _ msg).mono (by omega))
      (.built (fun _ => True) (absorbSelected_steady _ _).counts (fun _ _ _ _ _ => trivial)
        fun _ _ => (srvOutSealed_counts e tcp msg).mono short)
  obtain ⟨c,built⟩ := onCore_eq_ok ran
  unfold buildCertificateVerify at built
  split at built
  · cases built
  split at built
  · cases built
  rename_i made
  cases built
  have cap := srvBuildCertificateVerify_length made
  have most : sigMax e sel.sigalg ≤ 4627 := by
    unfold sigMax rsaModulusMax
    repeat' split
    all_goals omega
  omega

theorem srvSendFinished_counts : Counts e 52 (srvSendFinished e) := by
  have secrets : Counts e 0 (onCore (srvMasterSecrets e)) := by
    intro bound s cut
    refine ⟨⟨cut.1.configured,cut.1.wide,cut.1.short⟩,?_⟩
    change (if e.build.quic = true then s.t.wr else recDirInitSuite e _ _).seq ≤ _
    rw [tcp]
    exact Nat.zero_le _
  have builds : Counts e 0 (onCore (buildFinished e)) := counts_of_kept fun _ => rfl
  refine Counts.built (fun msg => msg.length ≤ 52) builds
    (fun s msg next cut ran => ?_) fun msg short =>
      ((srvOutSealed_counts e tcp msg).mono short).bind fun _ => secrets
  obtain ⟨c,built⟩ := onCore_eq_ok ran
  have hash := cut.short
  cases built
  simp only [srvBuildFinished,handshakeMessage_length,fitTo_length]
  change 4 + s.t.hashLen ≤ 52
  have most : sha384Len = 48 := rfl
  omega

theorem srvProtectedFlight_counts (sel : Selection) :
    Counts e 8393602 (srvProtectedFlight e sel) := by
  have auth : Counts e (8388610 + 4635) (srvAuthMessages e sel) :=
    .ite (Counts.mono (counts_of_kept fun _ => rfl) (Nat.zero_le _))
      ((srvSendCertificate_counts e tcp sel).bind fun _ =>
        srvSendCertificateVerify_counts e tcp sel)
  exact (srvSendEncryptedExtensions_counts e tcp sel).bind fun _ => auth.bind fun _ =>
    srvSendFinished_counts e tcp

omit tcp

theorem newSessionTicket_length {c next : Core} {raw : Bytes}
    (ran : newSessionTicket e c = (.ok (some raw), next)) : raw.length ≤ 65807 := by
  obtain ⟨start,middle,got,ran⟩ := bind_eq_ok.mp ran
  cases got
  split at ran
  · cases ran
  dsimp only at ran
  generalize (if c.t.pskSelected = true then c.h.ticketAuthSeconds else c.t.nowSeconds) =
    authSeconds at ran
  obtain ⟨_,middle,_,ran⟩ := bind_eq_ok.mp ran
  split at ran
  · cases ran
  obtain ⟨drawn,middle,_,ran⟩ := bind_eq_ok.mp ran
  rcases made : buildTicketMessage e authSeconds
    (srvTicketLifetime - (c.t.nowSeconds - authSeconds)) drawn c with _ | msg
  · rw [made] at ran
    cases ran
  rw [made] at ran
  cases ran
  unfold buildTicketMessage at made
  dsimp only at made
  split at made
  · cases made
  · exact srvBuildNewSessionTicket_length made

theorem srvSendNewSessionTicket_counts (tcp : e.build.quic = false) :
    Counts e 65807 (srvSendNewSessionTicket e) := by
  refine Counts.built (fun msg => ∀ raw, msg = some raw → raw.length ≤ 65807)
    (newSessionTicket_steady e).counts (fun s msg next _ ran => ?_) fun msg short => ?_
  · rintro raw rfl
    obtain ⟨c,built⟩ := onCore_eq_ok ran
    exact newSessionTicket_length e built
  · cases msg with
    | none => exact Counts.mono (counts_of_kept fun _ => rfl) (Nat.zero_le _)
    | some raw => exact (srvOutSealed_counts e tcp raw).mono (short raw rfl)

end Counting

/-! ### Before the flight -/

section Waiting

variable (e : Env)

def Never (_ : RecDir) : Prop := False

def St.terms (s : St) : Cfg × Nat × Nat × SessionState :=
  (s.t.cfg, s.t.peerLimit, s.t.hashLen, s.t.state)

structure Idle {α : Type} (act : Act α) : Prop where
  moves : ActMoves e Never act
  terms : Keeps St.terms act

variable {e} {α β : Type}

theorem Idle.bind {first : Act α} {rest : α → Act β} (head : Idle e first)
    (tail : ∀ value, Idle e (rest value)) : Idle e (first >>= rest) :=
  ⟨head.moves.bind fun value => (tail value).moves,head.terms.bind fun value => (tail value).terms⟩

theorem Steady.idle {handler : Handler α} (steady : Steady handler) : Idle e (onCore handler) where
  moves := steady.moves
  terms s := by
    have same := steady s.core
    exact congrArg
      (fun kept : Tls.Kept => (kept.cfg, kept.peerLimit, kept.hashLen, kept.state)) same

theorem move_seq_le (move : Move e Never s next) : next.t.wr.seq ≤ s.t.wr.seq := by
  cases move with
  | quiet same =>
    have wr : next.t.wr = s.t.wr := congrArg Guarded.wr same
    exact Nat.le_of_eq (congrArg RecDir.seq wr)
  | seals room _ => exact room.elim
  | opens => exact Nat.le_refl _
  | writeKeys => exact Nat.zero_le _
  | readKeys => exact Nat.le_refl _
  | keyed => exact Nat.le_refl _
  | keyUpdate _ => exact Nat.zero_le _
  | readEnds => exact Nat.le_refl _
  | connect => exact Nat.le_refl _

theorem Halt.wr (halt : Halt s next) : next.t.wr = s.t.wr := by
  cases halt with
  | still same => exact congrArg Guarded.wr same
  | heard same => exact congrArg Guarded.wr same

theorem ViewMoves.seq_le {σ : Type} {view : σ → St} {proc : Proc σ Rc α}
    (moves : ViewMoves e Never view proc) (s : σ) :
    (view (proc s).2).t.wr.seq ≤ (view s).t.wr.seq :=
  Ends.state (fun next => (view next).t.wr.seq ≤ (view s).t.wr.seq)
    (moves.triple (fun _ _ move bound => Nat.le_trans (move_seq_le move) bound)
      (fun _ _ _ halt bound => by rw [halt.wr]; exact bound) s (Nat.le_refl _))

theorem ActMoves.seq_le {act : Act α} (moves : ActMoves e Never act) (s : St) :
    (act s).2.t.wr.seq ≤ s.t.wr.seq := @ViewMoves.seq_le e α St (fun s => s) act moves s

variable (e)

structure Waits (s : St) : Prop where
  configured : srvConfigOk e s.t.cfg = true
  limit : s.t.peerLimit = e.build.txPt
  fresh : s.t.wr.seq = 0
  start : s.t.state = .start

variable {e}

variable {act : Act α}

theorem Idle.waits (idle : Idle e act) (waits : Waits e s) : Waits e (act s).2 := by
  have same := idle.terms s
  simp only [St.terms,Prod.mk.injEq] at same
  refine ⟨?_,?_,?_,?_⟩
  · rw [same.1]
    exact waits.configured
  · rw [same.2.1]
    exact waits.limit
  · have bound := ActMoves.seq_le idle.moves s
    rw [waits.fresh] at bound
    exact Nat.le_zero.mp bound
  · rw [same.2.2.2]
    exact waits.start

theorem Idle.cutUpTo (idle : Idle e act) (cut : CutUpTo e bound s) : CutUpTo e bound (act s).2 := by
  have same := idle.terms s
  simp only [St.terms,Prod.mk.injEq] at same
  refine ⟨⟨?_,?_,?_⟩,Nat.le_trans (ActMoves.seq_le idle.moves s) cut.2⟩
  · rw [same.1]
    exact cut.1.configured
  · unfold srvOutLimit
    rw [same.2.1]
    exact cut.1.wide
  · rw [same.2.2.1]
    exact cut.1.short

variable (e)

variable {e} in
theorem KeepsProtocol.idle (kept : KeepsProtocol act) (moves : ActMoves e Never act) :
    Idle e act where
  moves := moves
  terms := kept.map fun parts => (parts.1.cfg, parts.1.peerLimit, parts.1.hashLen, parts.1.state)

theorem Still.idle (still : Still act) : Idle e act where
  moves := still.moves
  terms := still.map fun parts =>
    (parts.1.cfg, parts.1.peerLimit, parts.1.hashLen, parts.1.state)

variable {e} in
theorem Exchange.idle {endpoint : Endpoint} (exchange : Exchange e endpoint act) : Idle e act := by
  induction exchange with
  | bind _ _ head tail => exact head.bind tail
  | one is =>
    cases is with
    | client => exact (hsrNextMsg_protocol e).idle (hsrNextMsg_moves e _)
    | server => exact (srvNextMsg_protocol e).idle (srvNextMsg_moves e)
    | core steady => exact steady.idle
    | still still => exact still.idle e

/-! ### What is selected -/

theorem suiteHashLen_le (b : Build) (suite : Nat) : suiteHashLen b suite ≤ sha384Len := by
  have short : sha256Len ≤ sha384Len := by decide
  unfold suiteHashLen
  repeat' split
  all_goals first | exact Nat.le_refl _ | exact short | exact Nat.zero_le _

variable {ch : ClientHello}

theorem srvReadClientHello_fair (ran : srvReadClientHello e s = (.ok ch, next)) : ch.LimitFair := by
  obtain ⟨raw,middle,_,ran⟩ := bind_eq_ok.mp ran
  obtain ⟨c,handled⟩ := onCore_eq_ok ran
  unfold onClientHello at handled
  split at handled
  · cases handled
  split at handled
  · cases handled
  rename_i parsed accepted
  have fair := srvParseClientHello_fair accepted
  dsimp only at handled
  split at handled
  · cases handled
  · cases handled
    unfold withBinderHashes
    split <;> exact fair

theorem srvSelectAuth_hashLen {selected : Selection} {c next : Core}
    (ran : srvSelectAuth e ch sel c = (.ok selected, next)) : selected.hashLen = sel.hashLen := by
  obtain ⟨t,middle,_,ran⟩ := bind_eq_ok.mp ran
  obtain ⟨chosen,last,picked,ran⟩ := bind_eq_ok.mp ran
  have same : chosen.hashLen = sel.hashLen := by
    split at picked
    · unfold selectTicket at picked
      split at picked
      · cases picked
        rfl
      dsimp only at picked
      split at picked
      · cases picked
        rfl
      · cases picked
    · cases picked
      rfl
  split at ran
  · cases ran
    exact same
  · cases ran

theorem srvSelect_short {c next : Core}
    (ran : srvSelect e ch c = (.ok sel, next)) : sel.hashLen ≤ sha384Len := by
  obtain ⟨_,_,_,ran⟩ := bind_eq_ok.mp ran
  obtain ⟨t,_,_,ran⟩ := bind_eq_ok.mp ran
  split at ran
  · cases ran
  split at ran
  · cases ran
  split at ran
  · cases ran
  split at ran
  · cases ran
  dsimp only at ran
  split at ran
  · cases ran
    exact suiteHashLen_le _ _
  · rw [srvSelectAuth_hashLen e ran]
    exact suiteHashLen_le _ _

theorem srvCookieOpen_short {key cookie : Bytes} {body : CookieBody}
    (opened : srvCookieOpen e key cookie = some body) : body.hashLen ≤ sha384Len := by
  unfold srvCookieOpen at opened
  dsimp only at opened
  repeat' split at opened
  all_goals try cases opened
  exact suiteHashLen_le _ _

theorem srvCheckRetryHello_short {selected : Selection} {c next : Core}
    (ran : srvCheckRetryHello e ch sel c = (.ok selected, next)) :
    selected.hashLen ≤ sha384Len := by
  obtain ⟨_,_,_,ran⟩ := bind_eq_ok.mp ran
  obtain ⟨t,_,_,ran⟩ := bind_eq_ok.mp ran
  rcases given : ch.cookie with _ | cookie
  · rw [given] at ran
    cases ran
  rw [given] at ran
  dsimp only at ran
  split at ran
  · cases ran
  rcases opened : srvCookieOpen e (t.cfg.srv.cookieKey.getD []) cookie with _ | body
  · rw [opened] at ran
    cases ran
  rw [opened] at ran
  dsimp only at ran
  split at ran
  · cases ran
  split at ran
  · cases ran
  split at ran
  · cases ran
  split at ran
  · cases ran
  rw [srvSelectAuth_hashLen e ran]
  exact srvCookieOpen_short e opened

/-! ### The flight -/

theorem srvStoreSelection_cut (tcp : e.build.quic = false)
    (fair : ch.LimitFair) (short : sel.hashLen ≤ sha384Len) (waits : Waits e s) :
    CutUpTo e 0 (onCore (srvStoreSelection e ch sel) s).2 := by
  refine ⟨⟨waits.configured,?_,short⟩,Nat.le_of_eq waits.fresh⟩
  have staged := e.build.txPtRange.1
  have limit : s.core.t.peerLimit = e.build.txPt := waits.limit
  simp only [onCore,Proc.within,srvStoreSelection,modifyCore,Proc.modify_apply,St.putCore,
    srvOutLimit,tcp,limit]
  unfold ClientHello.LimitFair at fair
  split
  · rename_i quic
    cases quic
  split
  · rename_i asked
    simp only [Bool.not_false,Bool.true_and,bne_iff_ne] at asked
    omega
  · omega

theorem srvDeriveHandshakeSecrets_idle (ch : ClientHello) (sel : Selection) :
    Idle e (onCore (srvDeriveHandshakeSecrets e ch sel)) where
  moves := srvDeriveHandshakeSecrets_moves e ch sel
  terms s := by
    unfold onCore Proc.within srvDeriveHandshakeSecrets srvKexSecret
    rcases kexSecret e s.core.h ch sel.group with _ | (_ | ikm)
    · rfl
    · rfl
    · dsimp only
      split <;> rfl

theorem srvProtectedFlight_fresh (tcp : e.build.quic = false) (sel : Selection) :
    Returns (fun s => s.t.wr.seq = 0) (srvProtectedFlight e sel) := by
  refine .bind fun _ => .bind fun _ => .bind fun _ => .bind fun _ => ?_
  intro s value next ran
  cases ran
  change (if e.build.quic = true then s.t.wr else recDirInitSuite e _ _).seq = 0
  rw [tcp]
  rfl

def flightMax : Nat := 8393602

def ticketMax : Nat := 65807

def Speaks (s : St) : Prop := s.t.keys = true ∨ s.t.state = .start

structure Low (s : St) : Prop where
  few : s.t.wr.seq ≤ flightMax
  speaks : Speaks s

structure FlightSent (s : St) : Prop where
  cut : CutUpTo e 0 s
  keys : s.t.keys = true

variable {e}

theorem Waits.low (waits : Waits e s) : Low s where
  few := by
    rw [waits.fresh]
    exact Nat.zero_le _
  speaks := .inr waits.start

theorem CutUpTo.low (cut : CutUpTo e bound s) (few : bound ≤ flightMax)
    (speaks : Speaks s) : Low s := ⟨Nat.le_trans cut.2 few,speaks⟩

theorem Idle.quiet (idle : Idle e act) :
    Triple (Waits e) act (fun _ => Waits e) (fun _ => Low) := fun _ waits =>
  ends_of_state _ (idle.waits waits) fun _ still => still.low

theorem Idle.triple {good : α → Prop} (idle : Idle e act)
    (returns : ∀ s value next, act s = (.ok value, next) → good value) :
    Triple (Waits e) act (fun value s => Waits e s ∧ good value) (fun _ => Low) := by
  intro s waits
  have still := idle.quiet s waits
  rcases ran : act s with ⟨rc | value,next⟩
  · rw [ran] at still
    exact still
  · rw [ran] at still
    exact ⟨still,returns s value next ran⟩

theorem move_keys {fits : RecDir → Prop} (move : Move e fits s next)
    (keys : s.t.keys = true) : next.t.keys = true := by
  cases move with
  | quiet same =>
    have held : next.t.keys = s.t.keys := congrArg Guarded.keys same
    rw [held,keys]
  | keyed => rfl
  | seals _ _ | opens | writeKeys | readKeys | keyUpdate _ | readEnds | connect => exact keys

theorem Halt.keys (halt : Halt s next) : next.t.keys = s.t.keys := by
  cases halt with
  | still same => exact congrArg Guarded.keys same
  | heard same => exact congrArg Guarded.keys same

theorem ViewMoves.keys {fits : RecDir → Prop} {σ : Type} {view : σ → St} {proc : Proc σ Rc α}
    (moves : ViewMoves e fits view proc) {s : σ} (keys : (view s).t.keys = true) :
    (view (proc s).2).t.keys = true :=
  Ends.state (fun next => (view next).t.keys = true)
    (moves.triple (fun _ _ move held => move_keys move held)
      (fun _ _ _ halt held => by rw [halt.keys]; exact held) s keys)

theorem ActMoves.keys {fits : RecDir → Prop} {act : Act α} (moves : ActMoves e fits act)
    (keys : s.t.keys = true) : (act s).2.t.keys = true :=
  @ViewMoves.keys e α fits St (fun s => s) act moves s keys

variable (e)

theorem srvDeriveHandshakeSecrets_keys (tcp : e.build.quic = false) (ch : ClientHello)
    (sel : Selection) :
    Returns (fun s => s.t.keys = true) (onCore (srvDeriveHandshakeSecrets e ch sel)) := by
  intro s value next ran
  unfold onCore Proc.within srvDeriveHandshakeSecrets srvKexSecret at ran
  rcases secret : kexSecret e s.core.h ch sel.group with _ | (_ | ikm)
  · rw [secret] at ran
    cases ran
  · rw [secret] at ran
    cases ran
  · rw [secret] at ran
    simp only [tcp,Bool.false_eq_true,if_false] at ran
    cases ran
    rfl

/-- The flight ends under application keys that have sealed nothing. -/
theorem flight_triple (tcp : e.build.quic = false)
    (fair : ch.LimitFair) (short : sel.hashLen ≤ sha384Len) :
    Triple (Waits e) (do
      onCore (srvStoreSelection e ch sel)
      onCore (srvDeriveHandshakeSecrets e ch sel)
      srvProtectedFlight e sel) (fun _ => FlightSent e) (fun _ => Low) := by
  intro s waits
  have stored := srvStoreSelection_cut e tcp fair short waits
  have derived := (srvDeriveHandshakeSecrets_idle e ch sel).cutUpTo stored
  have start : (onCore (srvStoreSelection e ch sel) s).2.t.state = .start := waits.start
  change Ends _ _ ((onCore (srvDeriveHandshakeSecrets e ch sel) >>= fun _ =>
    srvProtectedFlight e sel) (onCore (srvStoreSelection e ch sel) s).2)
  generalize (onCore (srvStoreSelection e ch sel) s).2 = middle at derived start ⊢
  have still := (srvDeriveHandshakeSecrets_idle e ch sel).terms middle
  rw [Proc.bind_apply]
  rcases ran : onCore (srvDeriveHandshakeSecrets e ch sel) middle with ⟨rc | _,last⟩
  · rw [ran] at derived still
    simp only [St.terms,Prod.mk.injEq] at still
    exact CutUpTo.low derived (Nat.zero_le _) (.inr (still.2.2.2.trans start))
  rw [ran] at derived
  have keys := srvDeriveHandshakeSecrets_keys e tcp ch sel _ _ _ ran
  have flown := srvProtectedFlight_counts e tcp sel 0 last derived
  have kept := ActMoves.keys (srvProtectedFlight_flight e sel).moves keys
  dsimp only
  rcases out : srvProtectedFlight e sel last with ⟨rc | _,next⟩
  · rw [out] at flown kept
    exact CutUpTo.low flown (by decide) (.inl kept)
  · rw [out] at flown kept
    have zero := srvProtectedFlight_fresh e tcp sel _ _ _ out
    exact ⟨⟨flown.1,Nat.le_of_eq zero⟩,kept⟩

theorem serverFlight_triple (tcp : e.build.quic = false)
    (fair : ch.LimitFair) (short : sel.hashLen ≤ sha384Len) :
    Triple (Waits e) (serverFlight e ch sel) (fun _ => FlightSent e) (fun _ => Low) :=
  (hsrCheckRecordEnd_still.idle e).quiet.bind fun _ =>
    (srvSendServerHello_exchange e ch sel).idle.quiet.bind
    fun _ => (srvSendCompatCcs_exchange e ch).idle.quiet.bind fun _ =>
      flight_triple e tcp fair short

def Agreed (ch : ClientHello) (sel : Selection) : Prop :=
  ch.LimitFair ∧ sel.hashLen ≤ sha384Len

theorem srvReadClientHello_triple :
    Triple (Waits e) (srvReadClientHello e) (fun ch s => Waits e s ∧ ch.LimitFair)
      (fun _ => Low) :=
  (srvReadClientHello_exchange e).idle.triple fun _ _ _ ran => srvReadClientHello_fair e ran

theorem srvSelect_triple (ch : ClientHello) :
    Triple (Waits e) (onCore (srvSelect e ch))
      (fun sel s => Waits e s ∧ sel.hashLen ≤ sha384Len) (fun _ => Low) :=
  (srvSelect_steady e ch).idle.triple fun _ _ _ ran =>
    have ⟨_,chosen⟩ := onCore_eq_ok ran
    srvSelect_short e chosen

theorem srvCheckRetryHello_triple (ch : ClientHello) (sel : Selection) :
    Triple (Waits e) (onCore (srvCheckRetryHello e ch sel))
      (fun sel s => Waits e s ∧ sel.hashLen ≤ sha384Len) (fun _ => Low) :=
  (srvCheckRetryHello_steady e ch sel).idle.triple fun _ _ _ ran =>
    have ⟨_,chosen⟩ := onCore_eq_ok ran
    srvCheckRetryHello_short e chosen

theorem srvHelloExchange_triple :
    Triple (Waits e) (srvHelloExchange e) (fun agreed s => Waits e s ∧ Agreed agreed.1 agreed.2)
      (fun _ => Low) := by
  have retries (ch : ClientHello) (sel : Selection) :
      Triple (Waits e) (retryRound e ch sel)
        (fun agreed s => Waits e s ∧ Agreed agreed.1 agreed.2) (fun _ => Low) :=
    (srvSendHelloRetryRequest_exchange e ch sel).idle.quiet.bind fun _ =>
      (srvSendCompatCcs_exchange e ch).idle.quiet.bind fun _ =>
        (srvReadClientHello_triple e).bind fun ch =>
        .given fun fair => (srvCheckRetryHello_triple e ch sel).bind fun sel => .given fun short =>
          (hsrCheckRecordEnd_still.idle e).quiet.bind fun _ =>
            (srvSendServerHello_exchange e ch sel).idle.quiet.bind fun _ =>
              triple_pure fun _ waits => ⟨waits,fair,short⟩
  exact (srvBegin_steady e).idle.quiet.bind fun _ => (srvReadClientHello_triple e).bind fun ch =>
    .given fun fair => (srvSelect_triple e ch).bind fun sel => .given fun short =>
      .ite (retries ch sel) ((hsrCheckRecordEnd_still.idle e).quiet.bind fun _ =>
        (srvSendServerHello_exchange e ch sel).idle.quiet.bind fun _ =>
          (srvSendCompatCcs_exchange e ch).idle.quiet.bind fun _ =>
            triple_pure fun _ waits => ⟨waits,fair,short⟩)

theorem Idle.flown {α : Type} {act : Act α} (idle : Idle e act) :
    Triple (FlightSent e) act (fun _ => FlightSent e) (fun _ => Low) := fun _ flown =>
  ends_of_state _ ⟨idle.cutUpTo flown.cut,ActMoves.keys idle.moves flown.keys⟩
    fun _ still => CutUpTo.low still.cut (Nat.zero_le _) (.inl still.keys)

structure Welcomed (s : St) : Prop where
  few : s.t.wr.seq ≤ ticketMax
  keys : s.t.keys = true
  state : s.t.state = .connected

theorem srvTicket_triple (tcp : e.build.quic = false) :
    Triple (fun s => FlightSent e s ∧ s.t.state = .connected) (srvSendNewSessionTicket e)
      (fun _ => Welcomed) (fun _ => Low) := by
  rintro s ⟨flown,connected⟩
  have state := congrArg (fun settings => settings.1.2) ((srvSendNewSessionTicket_flight e).fixes s)
  have counted := srvSendNewSessionTicket_counts e tcp 0 s flown.cut
  have keys := ActMoves.keys (srvSendNewSessionTicket_flight e).moves flown.keys
  rcases ran : srvSendNewSessionTicket e s with ⟨rc | _,next⟩
  · rw [ran] at counted keys
    exact CutUpTo.low counted (by decide) (.inl keys)
  · rw [ran] at counted keys state
    refine ⟨?_,keys,state.trans connected⟩
    have most := counted.2
    rwa [Nat.zero_add] at most

theorem srvComplete_flown :
    Triple (FlightSent e) (srvComplete e) (fun _ s => FlightSent e s ∧ s.t.state = .connected)
      (fun _ => Low) := by
  intro s flown
  exact ⟨⟨⟨⟨flown.cut.1.configured,flown.cut.1.wide,flown.cut.1.short⟩,flown.cut.2⟩,flown.keys⟩,rfl⟩

theorem srvRun_triple (tcp : e.build.quic = false) :
    Triple (Waits e) (srvRun e) (fun _ => Welcomed) (fun _ => Low) := by
  have assembled : srvRun e = (do
      let agreed ← srvHelloExchange e
      (do
        onCore (srvStoreSelection e agreed.1 agreed.2)
        onCore (srvDeriveHandshakeSecrets e agreed.1 agreed.2)
        srvProtectedFlight e agreed.2)
      srvReadClientFinished e
      hsrCheckRecordEnd
      srvComplete e
      srvSendNewSessionTicket e) := by
    simp only [srvRun,authFlight,Proc.bind_assoc]
  rw [assembled]
  exact (srvHelloExchange_triple e).bind fun agreed => .given fun both =>
    (flight_triple e tcp both.1 both.2).bind fun _ =>
      ((srvReadClientFinished_exchange e).idle.flown e).bind
      fun _ => ((hsrCheckRecordEnd_still.idle e).flown e).bind fun _ =>
        (srvComplete_flown e).bind fun _ =>
        srvTicket_triple e tcp

end Waiting

end Chapulin
