/-
The application data of a tcp-nonblocking session.

`cfg.buf` holds the bytes of handshake messages before the session is connected
and opened application data after it, with one window over both.  What
`ch_read` returned and what the window still holds is what was opened, as long
as no handshake record is delivered to a connected session: the driver takes
one in the clear and puts its bytes into the window.
-/

import Chapulin.Connected
import Chapulin.Tcp.Run

namespace Chapulin

open Lib Proc List TcpTrace

variable {p returned : Bytes} {r : ClientTcp} {rx : Rx} {next s : St} {call : TcpCall}

/-! ### The window -/

structure Rx.Delivers (rx : Rx) (returned : Bytes) : Prop where
  fits : rx.ptLen ≤ rx.ptOff ∨ rx.ptLen ≤ rx.buf.length
  data : returned ++ rx.window = rx.opened.flatten

theorem Rx.window_eq_nil (empty : rx.ptLen ≤ rx.ptOff) : rx.window = [] := by
  apply drop_eq_nil_of_le
  rw [length_take]
  omega

theorem Rx.Delivers.starts (delivers : rx.Delivers returned) :
    returned <+: rx.opened.flatten := ⟨rx.window,delivers.data⟩

theorem Rx.compact_window (fits : rx.ptLen ≤ rx.ptOff ∨ rx.ptLen ≤ rx.buf.length) :
    rx.compact.window = rx.window := by
  unfold Rx.compact
  split
  · rcases fits with empty | inside
    · rw [Rx.window_eq_nil empty]
      exact Rx.window_eq_nil (by dsimp only; omega)
    · have size : rx.window.length = rx.ptLen - rx.ptOff := by
        simp only [Rx.window,length_drop,length_take]
        omega
      have whole := @copyAt_take_through rx.buf rx.window 0 (Nat.zero_le _)
      rw [Nat.zero_add,size,take_zero,nil_append] at whole
      change ((copyAt rx.buf 0 rx.window).take (rx.ptLen - rx.ptOff)).drop 0 = rx.window
      rw [drop_zero,whole]
  · rfl

theorem Rx.compact_fits (fits : rx.ptLen ≤ rx.ptOff ∨ rx.ptLen ≤ rx.buf.length) :
    rx.compact.ptLen ≤ rx.compact.ptOff ∨ rx.compact.ptLen ≤ rx.compact.buf.length := by
  unfold Rx.compact
  split
  · rcases fits with empty | inside
    · exact .inl (by dsimp only; omega)
    · refine .inr ?_
      simp only [copyAt,length_append,length_take,length_drop,Rx.window]
      omega
  · exact fits

theorem Rx.append_nil (rx : Rx) : rx.append [] = rx := by
  have same : copyAt rx.buf rx.ptLen [] = rx.buf := by
    simp only [copyAt,List.append_nil,length_nil,Nat.add_zero,take_append_drop]
  simp only [Rx.append,same,length_nil,Nat.add_zero]

theorem Rx.Delivers.compact (delivers : rx.Delivers returned) :
    rx.compact.Delivers returned where
  fits := Rx.compact_fits delivers.fits
  data := by
    rw [Rx.compact_window delivers.fits,Rx.compact_opened]
    exact delivers.data

theorem Rx.Delivers.read (delivers : rx.Delivers returned) (n : Nat) :
    Rx.Delivers { rx with ptOff := rx.ptOff + (rx.window.take n).length }
      (returned ++ rx.window.take n) where
  fits := by
    rcases delivers.fits with empty | inside
    · exact .inl (Nat.le_add_right_of_le empty)
    · exact .inr inside
  data := by
    have rest : Rx.window { rx with ptOff := rx.ptOff + (rx.window.take n).length } =
        rx.window.drop (rx.window.take n).length := by
      simp only [Rx.window,drop_drop]
    have front : rx.window.take n <+: rx.window := take_prefix n rx.window
    rw [rest,append_assoc,prefix_iff_eq_append.mp front]
    exact delivers.data

/-! ### Reading -/

section Reading

variable (e : Env)

def Delivering (s : St) (returned : Bytes) : Prop :=
  (s.t.state = .connected ∧ s.h.encrypted = false ∧ s.rx.Delivers returned) ∨
    (s.t.state = .failed ∧ returned <+: s.rx.opened.flatten)

theorem failWith_delivering {α : Type} (description : Nat) (rc : Rc) {s : St} {returned : Bytes}
    (kept : returned <+: s.rx.opened.flatten) :
    Delivering (failWith e description rc s : Except Rc α × St).2 returned := by
  have failed := @failWith_rx e α description rc s
  refine .inr ⟨failed.1,?_⟩
  rw [failed.2]
  exact kept

structure Drained (s : St) (returned : Bytes) : Prop where
  connected : s.t.state = .connected
  clear : s.h.encrypted = false
  empty : s.rx.ptLen ≤ s.rx.ptOff
  all : returned = s.rx.opened.flatten

theorem Drained.delivering (drained : Drained s returned) : Delivering s returned := by
  refine .inl ⟨drained.connected,drained.clear,.inl drained.empty,?_⟩
  rw [Rx.window_eq_nil drained.empty,append_nil]
  exact drained.all

def St.flow (s : St) : SessionState × Hs × List Bytes × Nat × Nat :=
  (s.t.state, s.h, s.rx.opened, s.rx.ptOff, s.rx.ptLen)

theorem flow_of_stream (same : next.stream = s.stream) : next.flow = s.flow :=
  congrArg (fun parts => (parts.1.2, parts.2.1, parts.2.2.1, parts.2.2.2.1, parts.2.2.2.2.1)) same

theorem Drained.of_flow (drained : Drained s returned)
    (same : next.flow = s.flow) : Drained next returned := by
  simp only [St.flow,Prod.mk.injEq] at same
  obtain ⟨state,hs,opened,off,len⟩ := same
  exact ⟨state.trans drained.connected,hs ▸ drained.clear,by rw [off,len]; exact drained.empty,
    by rw [opened]; exact drained.all⟩

theorem Drained.fails {α : Type} (drained : Drained s returned) (description : Nat) (rc : Rc) :
    Delivering (failWith e description rc s : Except Rc α × St).2 returned :=
  failWith_delivering e description rc (drained.all ▸ prefix_rfl)

/-- What a read of one record leaves: the session delivers what it did, and one
that returned is connected. -/
def Continues (result : Except Rc Unit × St) (returned : Bytes) : Prop :=
  Delivering result.2 returned ∧ (result.1 = .ok () → result.2.t.state = .connected)

theorem Drained.continues (drained : Drained s returned)
    (result : Except Rc Unit) : Continues (result, s) returned :=
  ⟨drained.delivering,fun _ => drained.connected⟩

theorem Drained.failContinues (drained : Drained s returned)
    (description : Nat) (rc : Rc) : Continues (failWith e description rc s) returned :=
  ⟨drained.fails e description rc,nofun⟩

theorem hspostRead_continues (ptLen : Nat)
    (drained : Drained s returned) : Continues (hspostRead e ptLen s) returned := by
  have same := drainRun_stream e (inboxSize s.io + 1) quietCap ptLen Alert.unexpectedMessage s
  unfold hspostRead
  split
  · rename_i ran
    rw [ran] at same
    exact (drained.of_flow (flow_of_stream same)).continues _
  · rename_i ran
    rw [ran] at same
    split
    · exact (drained.of_flow (flow_of_stream same)).continues _
    · exact (drained.of_flow (flow_of_stream same)).failContinues e _ _

theorem readAlert_continues (pt : Bytes)
    (drained : Drained s returned) : Continues (readAlert e pt s) returned := by
  unfold readAlert
  split
  · split
    · have closed : Drained (closeReadSide s) returned :=
        ⟨drained.connected,drained.clear,Nat.le_refl _,drained.all⟩
      exact closed.continues _
    split
    · exact drained.continues _
    · exact Drained.failContinues e (drained.of_flow (by rfl)) _ _
  · exact drained.failContinues e _ _

/-- The plaintext of a record stands at the front of the buffer when it is
dispatched; only application data is taken into the window. -/
theorem dispatchPlaintext_continues (pt : Bytes) (type : Nat)
    (drained : Drained s returned) (front : ∃ buf, s.rx.buf = copyAt buf 0 pt) :
    Continues (dispatchPlaintext e pt type s) returned := by
  unfold dispatchPlaintext
  split
  · obtain ⟨buf,placed⟩ := front
    have whole := @copyAt_take_through buf pt 0 (Nat.zero_le _)
    rw [Nat.zero_add,take_zero,nil_append] at whole
    refine ⟨.inl ⟨drained.connected,drained.clear,.inr ?_,?_⟩,fun _ => drained.connected⟩
    · dsimp only
      rw [placed]
      simp only [copyAt,length_append]
      omega
    · change returned ++ (s.rx.buf.take pt.length).drop 0 = (s.rx.opened ++ [pt]).flatten
      rw [placed,whole,drop_zero,flatten_append,flatten_singleton,drained.all]
  split
  · exact hspostRead_continues e _ drained
  split
  · exact readAlert_continues e pt drained
  · exact drained.failContinues e _ _

theorem dispatchOneRecord_continues (drained : Drained s returned) :
    Continues (dispatchOneRecord e s) returned := by
  unfold dispatchOneRecord
  split
  · exact hspostRead_continues e _ (drained.of_flow rfl)
  split
  · dsimp only
    split
    · exact (drained.of_flow rfl).continues _
    · exact Drained.failContinues e (drained.of_flow (by rfl)) _ _
  · dsimp only
    split
    · exact Drained.failContinues e (drained.of_flow (by rfl)) _ _
    split
    · exact Drained.failContinues e (drained.of_flow (by rfl)) _ _
    · exact dispatchPlaintext_continues e _ _ (drained.of_flow rfl) ⟨_,rfl⟩

def ReadsOn (returned : Bytes) : Except Rc Bytes × St → Prop
  | (.ok p, next) => Delivering next (returned ++ p)
  | (.error _, next) => Delivering next returned

/-- The read loop returns opened data in order. -/
theorem tlsReadLoop_readsOn (n left : Nat)
    (connected : s.t.state = .connected) (holds : Delivering s returned) :
    ReadsOn returned (tlsReadLoop e n left s) := by
  induction left generalizing s with
  | zero =>
    rcases holds with ⟨_,_,delivers⟩ | ⟨failed,_⟩
    · exact @failWith_delivering e Bytes _ .eproto s returned delivers.starts
    · rw [connected] at failed
      cases failed
  | succ left ih =>
    obtain ⟨_,clear,delivers⟩ | ⟨failed,_⟩ := holds
    · unfold tlsReadLoop
      split
      · exact .inl ⟨connected,clear,delivers.read n⟩
      · rename_i empty
        have drained : Drained s returned := by
          refine ⟨connected,clear,Nat.not_lt.mp empty,?_⟩
          rw [← delivers.data,Rx.window_eq_nil (Nat.not_lt.mp empty),append_nil]
        have next := dispatchOneRecord_continues e drained
        split
        · rename_i ran
          rw [ran] at next
          split
          · change Delivering _ (returned ++ [])
            rw [append_nil]
            exact next.1
          · exact next.1
        · rename_i ran
          rw [ran] at next
          exact ih (next.2 rfl) next.1
    · rw [connected] at failed
      cases failed

theorem tlsRead_readsOn (n : Nat)
    (connected : s.t.state = .connected) (holds : Delivering s returned) :
    ReadsOn returned (tlsRead e n s) := by
  unfold tlsRead
  split
  · exact holds
  rw [connected]
  dsimp only
  split
  · change Delivering s (returned ++ [])
    rw [append_nil]
    exact holds
  · exact tlsReadLoop_readsOn e n quietCap connected holds

/-! ### Writing -/

def SparesRead (s next : St) : Prop :=
  (next.t.state = s.t.state ∧ next.h = s.h ∧ next.rx = s.rx) ∨
    (next.t.state = .failed ∧ next.rx.opened = s.rx.opened)

theorem SparesRead.trans {middle : St} (first : SparesRead s middle)
    (second : SparesRead middle next) : SparesRead s next := by
  rcases second with ⟨state,hs,rx⟩ | ⟨failed,opened⟩
  · rcases first with ⟨state',hs',rx'⟩ | ⟨failed',opened'⟩
    · exact .inl ⟨state.trans state',hs.trans hs',rx.trans rx'⟩
    · exact .inr ⟨state.trans failed',rx ▸ opened'⟩
  · rcases first with ⟨_,_,rx'⟩ | ⟨_,opened'⟩
    · exact .inr ⟨failed,rx' ▸ opened⟩
    · exact .inr ⟨failed,opened.trans opened'⟩

theorem SparesRead.delivering (spares : SparesRead s next)
    (holds : Delivering s returned) : Delivering next returned := by
  rcases spares with ⟨state,hs,rx⟩ | ⟨failed,opened⟩
  · unfold Delivering
    rw [state,hs,rx]
    exact holds
  · refine .inr ⟨failed,?_⟩
    rw [opened]
    rcases holds with ⟨_,_,delivers⟩ | ⟨_,kept⟩
    · exact delivers.starts
    · exact kept

theorem failWith_spares {α : Type} (description : Nat) (rc : Rc) (s : St) :
    SparesRead s (failWith e description rc s : Except Rc α × St).2 :=
  .inr (failWith_rx e description rc s)

theorem sendStaged_spares (rec : Bytes) (s : St) : SparesRead s (sendStaged rec s).2 :=
  .inl ⟨rfl,rfl,rfl⟩

theorem hspostSendKeyUpdate_spares (s : St) : SparesRead s (hspostSendKeyUpdate e s).2 := by
  unfold hspostSendKeyUpdate
  split
  · exact .inl ⟨rfl,rfl,rfl⟩
  · rename_i rec wr _
    have sent := sendStaged_spares rec { s with t := { s.t with wr := wr } }
    split <;>
      · rename_i ran
        rw [ran] at sent
        exact sent

theorem keyUpdateBeforeRecord_spares (s : St) : SparesRead s (keyUpdateBeforeRecord e s).2 := by
  unfold keyUpdateBeforeRecord
  split
  · exact .inl ⟨rfl,rfl,rfl⟩
  split
  · exact failWith_spares e _ _ s
  have sent := hspostSendKeyUpdate_spares e s
  split
  · rename_i ran
    rw [ran] at sent
    exact sent.trans (failWith_spares e _ _ _)
  · rename_i ran
    rw [ran] at sent
    exact sent

theorem writeRecord_spares (inner : Bytes) (s : St) : SparesRead s (writeRecord e inner s).2 := by
  unfold writeRecord
  split
  · exact failWith_spares e _ _ s
  split
  · exact failWith_spares e _ _ s
  · rename_i rec wr _
    have sent := sendStaged_spares rec { s with t := { s.t with wr := wr } }
    split
    · rename_i ran
      rw [ran] at sent
      exact SparesRead.trans sent (failWith_spares e _ _ _)
    · rename_i ran
      rw [ran] at sent
      exact sent

theorem writeLoop_spares (limit fuel : Nat) (parts : List Bytes) (s : St) :
    SparesRead s (writeLoop e limit fuel parts s).2 := by
  induction fuel generalizing parts s with
  | zero =>
    unfold writeLoop
    cases parts <;> exact .inl ⟨rfl,rfl,rfl⟩
  | succ fuel ih =>
    cases parts with
    | nil => exact .inl ⟨rfl,rfl,rfl⟩
    | cons part parts =>
      unfold writeLoop
      have updated := keyUpdateBeforeRecord_spares e s
      rw [Proc.bind_apply]
      rcases ran : keyUpdateBeforeRecord e s with ⟨_ | _,middle⟩
      · rw [ran] at updated
        exact updated
      rw [ran] at updated
      dsimp only
      have written := writeRecord_spares e (partsCopyRecord limit (part :: parts)).1 middle
      rw [Proc.bind_apply]
      rcases ran : writeRecord e (partsCopyRecord limit (part :: parts)).1 middle with
        ⟨_ | _,last⟩
      · rw [ran] at written
        exact updated.trans written
      · rw [ran] at written
        exact (updated.trans written).trans (ih _ _)

theorem tlsWriteParts_spares (parts : List Bytes) (s : St) :
    SparesRead s (tlsWriteParts e parts s).2 := by
  unfold tlsWriteParts
  split
  · exact .inl ⟨rfl,rfl,rfl⟩
  · exact writeLoop_spares e _ _ _ s

theorem tlsFail_spares (description : Nat) (s : St) : SparesRead s (tlsFail e description s).2 := by
  unfold tlsFail
  split
  · exact .inl ⟨rfl,rfl,rfl⟩
  split
  · exact .inl ⟨rfl,rfl,rfl⟩
  · exact @failWith_spares e Unit description .eio s

end Reading

/-! ### Delivered records -/

namespace Endpoint

def done : (role : Endpoint) → Tcp role.Step → Prop
  | .client, r => r.step = ClientStep.complete
  | .server, r => r.step = ServerStep.complete

/-- What a session that is not connected yet has to keep: once a client is
complete its Finished is staged, and a server that is complete is connected. -/
def waits : (role : Endpoint) → Tcp role.Step → Prop
  | .client, r => r.step = ClientStep.complete → Tcp.Finishing r
  | .server, r => r.step ≠ ServerStep.complete

end Endpoint

section Records

variable {e : Env} {role : Endpoint}

structure Tcp.Starting (r : Tcp role.Step) : Prop where
  state : r.st.t.state = .start
  none : r.st.rx.opened = []
  waits : role.waits r

structure Tcp.Connected (r : Tcp role.Step) (returned : Bytes) : Prop where
  state : r.st.t.state = .connected
  done : role.done r
  clear : r.st.h.encrypted = false
  delivers : r.st.rx.Delivers returned

/-- Records a connected session can be given without a byte of them becoming data. -/
def Harmless (p : Bytes) : Prop :=
  ∀ record ∈ TcpDriver.wholeRecords (p.length + 1) p,
    recordType record = recHandshake → record.drop recHdr = []

theorem advance_of_done {r : Tcp role.Step} (done : role.done r) :
    (role.tcpDriver e).advance r = onSt (stopAlert Alert.unexpectedMessage .eproto) r := by
  cases role with
  | client =>
    have complete : r.step = .complete := done
    simp only [Endpoint.tcpDriver,clientDriver,tcpNonblockingAdvance,complete]
  | server =>
    have complete : r.step = .complete := done
    simp only [Endpoint.tcpDriver,serverDriver,srvTcpAdvance,complete]

theorem fail_rx (r : Tcp role.Step) :
    ((role.tcpDriver e).fail r).st.t.state = .failed ∧
      ((role.tcpDriver e).fail r).st.rx.opened = r.st.rx.opened := by
  cases role with
  | client => exact ⟨rfl,rfl⟩
  | server =>
    simp only [Endpoint.tcpDriver,serverDriver,srvTcpFail]
    split <;> exact ⟨rfl,rfl⟩

theorem respects_connected (returned : Bytes) :
    TcpDriver.Respects (role.tcpDriver e) (Tcp.Connected · returned)
      (fun r => returned <+: r.st.rx.opened.flatten) where
  advanced r next holds ran := by
    rw [advance_of_done holds.done] at ran
    exact @onSt_stopAlert_returns _ _ (Tcp.Connected · returned) _ _ r () next ran
  stopped r rc next holds ran := by
    rw [advance_of_done holds.done] at ran
    cases ran
    exact holds.delivers.starts
  alerted r alert holds := holds.delivers.starts

theorem takeRecord_connected {record : Bytes} {r next : Tcp role.Step}
    (harmless : recordType record = recHandshake → record.drop recHdr = [])
    (holds : r.Connected returned)
    (took : onSt (tcpNonblockingTakeRecord e record) r = (.ok (), next)) :
    next.Connected returned := by
  have inner : ∀ st, tcpNonblockingTakeRecord e record r.st = (.ok (), st) →
      st.t.state = .connected ∧ st.h.encrypted = false ∧ st.rx.Delivers returned := by
    intro st ran
    unfold tcpNonblockingTakeRecord at ran
    split at ran
    · cases ran
      exact ⟨holds.state,holds.clear,holds.delivers.fits,holds.delivers.data⟩
    split at ran
    · cases ran
    rw [holds.clear,if_neg Bool.false_ne_true] at ran
    split at ran
    · cases ran
    rename_i handshake
    rw [harmless (Classical.not_not.mp handshake)] at ran
    cases ran
    refine ⟨holds.state,holds.clear,?_⟩
    change Rx.Delivers (r.st.rx.compact.append []) returned
    rw [Rx.append_nil]
    exact holds.delivers.compact
  rcases ran : tcpNonblockingTakeRecord e record r.st with ⟨result,st⟩
  have split : (result, { r with st := st }) = (.ok (), next) := by
    rw [← took]
    simp only [onSt,Proc.within,ran]
  cases split
  obtain ⟨state,clear,delivers⟩ := inner st ran
  refine ⟨state,?_,clear,delivers⟩
  cases role <;> exact holds.done

theorem takeRecord_settings (record : Bytes) :
    Keeps (fun r : Tcp role.Step => r.st.settings)
      (onSt (tcpNonblockingTakeRecord e record)) :=
  onSt_settings (tcpNonblockingTakeRecord_protocol e record).fixes

theorem takeRecord_kept {record : Bytes} {r next : Tcp role.Step} {result : Except Rc Unit}
    (took : onSt (tcpNonblockingTakeRecord e record) r = (result, next)) :
    next.st.t.state = r.st.t.state ∧ next.st.rx.opened = r.st.rx.opened ∧ next.step = r.step := by
  have same := (takeRecord_settings record).of_eq took
  have kept : Keeps Tcp.step (onSt (tcpNonblockingTakeRecord e record) :
    Proc (Tcp role.Step) Rc Unit) := fun _ => rfl
  exact ⟨congrArg (fun settings => settings.1.2) same,congrArg Prod.snd same,kept.of_eq took⟩

def Tcp.Ended (r : Tcp role.Step) (returned : Bytes) : Prop :=
  (r.st.t.state = .closed ∨ r.st.t.state = .failed) ∧ returned <+: r.st.rx.opened.flatten

theorem settled_ended {inv : Tcp role.Step → Prop} {r : Tcp role.Step}
    (settled : TcpDriver.Settled (role.tcpDriver e) inv
      (fun before => returned <+: before.st.rx.opened.flatten) r) : inv r ∨ r.Ended returned := by
  rcases settled with kept | ⟨before,weak,failed⟩
  · exact .inl kept
  · have fails := @fail_rx e role before
    refine .inr ⟨.inr ?_,?_⟩
    · rw [failed]
      exact fails.1
    · rw [failed,fails.2]
      exact weak

theorem inLoop_connected {r : Tcp role.Step} (harmless : Harmless p) (holds : r.Connected returned)
    (alive : ((role.tcpDriver e).inLoop e (p.length + 1) p 0 r).1.1 ≠ .error .assertFail) :
    Tcp.Connected ((role.tcpDriver e).inLoop e (p.length + 1) p 0 r).2 returned ∨
      Tcp.Ended ((role.tcpDriver e).inLoop e (p.length + 1) p 0 r).2 returned := by
  refine settled_ended (TcpDriver.inLoop_settled (respects_connected returned)
    (fun _ ready => ready) (fun _ kept _ => kept) ?_ _ p 0 ?_ ?_ holds alive)
  · intro r header ready
    rw [Rx.noteRefused_opened]
    exact ready.delivers.starts
  · intro record among r next ready took
    exact takeRecord_connected (harmless record among) ready took
  · intro record _ r rc next ready took
    rw [(takeRecord_kept took).2.1]
    exact ready.delivers.starts

theorem starting_client {next : ClientTcp} (holds : @Tcp.Starting .client r)
    (ran : tcpNonblockingAdvance e r = (.ok (), next)) : @Tcp.Starting .client next := by
  have same := (tcpNonblockingAdvance_settings e).of_eq ran
  have state := congrArg (fun settings => settings.1.2) same
  have opened := congrArg Prod.snd same
  exact ⟨state.trans holds.state,opened.trans holds.none,
    tcpNonblockingAdvance_returns e r () next ran⟩

theorem inLoop_starting_client (holds : @Tcp.Starting .client r) (room : r.txLen = 0)
    (alive : ((clientDriver e).inLoop e (p.length + 1) p 0 r).1.1 ≠ .error .assertFail) :
    @Tcp.Starting .client ((clientDriver e).inLoop e (p.length + 1) p 0 r).2 ∨
      @Tcp.Ended .client ((clientDriver e).inLoop e (p.length + 1) p 0 r).2 [] := by
  have respects : TcpDriver.Respects (Endpoint.client.tcpDriver e) (@Tcp.Starting .client)
      (fun r => [] <+: r.st.rx.opened.flatten) :=
    ⟨fun _ _ starting ran => starting_client starting ran,fun _ _ _ _ _ => nil_prefix,
      fun _ _ _ => nil_prefix⟩
  refine settled_ended (@TcpDriver.inLoop_settled _ (Endpoint.client.tcpDriver e) _ _ e
    (fun r => @Tcp.Starting .client r ∧ r.txLen = 0) respects
    (fun _ ready => ready.1) ?_ (fun _ _ _ => nil_prefix) _ p 0 ?_
    (fun _ _ _ _ _ _ _ => nil_prefix) r ⟨holds,room⟩ alive)
  · intro r starting more
    exact ⟨starting,by simpa [Endpoint.tcpDriver,clientDriver] using more⟩
  · intro record _ r next ready took
    obtain ⟨state,opened,step⟩ := @takeRecord_kept e .client _ _ _ _ took
    refine ⟨state.trans ready.1.state,opened.trans ready.1.none,fun done => ?_⟩
    exact absurd ready.2 (ready.1.waits (step.symm.trans done)).1

theorem srvSendNewSessionTicket_rx : Keeps St.rx (srvSendNewSessionTicket e) := by
  refine .bind (onCore_rx _) fun msg => ?_
  cases msg with
  | none => exact keeps_pure _
  | some msg => exact (srvOutSealed_unsent e msg).map fun parts => parts.2.2

theorem stepClientFinished_connected {r next : ServerTcp} (absent : r.st.rx.opened = [])
    (ran : stepClientFinished e r = (.ok (), next)) : @Tcp.Connected .server next [] := by
  have opened := ((stepClientFinished_opened e).of_eq ran).trans absent
  obtain ⟨_,read,_,ran⟩ := bind_eq_ok.mp ran
  obtain ⟨_,checked,_,ran⟩ := bind_eq_ok.mp ran
  obtain ⟨_,completed,completes,ran⟩ := bind_eq_ok.mp ran
  obtain ⟨_,stepped,steps,ran⟩ := bind_eq_ok.mp ran
  obtain ⟨_,ticketed,tickets,ran⟩ := bind_eq_ok.mp ran
  have state : ticketed.st.t.state = .connected := by
    have same := (onSt_settings (srvSendNewSessionTicket_flight e).fixes).of_eq tickets
    have kept := congrArg (fun settings => settings.1.2) same
    refine kept.trans ?_
    cases steps
    cases completes
    rfl
  have step : ticketed.step = .complete := by
    have kept : Keeps Tcp.step (onSt (srvSendNewSessionTicket e) : Proc ServerTcp Rc Unit) :=
      fun _ => rfl
    refine (kept.of_eq tickets).trans ?_
    cases steps
    rfl
  have empty : ticketed.st.rx.ptLen = 0 := by
    have kept : Keeps (fun r => r.st.rx)
        (onSt (srvSendNewSessionTicket e) : Proc ServerTcp Rc Unit) :=
      fun r => srvSendNewSessionTicket_rx r.st
    refine (congrArg Rx.ptLen (kept.of_eq tickets)).trans ?_
    cases steps
    cases completes
    rfl
  cases ran
  have drained : Drained (wipeHs ticketed.st) [] :=
    ⟨state,rfl,by change ticketed.st.rx.ptLen ≤ _; omega,by rw [opened]; rfl⟩
  rcases drained.delivering with ⟨connected,clear,delivers⟩ | ⟨failed,_⟩
  · exact ⟨connected,step,clear,delivers⟩
  · cases state.symm.trans failed

theorem starting_server {r next : ServerTcp} (holds : @Tcp.Starting .server r)
    (ran : srvTcpAdvance e r = (.ok (), next)) :
    @Tcp.Starting .server next ∨ @Tcp.Connected .server next [] := by
  have stays : ∀ {proc : Proc ServerTcp Rc Unit}, Keeps (fun r => r.st.settings) proc →
      Returns (fun r => r.step ≠ .complete) proc → proc r = (.ok (), next) →
      @Tcp.Starting .server next := by
    intro proc kept step ran
    have same := kept.of_eq ran
    have state := congrArg (fun settings => settings.1.2) same
    have opened := congrArg Prod.snd same
    exact ⟨state.trans holds.state,opened.trans holds.none,step r () next ran⟩
  unfold srvTcpAdvance at ran
  cases step : r.step with
  | awaitClientHello =>
    simp only [step] at ran
    exact .inl (stays (stepClientHello_settings e) (stepClientHello_step e) ran)
  | awaitRetryHello =>
    simp only [step] at ran
    exact .inl (stays (stepRetryHello_settings e) (stepRetryHello_step e) ran)
  | awaitClientFinished =>
    simp only [step] at ran
    exact .inr (stepClientFinished_connected holds.none ran)
  | complete => exact absurd step holds.waits

theorem inLoop_starting_server {r : ServerTcp} (holds : @Tcp.Starting .server r)
    (alive : ((serverDriver e).inLoop e (p.length + 1) p 0 r).1.1 ≠ .error .assertFail) :
    (@Tcp.Starting .server ((serverDriver e).inLoop e (p.length + 1) p 0 r).2 ∨
        @Tcp.Connected .server ((serverDriver e).inLoop e (p.length + 1) p 0 r).2 []) ∨
      @Tcp.Ended .server ((serverDriver e).inLoop e (p.length + 1) p 0 r).2 [] := by
  have respects : TcpDriver.Respects (Endpoint.server.tcpDriver e)
      (fun r => @Tcp.Starting .server r ∨ @Tcp.Connected .server r [])
      (fun r => [] <+: r.st.rx.opened.flatten) := by
    refine ⟨fun r next kept ran => ?_,fun _ _ _ _ _ => nil_prefix,fun _ _ _ => nil_prefix⟩
    rcases kept with starting | connected
    · exact starting_server starting ran
    · exact .inr ((respects_connected []).advanced r next connected ran)
  refine settled_ended (@TcpDriver.inLoop_settled _ (Endpoint.server.tcpDriver e) _ _ e
    (@Tcp.Starting .server) respects (fun _ ready => .inl ready) ?_
    (fun _ _ _ => nil_prefix) _ p 0 ?_ (fun _ _ _ _ _ _ _ => nil_prefix) r holds alive)
  · intro r kept more
    rcases kept with starting | connected
    · exact starting
    · have complete : r.step = .complete := connected.done
      simp [Endpoint.tcpDriver,serverDriver,complete] at more
  · intro record _ r next ready took
    obtain ⟨state,opened,step⟩ := @takeRecord_kept e .server _ _ _ _ took
    refine .inl ⟨state.trans ready.state,opened.trans ready.none,?_⟩
    change next.step ≠ .complete
    rw [step]
    exact ready.waits

/-! ### Runs -/

/-- What every reachable session is: in its handshake with nothing returned,
connected and delivering, or dead with what it returned among what it opened. -/
def TcpTrace.Sound (tr : TcpTrace role) : Prop :=
  (tr.r.Starting ∧ tr.returned = []) ∨ tr.r.Connected tr.returned ∨ tr.r.Ended tr.returned

theorem Tcp.Ended.dead {r : Tcp role.Step} (ended : r.Ended returned) :
    tcpNonblockingSessionDead r = true := by
  rcases ended.1 with closed | failed
  · simp [tcpNonblockingSessionDead,closed]
  · simp [tcpNonblockingSessionDead,failed]

theorem Endpoint.tcpIn_dead (p : Bytes) {r : Tcp role.Step}
    (dead : tcpNonblockingSessionDead r = true) : (role.tcpIn e p r).2 = r := by
  cases role with
  | client => simp only [Endpoint.tcpIn,Chapulin.tcpIn,dead,if_true]
  | server => simp only [Endpoint.tcpIn,Chapulin.srvTcpIn,dead,if_true]

/-- A call with records leaves the session as it was or runs the loop over them;
a client's loop starts with nothing staged. -/
theorem Endpoint.tcpIn_cases (p : Bytes) (r : Tcp role.Step) :
    (role.tcpIn e p r).2 = r ∨
      ((role = .client → r.txLen = 0) ∧
        role.tcpIn e p r = (role.tcpDriver e).inLoop e (p.length + 1) p 0 r) := by
  cases role with
  | client =>
    simp only [Endpoint.tcpIn,Chapulin.tcpIn]
    split
    · exact .inl rfl
    split
    · exact .inl rfl
    · rename_i empty
      exact .inr ⟨fun _ => Classical.not_not.mp empty,rfl⟩
  | server =>
    simp only [Endpoint.tcpIn,Chapulin.srvTcpIn]
    split
    · exact .inl rfl
    · exact .inr ⟨nofun,rfl⟩

theorem exec_input_alive {r : Tcp role.Step}
    (alive : ((TcpCall.input p).exec e r).1 ≠ .error .assertFail) :
    (role.tcpIn e p r).1.1 ≠ .error .assertFail := by
  intro failed
  apply alive
  simp only [TcpCall.exec,failed,Except.map]

/-- A delivery keeps the account of the data. -/
theorem input_sound {tr next : TcpTrace role}
    (harmless : tr.r.st.t.state = .connected → Harmless p) (sound : tr.Sound)
    (stepped : tr.step e (.input p) = some next) : next.Sound := by
  obtain ⟨state,alive,returned⟩ := step_quiet (fun _ => rfl) stepped
  have alive := exec_input_alive alive
  change next.r = (role.tcpIn e p tr.r).2 at state
  rcases Endpoint.tcpIn_cases p tr.r with same | ⟨room,loop⟩
  · have unchanged : next = tr := by
      rcases next with ⟨r,bytes⟩
      rcases tr with ⟨before,given⟩
      cases state.trans same
      cases returned
      rfl
    rw [unchanged]
    exact sound
  rw [loop] at state alive
  rcases sound with ⟨starting,absent⟩ | connected | ended
  · rw [absent] at returned
    unfold Sound
    rw [state,returned]
    cases role with
    | client =>
      rcases inLoop_starting_client starting (room rfl) alive with kept | ended
      · exact .inl ⟨kept,rfl⟩
      · exact .inr (.inr ended)
    | server =>
      rcases inLoop_starting_server starting alive with (kept | connected) | ended
      · exact .inl ⟨kept,rfl⟩
      · exact .inr (.inl connected)
      · exact .inr (.inr ended)
  · unfold Sound
    rw [state,returned]
    exact .inr (inLoop_connected (harmless connected.state) connected alive)
  · have same := @Endpoint.tcpIn_dead e role p tr.r ended.dead
    unfold Sound
    rw [state,← loop,same,returned]
    exact .inr (.inr ended)

/-- Draining moves the staged bytes out; what it connects is a client with an
empty window. -/
theorem tcpOut_cases (cap : Nat) (r : ClientTcp) :
    ((tcpOut cap r).2.st = r.st ∧ (tcpOut cap r).2.step = r.step ∧
        ((tcpOut cap r).2.txLen = r.txLen ∨
          ¬ (r.step = .complete ∧ r.st.t.state = .start))) ∨
      (r.step = .complete ∧ r.st.t.state = .start ∧ (tcpOut cap r).2.step = .complete ∧
        (tcpOut cap r).2.st =
          { r.st with t := { r.st.t with state := .connected } }) := by
  unfold tcpOut
  split
  · exact .inl ⟨rfl,rfl,.inl rfl⟩
  split
  · exact .inl ⟨rfl,rfl,.inl rfl⟩
  split
  · exact .inl ⟨rfl,rfl,.inl rfl⟩
  dsimp only
  split
  · exact .inl ⟨rfl,rfl,.inl rfl⟩
  split
  · rename_i done
    exact .inr ⟨done.1,done.2,done.1,rfl⟩
  · rename_i waits
    exact .inl ⟨rfl,rfl,.inr waits⟩

theorem output_sound_client {cap : Nat}
    (sound : @TcpTrace.Sound .client { r := r, returned := returned }) :
    @TcpTrace.Sound .client { r := (tcpOut cap r).2, returned := returned } := by
  rcases tcpOut_cases cap r with ⟨st,step,length⟩ | ⟨done,start,step,st⟩
  · rcases sound with ⟨starting,absent⟩ | connected | ended
    · refine .inl ⟨⟨?_,?_,fun done => ?_⟩,absent⟩
      · exact (congrArg (fun st : St => st.t.state) st).trans starting.state
      · exact (congrArg (fun st : St => st.rx.opened) st).trans starting.none
      · have complete : r.step = .complete := step.symm.trans done
        rcases length with same | waits
        · have finishing := starting.waits complete
          unfold Tcp.Finishing
          rw [same,st]
          exact finishing
        · exact absurd ⟨complete,starting.state⟩ waits
    · refine .inr (.inl ⟨?_,step.trans connected.done,?_,?_⟩)
      · exact (congrArg (fun st : St => st.t.state) st).trans connected.state
      · exact (congrArg (fun st : St => st.h.encrypted) st).trans connected.clear
      · dsimp only
        rw [st]
        exact connected.delivers
    · refine .inr (.inr ?_)
      unfold Tcp.Ended
      dsimp only
      rw [st]
      exact ended
  · rcases sound with ⟨starting,absent⟩ | connected | ended
    · obtain ⟨_,empty,clear⟩ := starting.waits done
      have absent : returned = [] := absent
      subst absent
      have drained : Drained (tcpOut cap r).2.st [] := by
        rw [st]
        refine ⟨rfl,clear,?_,?_⟩
        · change r.st.rx.ptLen ≤ _
          rw [empty]
          exact Nat.zero_le _
        · change [] = r.st.rx.opened.flatten
          rw [starting.none]
          rfl
      rcases drained.delivering with ⟨state,clear,delivers⟩ | ⟨failed,_⟩
      · exact .inr (.inl ⟨state,step,clear,delivers⟩)
      · cases drained.connected.symm.trans failed
    · cases start.symm.trans connected.state
    · rcases ended.1 with closed | failed
      · cases start.symm.trans closed
      · cases start.symm.trans failed

theorem output_sound {cap : Nat} {tr next : TcpTrace role} (sound : tr.Sound)
    (stepped : tr.step e (.output cap) = some next) : next.Sound := by
  obtain ⟨state,_,returned⟩ := step_quiet (fun _ => rfl) stepped
  rcases next with ⟨r,bytes⟩
  cases returned
  cases state
  cases role with
  | client => exact output_sound_client sound
  | server => exact sound

theorem sound_of_delivering {r : Tcp role.Step} {before : Bytes}
    (connected : r.Connected before) (holds : Delivering s returned) :
    @TcpTrace.Sound role { r := { r with st := s }, returned := returned } := by
  rcases holds with ⟨state,clear,delivers⟩ | ⟨failed,kept⟩
  · refine .inr (.inl ⟨state,?_,clear,delivers⟩)
    cases role <;> exact connected.done
  · exact .inr (.inr ⟨.inr failed,kept⟩)

theorem Tcp.Connected.delivering {r : Tcp role.Step}
    (connected : r.Connected returned) : Delivering r.st returned :=
  .inl ⟨connected.state,connected.clear,connected.delivers⟩

theorem tlsRead_idle (n : Nat) {s : St} (idle : s.t.state ≠ .connected) :
    (tlsRead e n s).2 = s ∧ ∀ bytes, (tlsRead e n s).1 = .ok bytes → bytes = [] := by
  unfold tlsRead
  split
  · exact ⟨rfl,nofun⟩
  split
  · refine ⟨rfl,?_⟩
    rintro bytes ⟨⟩
    rfl
  · rename_i connected
    exact absurd connected idle
  · exact ⟨rfl,nofun⟩

/-- A read returns the next bytes of what was opened. -/
theorem read_sound {n : Nat} {tr next : TcpTrace role} (sound : tr.Sound)
    (stepped : tr.step e (.read n) = some next) : next.Sound := by
  have idle : tr.r.st.t.state ≠ .connected → next.Sound := by
    intro other
    obtain ⟨same,nothing⟩ := @tlsRead_idle e n tr.r.st other
    have state : ((TcpCall.read n).exec e tr.r).2 = tr.r := by
      change { tr.r with st := (tlsRead e n tr.r.st).2 } = tr.r
      rw [same]
    obtain ⟨moved,⟨bytes,ok,returned⟩ | ⟨rc,_,_,returned⟩⟩ := step_eq_some stepped
    · have empty := nothing bytes ok
      subst empty
      have same : tr.returned ++ (TcpCall.read n).data [] = tr.returned := append_nil _
      unfold Sound
      rw [moved,state,returned,same]
      exact sound
    · unfold Sound
      rw [moved,state,returned]
      exact sound
  rcases sound with ⟨starting,_⟩ | connected | ended
  · refine idle ?_
    rw [starting.state]
    nofun
  · have reads := tlsRead_readsOn e n connected.state connected.delivering
    obtain ⟨moved,⟨bytes,ok,returned⟩ | ⟨rc,_,failed,returned⟩⟩ :=
      step_eq_some stepped
    · rcases ran : tlsRead e n tr.r.st with ⟨result,s⟩
      simp only [TcpCall.exec,onSt,Proc.within,ran] at ok moved
      subst ok
      rw [ran] at reads
      unfold Sound
      rw [moved,returned]
      exact sound_of_delivering connected reads
    · rcases ran : tlsRead e n tr.r.st with ⟨result,s⟩
      simp only [TcpCall.exec,onSt,Proc.within,ran] at failed moved
      subst failed
      rw [ran] at reads
      unfold Sound
      rw [moved,returned]
      exact sound_of_delivering connected reads
  · refine idle ?_
    rcases ended.1 with closed | failed
    · rw [closed]
      nofun
    · rw [failed]
      nofun

/-- A call on the session inside the driver that gives the application no bytes. -/
structure TcpCall.Runs (e : Env) (call : TcpCall) (act : Act Unit) : Prop where
  quiet : ∀ bytes, call.data bytes = []
  state : ∀ r : Tcp role.Step, (call.exec e r).2 = { r with st := (act r.st).2 }

theorem write_runs (parts : List Bytes) :
    @TcpCall.Runs role e (.write parts) (tlsWriteParts e parts) where
  quiet _ := rfl
  state r := by
    simp only [TcpCall.exec,Proc.bind_apply,onSt,Proc.within]
    rcases tlsWriteParts e parts r.st with ⟨_ | _,_⟩ <;> rfl

theorem fail_runs (description : Nat) :
    @TcpCall.Runs role e (.fail description) (tlsFail e description) where
  quiet _ := rfl
  state r := by
    simp only [TcpCall.exec,Proc.bind_apply,onSt,Proc.within]
    rcases tlsFail e description r.st with ⟨_ | _,_⟩ <;> rfl

/-- Such a call does nothing before the session is connected and after it ended,
and spares the receive side in between. -/
theorem spares_sound {act : Act Unit} {tr next : TcpTrace role}
    (runs : @TcpCall.Runs role e call act)
    (idle : tr.r.st.t.state ≠ .connected → (act tr.r.st).2 = tr.r.st)
    (spares : SparesRead tr.r.st (act tr.r.st).2) (sound : tr.Sound)
    (stepped : tr.step e call = some next) : next.Sound := by
  obtain ⟨moved,_,returned⟩ := step_quiet runs.quiet stepped
  rw [runs.state] at moved
  have stays : tr.r.st.t.state ≠ .connected → next.Sound := by
    intro other
    unfold Sound
    rw [moved,idle other,returned]
    exact sound
  rcases sound with ⟨starting,_⟩ | connected | ended
  · refine stays ?_
    rw [starting.state]
    nofun
  · unfold Sound
    rw [moved,returned]
    exact sound_of_delivering connected (spares.delivering connected.delivering)
  · refine stays ?_
    rcases ended.1 with closed | failed
    · rw [closed]
      nofun
    · rw [failed]
      nofun

theorem write_sound {parts : List Bytes} {tr next : TcpTrace role} (sound : tr.Sound)
    (stepped : tr.step e (.write parts) = some next) : next.Sound := by
  refine spares_sound (write_runs parts) (fun other => ?_) (tlsWriteParts_spares e parts _) sound
    stepped
  simp only [tlsWriteParts,other,ne_eq,not_false_eq_true,if_true]

theorem fail_sound {description : Nat} {tr next : TcpTrace role} (sound : tr.Sound)
    (stepped : tr.step e (.fail description) = some next) : next.Sound := by
  refine spares_sound (fail_runs description) (fun other => ?_) (tlsFail_spares e description _)
    sound stepped
  unfold tlsFail
  split <;> rfl

theorem TcpTrace.Sound.starts {tr : TcpTrace role} (sound : tr.Sound) :
    tr.returned <+: tr.r.st.rx.opened.flatten := by
  rcases sound with ⟨_,absent⟩ | connected | ended
  · rw [absent]
    exact nil_prefix
  · exact connected.delivers.starts
  · exact ended.2

theorem close_sound {tr next : TcpTrace role}
    (closes : call = .close ∨ call = .tcpClose) (sound : tr.Sound)
    (stepped : tr.step e call = some next) : next.Sound := by
  have starts := sound.starts
  refine .inr (.inr ?_)
  rcases closes with rfl | rfl
  · obtain ⟨moved,_,returned⟩ := step_quiet (fun _ => rfl) stepped
    have opened : (Chapulin.tlsClose e tr.r.st).rx.opened = tr.r.st.rx.opened := by
      simp only [Chapulin.tlsClose,tlsiWipe,Rx.reset]
      split
      · exact congrArg Rx.opened (tlsiSendAlert_rx e 1 _ _)
      · rfl
    unfold Tcp.Ended
    rw [moved,returned]
    refine ⟨.inl rfl,?_⟩
    change tr.returned <+: (Chapulin.tlsClose e tr.r.st).rx.opened.flatten
    rw [opened]
    exact starts
  · obtain ⟨moved,_,returned⟩ := step_quiet (fun _ => rfl) stepped
    unfold Tcp.Ended
    rw [moved,returned]
    exact ⟨.inl rfl,starts⟩

def TcpTrace.GivenNoMessages (tr : TcpTrace role) : TcpCall → Prop
  | .input p => tr.r.st.t.state = .connected → Harmless p
  | _ => True

instance (p : Bytes) : Decidable (Harmless p) := by unfold Harmless; infer_instance

instance (tr : TcpTrace role) : (call : TcpCall) → Decidable (tr.GivenNoMessages call)
  | .input _ => inferInstanceAs (Decidable (_ → _))
  | .output _ | .read _ | .write _ | .fail _ | .close | .tcpClose =>
    inferInstanceAs (Decidable True)

theorem step_sound {tr next : TcpTrace role} (may : tr.GivenNoMessages call)
    (sound : tr.Sound) (stepped : tr.step e call = some next) : next.Sound := by
  cases call with
  | input p => exact input_sound may sound stepped
  | output cap => exact output_sound sound stepped
  | read n => exact read_sound sound stepped
  | write parts => exact write_sound sound stepped
  | fail description => exact fail_sound sound stepped
  | close => exact close_sound (.inl rfl) sound stepped
  | tcpClose => exact close_sound (.inr rfl) sound stepped

/-- An initialised session has returned nothing. -/
theorem tcpInit_starting {cfg : Cfg} {buf : Bytes} {io : Io} {r : Tcp role.Step}
    (ok : role.tcpInit e cfg buf io = (.ok (), r)) : r.Starting := by
  cases role with
  | client =>
    simp only [Endpoint.tcpInit,Chapulin.tcpInit] at ok
    split at ok
    · cases ok
    rename_i t _ set
    obtain ⟨presented,_,blank⟩ := tcpClientSetup_ok e set
    have begun : Steady (do hsfBegin e; hsfBuildClientHello e) :=
      (hsfBegin_steady e).bind fun _ => hsfBuildClientHello_steady e
    split at ok
    · cases ok
    · cases ok
    rename_i hello c ran
    cases ok
    have same := begun.of_eq ran
    have state : c.t.state = t.state := congrArg Tls.Kept.state same
    exact ⟨state.trans (congrArg Tls.state blank),rfl,nofun⟩
  | server =>
    simp only [Endpoint.tcpInit,Chapulin.srvTcpInit] at ok
    split at ok
    · cases ok
    rcases ran : srvBegin e (srvStart e cfg) with ⟨result,c⟩
    rw [ran] at ok
    cases ok
    exact ⟨congrArg Tls.Kept.state ((srvBegin_steady e).of_eq ran),rfl,nofun⟩

/-- Along every run of calls from an admitted init call in which no handshake
bytes are delivered to a connected session, what `ch_read` returned is a prefix
of the application data the session opened. -/
theorem read_returns_opened {cfg : Cfg} {buf : Bytes} {io : Io} {r : Tcp role.Step}
    (admitted : role.tcpInit e cfg buf io = (.ok (), r)) {calls : List TcpCall}
    (given : (start r).Meets e GivenNoMessages calls) {last : TcpTrace role}
    (ran : (start r).run e calls = some last) :
    last.returned <+: last.r.st.rx.opened.flatten := by
  have first : (start r).Sound := .inl ⟨tcpInit_starting admitted,rfl⟩
  have sound := @TcpTrace.run_invariant e role _ Sound
    (fun _ _ _ may sound stepped => step_sound may sound stepped) _ _ _ given first ran
  exact sound.starts

end Records

/-- A client that reads both records of its transport in three calls. -/
theorem read_returns_opened_sample :
    ∃ last, sampleTcpRun [.read 2,.read 2,.read 2] = some last ∧
      last.returned = [1,2,3,4,5] ∧ last.returned <+: last.r.st.rx.opened.flatten := by
  have facts : (sampleTcpRun [.read 2,.read 2,.read 2]).map (fun tr => tr.returned) =
      some [1,2,3,4,5] := by decide +kernel
  rcases ran : sampleTcpRun [.read 2,.read 2,.read 2] with _ | last
  · rw [ran] at facts
    cases facts
  · rw [ran] at facts
    refine ⟨last,rfl,Option.some.inj facts,?_⟩
    exact read_returns_opened (@eq_ok_of_toBool _ sampleTcpInit (by decide +kernel))
      (by decide +kernel) ran

/-- A handshake record in the clear, given to a connected client, is read as data. -/
theorem read_returns_handshake_bytes :
    ∃ last, sampleTcpRun [.input [0x16,3,3,0,1,0x41],.read 1] = some last ∧
      last.returned = [0x41] ∧ last.r.st.rx.opened = [] ∧
        ¬ last.returned <+: last.r.st.rx.opened.flatten := by
  have facts : (sampleTcpRun [.input [0x16,3,3,0,1,0x41],.read 1]).map
      (fun tr => (tr.returned, tr.r.st.rx.opened)) = some ([0x41], []) := by decide +kernel
  rcases ran : sampleTcpRun [.input [0x16,3,3,0,1,0x41],.read 1] with _ | last
  · rw [ran] at facts
    cases facts
  · rw [ran] at facts
    have both := Option.some.inj facts
    have returned : last.returned = [0x41] := congrArg Prod.fst both
    have opened : last.r.st.rx.opened = [] := congrArg Prod.snd both
    refine ⟨last,rfl,returned,opened,?_⟩
    rw [returned,opened]
    decide

end Chapulin
