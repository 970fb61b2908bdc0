/-
What the calls of a connected TCP session leave alone.

A read changes the window, the record keys and the post-handshake counters; a
write adds sealed records to the output.  Both either leave the session in the
state it was in or fail it.
-/

import Chapulin.Post

namespace Chapulin

open Lib Proc

section ConnectedFrames

variable (e : Env)

theorem tlsiSendAlert_rx (level description : Nat) :
    Keeps St.rx (tlsiSendAlert e level description) := by
  intro s
  unfold tlsiSendAlert
  split
  · split <;> rfl
  · split <;> rfl

theorem failWith_rx {α : Type} (description : Nat) (rc : Rc) (s : St) :
    (failWith e description rc s : Except Rc α × St).2.t.state = .failed ∧
      (failWith e description rc s : Except Rc α × St).2.rx.opened = s.rx.opened := by
  refine ⟨rfl,?_⟩
  simp only [failWith,tlsiFail,tlsiWipe,Rx.reset]
  split
  · exact congrArg Rx.opened (tlsiSendAlert_rx e 2 _ _)
  · rfl

/-! ### Reading -/

def Tls.fixed (t : Tls) : Cfg × SessionState := (t.cfg, t.state)

theorem Post.untold_fixed (p : Post) : p.untold.fixed = p.t.fixed := rfl

theorem postMessage_fixed (raw : Bytes) (endsInput : Bool) :
    Keeps (fun p => p.t.fixed) (postMessage e raw endsInput) := by
  refine .ite ?_ (.ite ?_ (keeps_stop _))
  · intro p
    unfold takeTicket
    split
    · rfl
    · have same := congrArg Tls.fixed (handleTicket_untold e (msgBody raw) p)
      rwa [Post.untold_fixed,Post.untold_fixed] at same
  · intro p
    unfold takeKeyUpdate
    split
    · split
      · rfl
      split
      · rfl
      split <;> rfl
    · rfl

theorem postLoop_fixed (fuel : Nat) (pt : Bytes) (used : Nat) (p : Post) :
    (postLoop e fuel pt used p).2.t.fixed = p.t.fixed := by
  induction fuel generalizing pt used p with
  | zero => rfl
  | succ fuel ih =>
    unfold postLoop
    split
    · dsimp only
      split
      · rfl
      split
      · rfl
      split
      · rename_i ran
        exact (postMessage_fixed e _ _).of_eq ran
      · rename_i ran
        exact (ih _ _ _).trans ((postMessage_fixed e _ _).of_eq ran)
    · rfl

def St.stream (s : St) : (Cfg × SessionState) × Hs × List Bytes × Nat × Nat × List Bytes ×
    List Bytes × List (Nat × Bytes) :=
  (s.t.fixed, s.h, s.rx.opened, s.rx.ptOff, s.rx.ptLen, s.rx.taken, s.io.out)

theorem openFragment_stream (rec : Bytes) (fill alert : Nat) (s : St) :
    (openFragment e rec fill alert s).2.stream = s.stream := by
  unfold openFragment
  split
  · rfl
  split
  · rfl
  · dsimp only
    split
    · rfl
    split <;> rfl

theorem stream_ext {s next : St} (fixed : next.t.fixed = s.t.fixed)
    (rest : (next.h, next.rx.opened, next.rx.ptOff, next.rx.ptLen, next.rx.taken) =
      (s.h, s.rx.opened, s.rx.ptOff, s.rx.ptLen, s.rx.taken)) (out : next.io.out = s.io.out) :
    next.stream = s.stream := by
  simp only [Prod.mk.injEq] at rest
  simp only [St.stream,fixed,rest,out]

/-- Draining post-handshake messages delivers no data. -/
theorem drainRun_stream (fuel quiet fill alert : Nat) (s : St) :
    (drainRun e fuel quiet fill alert s).2.stream = s.stream := by
  induction fuel generalizing quiet fill alert s with
  | zero => rfl
  | succ fuel ih =>
    cases quiet with
    | zero => rfl
    | succ quiet =>
      unfold drainRun
      have posted := postLoop_fixed e ((s.rx.buf.take fill).length + 1) (s.rx.buf.take fill) 0
        { t := s.t, alert := alert, errorCode := 0 }
      unfold handlePostHandshake
      split
      · rename_i ran
        rw [ran] at posted
        exact stream_ext posted rfl rfl
      · rename_i used p ran
        rw [ran] at posted
        dsimp only
        split
        · exact stream_ext posted rfl rfl
        have out := ioReadRecord_out (nonblockingIo e) p.t.cfg.bufLen
          (p.t.cfg.bufLen - ((s.rx.buf.take fill).drop used).length) p.t.limitSent s.io
        split
        · rename_i stop
          rw [stop] at out
          split <;> exact stream_ext posted rfl out
        · rename_i record
          rw [record] at out
          split
          · rename_i opened
            refine ((congrArg (fun result => result.2.stream) opened).symm.trans
              (openFragment_stream e _ _ _ _)).trans ?_
            exact stream_ext posted rfl out
          · rename_i opened
            refine (ih _ _ _ _).trans (((congrArg (fun result => result.2.stream)
              opened).symm.trans (openFragment_stream e _ _ _ _)).trans ?_)
            exact stream_ext posted rfl out

end ConnectedFrames

end Chapulin
