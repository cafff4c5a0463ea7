import Reactor.ConnectionStream

/-!
# Shutting a connection down

`shutdown()` closes the writing side at once when the channel is not writing, and leaves
it to `handleWrite` otherwise. It looks at the backlog alone: a message of another thread
that passed the check of `send` can still be on its way to the loop.

* `shutdown_cuts_off_send` - such a message is written after `SHUT_WR`.
* `shutdown_after_sends` - in runs that execute `SHUT_WR` only while no byte is on its way,
  everything accepted was written before it, and nothing is written after it.
-/

namespace Reactor

open Reactor.Lib

/-- A call of `write(2)`. -/
def Obs.isWrite : Obs → Bool
  | .wrote _ => true
  | .writeFailed _ => true
  | _ => false

/-- The step executes `SHUT_WR`: `shutdown()` finds the channel not writing, or
`handleWrite` is about to write the last of the backlog after a `shutdown()`. -/
def ShutsDown (s : ConnProcess) : ConnLabel → Prop
  | .call _ o => ∃ k tail, s.work connApp () = .conn k :: tail ∧
      (k = .user .shutdown ∧ s.world.view.conn.state = .kConnected ∧
          s.world.view.conn.channel.isWriting = false ∨
        k = .handleWrite ∧ s.world.view.conn.state = .kDisconnecting ∧
          s.world.view.conn.channel.isWriting = true ∧
          ∃ n, o.write = .accept n ∧ s.world.view.conn.outputBuffer.content.length ≤ n)
  | _ => False

/-- No byte of an accepted message is on its way to the loop: not among the loop's calls to
come, queued functors included, and not with a thread that has yet to queue it. -/
def NothingWaiting (threads : Nat → Option Bytes) (work : List ConnAct) : Prop :=
  (∀ m ∈ sends work, m.2 = []) ∧ ∀ t d, threads t = some d → d = []

/-- Messages have at most `INT_MAX` bytes, and `SHUT_WR` is only executed while no byte is
on its way. -/
def ShutsDownIdle (s : ConnProcess) (label : ConnLabel) : Prop :=
  BoundedMessages s label ∧
    (ShutsDown s label → NothingWaiting s.world.threads (s.work connApp ()))

section Calls

variable {v v' : ConnView Unit} {o : Oracle} {k : ConnCall} {out : Out}

/-- The two places that execute `SHUT_WR`. -/
theorem CallSpec.shutsDown (h : CallSpec v o k v' out) (hshut : .shutdownWrite ∈ out.obs) :
    v'.conn.state = .kDisconnecting ∧
      (k = .user .shutdown ∧ v.conn.state = .kConnected ∧ v.conn.channel.isWriting = false ∧
          out.obs = [.shutdown, .shutdownWrite] ∨
        k = .handleWrite ∧ v.conn.state = .kDisconnecting ∧ v.conn.channel.isWriting = true ∧
          (∃ n, o.write = .accept n ∧ v.conn.outputBuffer.content.length ≤ n) ∧
          out.obs = [.wrote v.conn.outputBuffer.content, .shutdownWrite]) := by
  cases h with
  | shutdown hs =>
      unfold ConnView.shutdownInLoop at hshut ⊢
      split at hshut
      · simp at hshut
      · rename_i hw
        rw [if_neg hw]
        exact ⟨rfl, Or.inl ⟨rfl, hs, by simpa using hw, rfl⟩⟩
  | @writeAll n data b cp hw hres hlen hwf hsplit hempty hset =>
      by_cases hs : v.conn.state = .kDisconnecting
      · rw [if_pos hs, hsplit]
        exact ⟨hs, Or.inr ⟨rfl, hs, hw, ⟨n, hres, hlen⟩, rfl⟩⟩
      · simp [hs] at hshut
  | _ => simp at hshut

/-- Once the backlog of a connection that is being shut down is empty, a call that brings
no bytes writes nothing and leaves it empty. -/
theorem CallSpec.idle (h : CallSpec v o k v' out) (hinv : v.conn.Inv)
    (hs : v.conn.state = .kDisconnecting ∨ v.conn.state = .kDisconnected)
    (hempty : v.conn.outputBuffer.content = []) (hk : ∀ m, k.inFlight = some m → m.2 = []) :
    (∀ x ∈ out.obs, x.isWrite = false ∧ x ≠ .shutdownWrite) ∧
      v'.conn.outputBuffer.content = [] ∧
      (v'.conn.state = .kDisconnecting ∨ v'.conn.state = .kDisconnected) := by
  have hidle : v.conn.channel.isWriting = true → False := by
    intro hw
    have hopen := hinv.open_of_isWriting hw
    have hne : v.conn.state ≠ .kDisconnected := by
      rcases hopen with h | h <;> simp [h]
    exact (hinv.isWriting_iff hne).mp hw hempty
  have hnot : v.conn.state ≠ .kConnected := by rcases hs with h | h <;> simp [h]
  cases h with
  | send m hc => exact absurd hc hnot
  | shutdown hc => exact absurd hc hnot
  | took hflight _ hdata => exact absurd (hk _ hflight) hdata
  | writeFailed err hw => exact (hidle hw).elim
  | writeNothing hw => exact (hidle hw).elim
  | writePart hw => exact (hidle hw).elim
  | writeAll hw => exact (hidle hw).elim
  | handleClose => exact ⟨by simp [Obs.isWrite], hempty, Or.inr rfl⟩
  | connectEstablished hc => rcases hs with h | h <;> cases h.symm.trans hc
  | disconnect hc => exact absurd hc hnot
  | _ => exact ⟨by simp [Obs.isWrite], hempty, hs⟩

end Calls

/-! ### The invariant -/

/-- `SHUT_WR` was executed between `pre` and `post`: everything accepted was written
before, nothing after, and nothing is left to write. -/
structure AfterShut (w : Connection) (work : List ConnAct) (pre post : List Obs) : Prop where
  trace : w.trace = pre ++ .shutdownWrite :: post
  once : .shutdownWrite ∉ pre ∧ .shutdownWrite ∉ post
  complete : ∀ sender, (bySender sender (passed pre)).flatten = (bySender sender (taken pre)).flatten
  written : written pre = concat (taken pre)
  quiet : ∀ x ∈ post, x.isWrite = false
  state : w.view.conn.state = .kDisconnecting ∨ w.view.conn.state = .kDisconnected
  empty : w.view.conn.outputBuffer.content = []
  waiting : NothingWaiting w.threads work

def ShutInv (w : Connection) (work : List ConnAct) : Prop :=
  .shutdownWrite ∉ w.trace ∨ ∃ pre post, AfterShut w work pre post

section Invariant

variable {w w' : Connection} {work work' tail : List ConnAct} {label : ConnLabel}
  {pre post : List Obs}

/-- When no byte is on its way, every byte accepted was taken. -/
theorem SendInv.complete (h : SendInv w work) (hs : w.view.conn.state ≠ .kDisconnected)
    (hwait : NothingWaiting w.threads work) (sender : Sender) :
    (bySender sender (passed w.trace)).flatten = (bySender sender (taken w.trace)).flatten := by
  obtain ⟨dropped, hdropped, haccount⟩ := h.account sender
  have hsends : (bySender sender (sends work)).flatten = [] := by
    rw [List.flatten_eq_nil_iff]
    intro d hd
    obtain ⟨m, hm, hmd⟩ := List.mem_filterMap.mp hd
    simp only [Option.ite_none_right_eq_some, Option.some.injEq] at hmd
    rw [← hmd.2]
    exact hwait.1 m hm
  have hheld : (heldBy w.threads sender).flatten = [] := by
    rw [List.flatten_eq_nil_iff]
    intro d hd
    cases sender with
    | loop => cases hd
    | thread t => exact hwait.2 t d (by simpa [heldBy] using hd)
  rw [haccount, hdropped hs]
  simp [hsends, hheld]

/-- A call that puts nothing in flight leaves nothing waiting. -/
theorem NothingWaiting.call {k : ConnCall} {o : Oracle} {v : ConnView Unit} {out : Out}
    (h : NothingWaiting w.threads (.conn k :: tail)) (hspec : CallSpec w.view o k v out)
    (hsend : ∀ m, k = .user (.send m) → w.view.conn.state ≠ .kConnected) :
    NothingWaiting w.threads
      (out.calls.map .conn ++ tail ++ (out.queued.flatMap ConnFunctor.body).map .conn) := by
  have hcalls : out.calls.filterMap ConnCall.inFlight = [] := by
    rcases hspec.sends with ⟨-, -, -, hc⟩ | ⟨m, hk, hs, -⟩ | ⟨m, -, -, -, -, hc⟩ |
      ⟨m, -, -, -, -, -, hc⟩
    · exact hc
    · exact absurd hs (hsend m hk)
    · rw [hc]; rfl
    · rw [hc]; rfl
  refine ⟨fun m hm => h.1 m ?_, h.2⟩
  rw [sends_afterCall hspec, hcalls] at hm
  rw [sends_cons]
  exact List.mem_append_right _ hm

/-- A call after `SHUT_WR`. -/
theorem AfterShut.call {k : ConnCall} {o : Oracle} {v : ConnView Unit} {out : Out}
    (h : AfterShut w (.conn k :: tail) pre post) (hconn : ConnInv w (.conn k :: tail))
    (hspec : CallSpec w.view o k v out) :
    AfterShut { w with view := v, trace := w.trace ++ out.obs }
      (out.calls.map .conn ++ tail ++ (out.queued.flatMap ConnFunctor.body).map .conn)
      pre (post ++ out.obs) := by
  have hflight : ∀ m, k.inFlight = some m → m.2 = [] := by
    intro m hm
    apply h.waiting.1 m
    rw [sends_cons, hm]
    exact List.mem_cons_self
  obtain ⟨hobs, hempty, hstate⟩ := hspec.idle hconn.inv h.state h.empty hflight
  have hnot : w.view.conn.state ≠ .kConnected := by rcases h.state with hs | hs <;> simp [hs]
  refine ⟨?_, ⟨h.once.1, ?_⟩, h.complete, h.written, ?_, hstate, hempty,
    h.waiting.call hspec fun _ _ => hnot⟩
  · simp [h.trace]
  · intro hmem
    rcases List.mem_append.mp hmem with hmem | hmem
    · exact h.once.2 hmem
    · exact (hobs _ hmem).2 rfl
  · intro x hx
    rcases List.mem_append.mp hx with hx | hx
    · exact h.quiet x hx
    · exact (hobs x hx).1

/-- The call that executes `SHUT_WR`. -/
theorem shut_call {k : ConnCall} {o : Oracle} {v : ConnView Unit} {out : Out}
    (hconn : ConnInv w (.conn k :: tail)) (hsend : SendInv w (.conn k :: tail))
    (hspec : CallSpec w.view o k v out) (hbefore : .shutdownWrite ∉ w.trace)
    (hshut : .shutdownWrite ∈ out.obs) (hwait : NothingWaiting w.threads (.conn k :: tail)) :
    ∃ pre, AfterShut { w with view := v, trace := w.trace ++ out.obs }
      (out.calls.map .conn ++ tail ++ (out.queued.flatMap ConnFunctor.body).map .conn) pre [] := by
  obtain ⟨hstate, hcases⟩ := hspec.shutsDown hshut
  -- in both places what is left of the backlog is written just before
  have hlast : ∃ x, out.obs = [x, .shutdownWrite] ∧ x ≠ .shutdownWrite ∧ passed [x] = [] ∧
      taken [x] = [] ∧ written [x] = w.view.conn.outputBuffer.content ∧
      w.view.conn.state ≠ .kDisconnected ∧ ∀ m, k ≠ .user (.send m) := by
    rcases hcases with ⟨rfl, hs, hw, hobs⟩ | ⟨rfl, hs, hw, -, hobs⟩
    · have hempty : w.view.conn.outputBuffer.content = [] := by
        by_contra hne
        rw [(hconn.inv.isWriting_iff (by simp [hs])).mpr hne] at hw
        cases hw
      exact ⟨.shutdown, hobs, nofun, rfl, rfl, hempty.symm, by simp [hs], nofun⟩
    · exact ⟨_, hobs, nofun, rfl, rfl, by simp [written, Obs.written], by simp [hs], nofun⟩
  obtain ⟨x, hobs, hx, hpassed, htaken, hwritten, hs, hk⟩ := hlast
  have hempty : v.conn.outputBuffer.content = [] := by
    have hcontent := hspec.stream
    have hw : written out.obs = w.view.conn.outputBuffer.content := by
      rw [hobs, ← hwritten]
      simp [written, Obs.written]
    have ht : taken out.obs = [] := by
      rw [hobs, ← htaken]
      simp [taken, Obs.taken]
    rw [hw, ht] at hcontent
    exact List.append_cancel_left hcontent
  refine ⟨w.trace ++ [x], ?_, ⟨?_, by simp⟩, ?_, ?_, by simp, Or.inl hstate, hempty,
    hwait.call hspec fun m hm => absurd hm (hk m)⟩
  · simp [hobs]
  · simp [hbefore, hx.symm]
  · intro sender
    rw [passed_append, taken_append, hpassed, htaken, List.append_nil, List.append_nil]
    exact hsend.complete hs hwait sender
  · rw [written_append, taken_append, hwritten, htaken, List.append_nil]
    exact hconn.stream

theorem create_shutInv (sockfd : Int) (writecompleteCB : Bool) (poller : EPollPoller Unit) :
    ShutInv (Connection.create sockfd writecompleteCB poller) [] :=
  Or.inl List.not_mem_nil

/-- A step that keeps the connection's state and adds no bytes to what is on its way. -/
theorem ShutInv.keep (h : ShutInv w work) (htrace : w'.trace = w.trace) (hview : w'.view = w.view)
    (hwait : NothingWaiting w.threads work → NothingWaiting w'.threads work') :
    ShutInv w' work' := by
  rcases h with hbefore | ⟨pre, post, h⟩
  · exact Or.inl (htrace ▸ hbefore)
  · exact Or.inr ⟨pre, post, htrace.trans h.trace, h.once, h.complete, h.written, h.quiet,
      hview ▸ h.state, hview ▸ h.empty, hwait h.waiting⟩

/-- Calls without a message can be queued behind the others. -/
theorem NothingWaiting.queue {threads : Nat → Option Bytes} {k : ConnCall}
    (h : NothingWaiting threads work) (hk : ∀ m, k.inFlight = some m → m.2 = []) :
    NothingWaiting threads (work ++ [.conn k]) := by
  refine ⟨fun m hm => ?_, h.2⟩
  rw [sends_append, sends_cons] at hm
  rcases List.mem_append.mp hm with hm | hm
  · exact h.1 m hm
  · exact hk m (by simpa [sends] using hm)

theorem ConnStep.shutInv {s : ConnProcess} (hw : w = s.world) (hwork : work = s.work connApp ())
    (hstep : ConnStep w work label w' work') (hok : ShutsDownIdle s label)
    (hconn : ConnInv w work) (hsend : SendInv w work) (h : ShutInv w work) : ShutInv w' work' := by
  cases hstep with
  | silent => exact h
  | poll hone hrep hqueue =>
      refine h.keep rfl rfl fun hwait => ⟨?_, hwait.2⟩
      rw [sends_append, sends_active hrep]
      exact hwait.1
  | accepted htodo hann =>
      subst htodo
      exact h.keep rfl rfl id
  | acceptedBefore htodo hann =>
      subst htodo
      exact h.keep rfl rfl id
  | @call k o tail v out htodo hcall =>
      subst htodo
      have hspec := hconn.callSpec hcall
      rcases h with hbefore | ⟨pre, post, h⟩
      · by_cases hshut : Obs.shutdownWrite ∈ out.obs
        · have hwait : NothingWaiting w.threads (.conn k :: tail) := by
            subst hw
            rw [hwork]
            refine hok.2 ⟨k, tail, hwork.symm, ?_⟩
            rcases (hspec.shutsDown hshut).2 with ⟨hk, hs, hidle, -⟩ | ⟨hk, hs, hidle, hres, -⟩
            · exact Or.inl ⟨hk, hs, hidle⟩
            · exact Or.inr ⟨hk, hs, hidle, hres⟩
          obtain ⟨pre, h⟩ := shut_call hconn hsend hspec hbefore hshut hwait
          exact Or.inr ⟨pre, [], h⟩
        · left
          simp [hbefore, hshut]
      · exact Or.inr ⟨pre, post ++ out.obs, h.call hconn hspec⟩
  | announced hann => exact h.keep rfl rfl fun hwait => hwait.queue nofun
  | sendPassed hidle hs hm =>
      rcases h with h | ⟨pre, post, h⟩
      · left
        simpa using h
      · rcases h.state with h | h <;> cases h.symm.trans hs
  | @sendQueued t d hheld =>
      refine h.keep rfl rfl fun hwait => ?_
      have hnil := hwait.2 t d hheld
      subst hnil
      have hthreads : NothingWaiting (Function.update w.threads t none) work := by
        refine ⟨hwait.1, fun t' d' hd' => ?_⟩
        by_cases ht : t' = t
        · subst ht
          simp at hd'
        · rw [Function.update_of_ne ht] at hd'
          exact hwait.2 t' d' hd'
      refine hthreads.queue fun m hm => ?_
      cases hm
      rfl
  | destroy hann hdes => exact h.keep rfl rfl fun hwait => hwait.queue nofun
  | queued => exact h.keep rfl rfl fun hwait => hwait.queue nofun

end Invariant

/-- **Graceful shutdown.** In every run with messages of at most `INT_MAX` bytes that executes
`SHUT_WR` only while no byte of an accepted message is on its way to the loop: wherever
`SHUT_WR` is in the history, every byte of every message that passed the check of `send`
before has been taken and accepted by `write(2)`, and no `write(2)` follows. -/
theorem shutdown_after_sends {s : ConnProcess} (h : connApp.system.ReachableBy ShutsDownIdle s)
    {pre post : List Obs} (hshut : s.world.trace = pre ++ .shutdownWrite :: post) :
    (∀ sender, (bySender sender (passed pre)).flatten = (bySender sender (taken pre)).flatten) ∧
      written pre = concat (taken pre) ∧ ∀ x ∈ post, x.isWrite = false := by
  have hinv : SendInv s.world (s.work connApp ()) ∧ ShutInv s.world (s.work connApp ()) := by
    refine (conn_invariant (P := fun w work => SendInv w work ∧ ShutInv w work) h ?_ ?_).2
    · exact fun fd cb p => ⟨create_sendInv fd cb p, create_shutInv fd cb p⟩
    · rintro s label w' work' hok hconn ⟨hsend, hinv⟩ hstep
      exact ⟨hstep.sendInv hok.1 hconn hsend, hstep.shutInv rfl rfl hok hconn hsend hinv⟩
  rcases hinv.2 with hnone | ⟨pre', post', hafter⟩
  · rw [hshut] at hnone
    simp at hnone
  · -- `SHUT_WR` is executed once, so the split is the one of the invariant
    have hsplit := hafter.trace.symm.trans hshut
    obtain ⟨rfl, -, rfl⟩ :=
      (List.append_cons_inj_of_notMem hafter.once.1 hafter.once.2).mp hsplit
    exact ⟨hafter.complete, hafter.written, hafter.quiet⟩

/-- Thread 1 passes the check of `send`; then user code calls `shutdown()`, and the functor of
thread 1 is queued, run and written. -/
def cutOffRun : List ConnLabel :=
  establishing ++
    [.thread (.sendCheck 1 (.piece ⟨[7], by decide⟩)), .poll () [.conn .userCode],
      .call () { Oracle.quiet with calls := [.shutdown] }, .call () .quiet,
      .thread (.sendQueue 1), .handled (), .swap (), .functor (), .call () .quiet, .passed (),
      .test (), .poll () [.conn (.handleEvent POLLOUT)], .call () .quiet,
      .call () { Oracle.quiet with write := .accept 1 }]

/-- `SHUT_WR` is executed while an accepted message is on its way: its byte has not been
written then, and it is written afterwards. -/
theorem shutdown_cuts_off_send :
    ∃ (s : ConnProcess) (pre post : List Obs), connApp.system.Reachable s ∧
      s.world.trace = pre ++ .shutdownWrite :: post ∧ passed pre = [(.thread 1, [7])] ∧
      written pre = [] ∧ .wrote [7] ∈ post := by
  obtain ⟨s, hs, hp⟩ := System.exists_reachable_of_replay connApp.system cutOffRun connStart
    (fun s => s.world.trace == [.established, .connectionCallback true, .passed (.thread 1) [7],
      .shutdown, .shutdownWrite, .took (.thread 1) [7], .event POLLOUT, .wrote [7],
      .shutdownWrite])
    connStart_init (by decide +kernel)
  refine ⟨s, [.established, .connectionCallback true, .passed (.thread 1) [7], .shutdown],
    [.took (.thread 1) [7], .event POLLOUT, .wrote [7], .shutdownWrite], hs, ?_, rfl, rfl,
    by simp⟩
  simpa using hp

/-- The loop's own thread sends a byte and shuts the connection down. -/
def gracefulRun : List ConnLabel :=
  establishing ++
    [.poll () [.conn .userCode],
      .call () { Oracle.quiet with calls := [.send (.piece ⟨[7], by decide⟩), .shutdown] },
      .call () .quiet, .call () .quiet, .call () .quiet, .handled (), .swap (), .passed (),
      .test (), .poll () [.conn (.handleEvent POLLOUT)], .call () .quiet,
      .call () { Oracle.quiet with write := .accept 1 }]

/-- No other thread has sent anything, and no message is in flight. -/
def ownSends (s : ConnProcess) : Bool :=
  (passed s.world.trace).all (·.1 = .loop) && (sends (s.work connApp ())).isEmpty

/-- `ownSends` where `SHUT_WR` may be executed. -/
def drained (s : ConnProcess) (label : ConnLabel) : Bool :=
  match label, s.work connApp () with
  | .call _ _, .conn (.user .shutdown) :: _ => ownSends s
  | .call _ _, .conn .handleWrite :: _ => ownSends s
  | _, _ => true

theorem nothingWaiting_of_ownSends {s : ConnProcess}
    (h : connApp.system.ReachableBy ShutsDownIdle s) (hown : ownSends s = true) :
    NothingWaiting s.world.threads (s.work connApp ()) := by
  simp only [ownSends, Bool.and_eq_true, List.all_eq_true, decide_eq_true_eq,
    List.isEmpty_iff] at hown
  refine ⟨by simp [hown.2], fun t d ht => ?_⟩
  -- a string held by a thread would be a message that passed the check
  obtain ⟨dropped, -, haccount⟩ := (reachable_sendInv h fun _ _ hok => hok.1).2.account (.thread t)
  have hnone : bySender (.thread t) (passed s.world.trace) = [] :=
    bySender_eq_nil fun d hd => by cases hown.1 _ hd
  rw [hnone] at haccount
  have hheld := (List.append_eq_nil_iff.mp haccount.symm).2
  simp [heldBy, ht] at hheld

theorem gracefulRun_bounded : ∀ label ∈ gracefulRun, ∀ s, BoundedMessages s label := by
  have hquiet : Oracle.quiet.Bounded := Oracle.quiet_bounded _
  have hscript : { Oracle.quiet with
      calls := [.send (.piece ⟨[7], by decide⟩), .shutdown] }.Bounded :=
    ⟨by simp [UserCall.Bounded, Message.content, intMax], hquiet.onMessage⟩
  have hwrite := Oracle.quiet_bounded (.accept 1)
  intro label hlabel s
  simp only [gracefulRun, establishing, List.cons_append, List.nil_append, List.mem_cons,
    List.not_mem_nil, or_false] at hlabel
  rcases hlabel with rfl | rfl | rfl | rfl | rfl | rfl | rfl | rfl | rfl | rfl | rfl | rfl | rfl |
    rfl | rfl | rfl | rfl | rfl | rfl | rfl | rfl
  all_goals first | exact trivial | exact hquiet | exact hscript | exact hwrite

/-- The byte is written before `SHUT_WR`. -/
theorem shutdown_after_sends_backlog :
    ∃ (s : ConnProcess) (pre : List Obs), connApp.system.ReachableBy ShutsDownIdle s ∧
      s.world.trace = pre ++ [.shutdownWrite] ∧ passed pre = [(.loop, [7])] ∧
      written pre = concat (taken pre) := by
  have hidle : ∀ label ∈ gracefulRun, ∀ s, connApp.system.ReachableBy ShutsDownIdle s →
      drained s label = true → ShutsDownIdle s label := by
    intro label hlabel s hs htest
    refine ⟨gracefulRun_bounded label hlabel s, fun hshut => nothingWaiting_of_ownSends hs ?_⟩
    cases label with
    | call l o =>
        obtain ⟨k, tail, hwork, ⟨rfl, -⟩ | ⟨rfl, -⟩⟩ := hshut
        · simpa [drained, hwork] using htest
        · simpa [drained, hwork] using htest
    | _ => exact hshut.elim
  obtain ⟨s, hs, hp⟩ := System.exists_reachableBy_of_replay connApp.system drained gracefulRun
    connStart
    (fun s => s.world.trace == [.established, .connectionCallback true, .passed .loop [7],
      .took .loop [7], .shutdown, .event POLLOUT, .wrote [7], .shutdownWrite])
    connStart_init hidle (by decide +kernel)
  have htrace : s.world.trace = [.established, .connectionCallback true, .passed .loop [7],
      .took .loop [7], .shutdown, .event POLLOUT, .wrote [7]] ++ [.shutdownWrite] := by
    simpa using hp
  exact ⟨s, _, hs, htrace, rfl, (shutdown_after_sends hs htrace).2.1⟩

end Reactor
