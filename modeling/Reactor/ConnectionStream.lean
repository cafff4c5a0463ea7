import Reactor.Connection

/-!
# The output stream of a connection

`sendInLoopEX`, `handleWrite` and the queue of `sendInLoop` functors handle one stream.
Every message that passed the check of `send` is taken, dropped after the connection was
closed, in flight among the loop's calls to come, or held by its thread before the push;
for each sender these parts come in this order.

* `SendInv` - that account, kept by every step that sends messages of at most `INT_MAX`
  bytes.
* `output_stream_integrity` - what was written and what is in the output buffer are the
  messages taken; each sender's messages among them are the first ones it sent, and the others
  are on their way or came too late.
-/

namespace Reactor

open Reactor.Lib

/-! ### Messages of at most `INT_MAX` bytes -/

def UserCall.Bounded : UserCall → Prop
  | .send m => m.content.length ≤ intMax
  | _ => True

/-- User code sends messages of at most `INT_MAX` bytes. -/
structure Oracle.Bounded (o : Oracle) : Prop where
  calls : ∀ u ∈ o.calls, u.Bounded
  onMessage : ∀ b b' calls, o.onMessage b = .ok (b', calls) → ∀ u ∈ calls, u.Bounded

/-- The step sends no message of more than `INT_MAX` bytes. -/
def BoundedMessages (_ : ConnProcess) : ConnLabel → Prop
  | .call _ o => o.Bounded
  | .thread (.sendCheck _ m) => m.content.length ≤ intMax
  | _ => True

theorem Message.loopCall_inFlight {m : Message} (h : m.content.length ≤ intMax) :
    m.loopCall.inFlight = some (.loop, m.content) := by
  cases m with
  | piece s =>
      have hbytes : (StringPiece.ofString s.1).bytes = .ok s.1 := StringPiece.bytes_ofString h
      rw [Message.loopCall, ConnCall.inFlight, hbytes]
      rfl
  | buffer b => rfl

theorem CallSpec.calls_bounded {v v' : ConnView Unit} {o : Oracle} {k : ConnCall} {out : Out}
    (h : CallSpec v o k v' out) (ho : o.Bounded) : ∀ u, .user u ∈ out.calls → u.Bounded := by
  cases h with
  | send m hs =>
      intro u hu
      cases m <;> simp [Message.loopCall] at hu
  | userCode => exact fun u hu => ho.calls u (by simpa using hu)
  | handleEvent =>
      intro u hu
      rcases mem_handleEvent hu with h | h | h | h | h <;> cases h
  | readData _ _ hmsg => exact fun u hu => ho.onMessage _ _ _ hmsg u (by simpa using hu)
  | connectEstablished => exact fun u hu => ho.calls u (by simpa using hu)
  | handleClose => exact fun u hu => ho.calls u (by simpa using hu)
  | disconnect => exact fun u hu => ho.calls u (by simpa using hu)
  | _ => simp

/-! ### The account of sent messages -/

/-- The string a sender holds between the check and the push of `send`. -/
def heldBy (threads : Nat → Option Bytes) : Sender → List Bytes
  | .loop => []
  | .thread t => (threads t).toList

theorem heldBy_update (threads : Nat → Option Bytes) (t : Nat) (x : Option Bytes)
    (sender : Sender) :
    heldBy (Function.update threads t x) sender =
      if sender = .thread t then x.toList else heldBy threads sender := by
  cases sender with
  | loop => rfl
  | thread t' =>
      by_cases ht : t' = t
      · simp [heldBy, ht]
      · simp [heldBy, ht]

/-- Where the messages that passed the check are. A message of the loop's own thread is
only in flight while it is the next call. -/
structure SendInv (w : Connection) (work : List ConnAct) : Prop where
  short : ∀ u, .conn (.user u) ∈ work → u.Bounded
  held : ∀ t s, w.threads t = some s → s.length ≤ intMax
  head : ∀ a ∈ work.tail, ∀ d, a.inFlight ≠ some (.loop, d)
  account : ∀ sender, ∃ dropped, (w.view.conn.state ≠ .kDisconnected → dropped = []) ∧
    bySender sender (passed w.trace) =
      bySender sender (taken w.trace) ++ dropped ++ bySender sender (sends work) ++ heldBy w.threads sender

section Account

variable {w w' : Connection} {work work' tail : List ConnAct} {label : ConnLabel}

@[simp] theorem bySender_nil (sender : Sender) : bySender sender [] = [] := rfl

theorem bySender_eq_nil {sender : Sender} {ms : List (Sender × Bytes)}
    (h : ∀ d, (sender, d) ∉ ms) : bySender sender ms = [] := by
  rw [bySender, List.filterMap_eq_nil_iff]
  rintro ⟨s, d⟩ hm
  simp only [ite_eq_right_iff]
  rintro rfl
  exact absurd hm (h d)

theorem bySender_singleton (sender s : Sender) (d : Bytes) :
    bySender sender [(s, d)] = if s = sender then [d] else [] := by
  simp only [bySender, List.filterMap_cons, List.filterMap_nil]
  split <;> simp_all

/-- A call without a message in flight, queued behind the others, changes nothing. -/
theorem SendInv.queue {k : ConnCall} (h : SendInv w work) (hk : k.inFlight = none)
    (huser : ∀ u, k ≠ .user u) : SendInv w (work ++ [.conn k]) := by
  refine ⟨?_, h.held, ?_, ?_⟩
  · intro u hu
    rcases List.mem_append.mp hu with hu | hu
    · exact h.short u hu
    · cases List.mem_singleton.mp hu
      exact absurd rfl (huser u)
  · intro a ha d
    rcases mem_tail_append ha with ha | ha
    · exact h.head a ha d
    · rw [List.mem_singleton.mp ha, ConnAct.inFlight, hk]
      simp
  · intro sender
    have hsends : sends (work ++ [.conn k]) = sends work := by
      rw [sends_append, sends_cons, hk]
      simp [sends]
    rw [hsends]
    exact h.account sender

/-- The account over one call of the connection. -/
theorem SendInv.call {k : ConnCall} {o : Oracle} {v : ConnView Unit} {out : Out}
    (h : SendInv w (.conn k :: tail)) (hspec : CallSpec w.view o k v out) (ho : o.Bounded) :
    SendInv { w with view := v, trace := w.trace ++ out.obs }
      (out.calls.map .conn ++ tail ++ (out.queued.flatMap ConnFunctor.body).map .conn) := by
  refine ⟨?_, h.held, ?_, ?_⟩
  · intro u hu
    simp only [List.mem_append, List.mem_map, ConnAct.conn.injEq, exists_eq_right] at hu
    rcases hu with (hu | hu) | hu
    · exact hspec.calls_bounded ho u hu
    · exact h.short u (List.mem_cons_of_mem _ hu)
    · cases hspec.queued_body _ hu
  · -- only the first of the calls made can be a send of the loop's own thread
    intro a ha d
    rcases mem_tail_append ha with ha | ha
    · rcases mem_tail_append ha with ha | ha
      · rcases hspec.sends with ⟨-, -, -, hc⟩ | ⟨m, -, -, -, -, -, hc⟩ | ⟨m, -, -, -, -, hc⟩ |
          ⟨m, -, -, -, -, -, hc⟩
        · obtain ⟨k', hk', rfl⟩ := List.mem_map.mp (List.mem_of_mem_tail ha)
          rw [ConnAct.inFlight, List.filterMap_eq_nil_iff.mp hc k' hk']
          simp
        all_goals simp [hc] at ha
      · exact h.head a ha d
    · obtain ⟨k', hk', rfl⟩ := List.mem_map.mp ha
      rw [hspec.queued_body k' hk']
      simp [ConnAct.inFlight, ConnCall.inFlight]
  · intro sender
    obtain ⟨dropped, hdropped, haccount⟩ := h.account sender
    have hstate : v.conn.state ≠ .kDisconnected → w.view.conn.state ≠ .kDisconnected :=
      fun hne hs => hne (hspec.moves.disconnected hs)
    rw [sends_cons, bySender_append] at haccount
    rw [sends_afterCall hspec, taken_append, passed_append, bySender_append, bySender_append,
      bySender_append]
    change ∃ dropped, (v.conn.state ≠ .kDisconnected → dropped = []) ∧ _ = _ ++ heldBy w.threads sender
    rcases hspec.sends with ⟨hk, ht, hp, hc⟩ | ⟨m, rfl, hs, hs', ht, hp, hc⟩ |
      ⟨m, hk, hs, ht, hp, hc⟩ | ⟨m, hk, hs, hs', ht, hp, hc⟩
    · -- nothing moves
      refine ⟨dropped, fun hne => hdropped (hstate hne), ?_⟩
      rw [ht, hp, hc]
      simpa [hk] using haccount
    · -- `send` passes the check; its message is the next call
      refine ⟨dropped, fun hne => hdropped (hstate hne), ?_⟩
      have hshort : m.content.length ≤ intMax := h.short (.send m) (by simp)
      have hflight := Message.loopCall_inFlight hshort
      rw [ht, hp, hc]
      simp only [ConnCall.inFlight, Option.toList_none, bySender_nil, List.nil_append] at haccount
      simp only [List.filterMap_cons, hflight, List.filterMap_nil, bySender_nil, List.append_nil,
        bySender_singleton]
      by_cases hsender : Sender.loop = sender
      · subst hsender
        have hnone : bySender .loop (sends tail) = [] := by
          refine bySender_eq_nil fun d hd => ?_
          obtain ⟨a, ha, haf⟩ := List.mem_filterMap.mp hd
          exact h.head a ha d haf
        simp only [hnone, heldBy, List.append_nil] at haccount ⊢
        simp [haccount]
      · simpa [hsender] using haccount
    · -- the connection is closed: the message is dropped
      refine ⟨dropped ++ bySender sender [m], ?_, ?_⟩
      · intro hne
        exact absurd hs (hstate hne)
      · rw [ht, hp, hc]
        simpa [hk] using haccount
    · -- the message is taken; nothing was dropped before it
      have hnone := hdropped hs
      refine ⟨[], fun _ => rfl, ?_⟩
      rw [ht, hp, hc]
      simpa [hk, hnone] using haccount

/-- The events of a poll are no sends, and neither are the functors queued by the loop's own
thread. -/
theorem SendInv.poll {active : List ConnAct} {cbs : List ConnFunctor} (h : SendInv w work)
    (hrep : ∀ a ∈ active, w.reported a = true)
    (hqueue : work = (cbs.flatMap ConnFunctor.body).map .conn) : SendInv w (active ++ work) := by
  refine ⟨?_, h.held, ?_, ?_⟩
  · intro u hu
    rcases List.mem_append.mp hu with hu | hu
    · have := hrep _ hu
      simp [Connection.reported] at this
    · exact h.short u hu
  · -- what is queued are functors, which send for other threads
    intro a ha d hflight
    rcases List.mem_append.mp (List.mem_of_mem_tail ha) with ha | ha
    · have hmem : (Sender.loop, d) ∈ sends active := List.mem_filterMap.mpr ⟨a, ha, hflight⟩
      rw [sends_active hrep] at hmem
      cases hmem
    · rw [hqueue] at ha
      obtain ⟨k, hk, rfl⟩ := List.mem_map.mp ha
      obtain ⟨f, -, hf⟩ := List.mem_flatMap.mp hk
      cases f with
      | sendInLoop t message =>
          rw [List.mem_singleton.mp hf] at hflight
          simp [ConnAct.inFlight, ConnCall.inFlight] at hflight
      | _ =>
          rw [List.mem_singleton.mp hf] at hflight
          cases hflight
  · intro sender
    rw [sends_append, sends_active hrep]
    exact h.account sender

/-- A thread that has passed the check of `send` holds its message. -/
theorem SendInv.checked {t : Nat} {d : Bytes} (h : SendInv w work) (hidle : w.threads t = none)
    (hlen : d.length ≤ intMax) :
    SendInv { w with threads := Function.update w.threads t (some d)
                     trace := w.trace ++ [.passed (.thread t) d] } work := by
  refine ⟨h.short, ?_, h.head, ?_⟩
  · intro t' s' hheld
    by_cases ht : t' = t
    · subst ht
      simp only [Function.update_self, Option.some.injEq] at hheld
      exact hheld ▸ hlen
    · simp only [Function.update_of_ne ht] at hheld
      exact h.held t' s' hheld
  · intro sender
    obtain ⟨dropped, hdropped, haccount⟩ := h.account sender
    refine ⟨dropped, hdropped, ?_⟩
    have hp : passed [Obs.passed (.thread t) d] = [(.thread t, d)] := rfl
    have ht : taken [Obs.passed (.thread t) d] = [] := rfl
    simp only [passed_append, taken_append, hp, ht, List.append_nil, bySender_append,
      bySender_singleton, heldBy_update]
    by_cases hsender : sender = .thread t
    · subst hsender
      simp only [heldBy, hidle, Option.toList_none, List.append_nil] at haccount
      simp [haccount]
    · simpa [hsender, Ne.symm hsender] using haccount

/-- The push moves the message of the thread behind the others. -/
theorem SendInv.pushed {t : Nat} {d : Bytes} (h : SendInv w work) (hheld : w.threads t = some d) :
    SendInv { w with threads := Function.update w.threads t none }
      (work ++ [.conn (.sendInLoop (.thread t) (.ofString d))]) := by
  have hflight : (ConnCall.sendInLoop (.thread t) (.ofString d)).inFlight =
      some (.thread t, d) := by
    rw [ConnCall.inFlight, StringPiece.bytes_ofString (h.held t d hheld)]
    rfl
  refine ⟨?_, ?_, ?_, ?_⟩
  · intro u hu
    rcases List.mem_append.mp hu with hu | hu
    · exact h.short u hu
    · cases List.mem_singleton.mp hu
  · intro t' s' hheld'
    by_cases ht : t' = t
    · subst ht
      simp at hheld'
    · simp only [Function.update_of_ne ht] at hheld'
      exact h.held t' s' hheld'
  · intro a ha d
    rcases mem_tail_append ha with ha | ha
    · exact h.head a ha d
    · rw [List.mem_singleton.mp ha, ConnAct.inFlight, hflight]
      simp
  · intro sender
    obtain ⟨dropped, hdropped, haccount⟩ := h.account sender
    refine ⟨dropped, hdropped, ?_⟩
    rw [sends_append, sends_cons, hflight]
    simp only [Option.toList_some, List.cons_append, List.nil_append, bySender_append,
      heldBy_update]
    change _ = _ ++ (_ ++ bySender sender [(.thread t, d)]) ++ _
    rw [bySender_singleton]
    by_cases hsender : sender = .thread t
    · subst hsender
      simpa [heldBy, hheld] using haccount
    · simpa [hsender, Ne.symm hsender] using haccount

/-- **Every step keeps the account of sent messages.** -/
theorem ConnStep.sendInv {s : ConnProcess} (hstep : ConnStep w work label w' work')
    (hbound : BoundedMessages s label) (hconn : ConnInv w work) (h : SendInv w work) :
    SendInv w' work' := by
  cases hstep with
  | silent => exact h
  | poll _ hrep hqueue => exact h.poll hrep hqueue
  | accepted hwork hann =>
      subst hwork
      refine ⟨?_, h.held, h.head, h.account⟩
      intro u hu
      rcases List.mem_cons.mp hu with hu | hu
      · cases hu
      · exact h.short u (List.mem_cons_of_mem _ hu)
  | acceptedBefore hwork hann =>
      subst hwork
      exact ⟨fun u hu => h.short u (List.mem_cons_of_mem _ hu), h.held,
        fun a ha => h.head a (List.mem_of_mem_tail ha), h.account⟩
  | call hwork hcall =>
      subst hwork
      exact h.call (hconn.callSpec hcall) hbound
  | announced hann =>
      have hq := h.queue (k := .connectEstablished) rfl nofun
      exact ⟨hq.short, hq.held, hq.head, hq.account⟩
  | @sendPassed t m s hidle hs hm =>
      have hlen : m.content.length ≤ intMax := hbound
      rw [Message.boundString_eq hlen, Except.ok.injEq] at hm
      subst hm
      exact h.checked hidle hlen
  | sendQueued hheld => exact h.pushed hheld
  | destroy hann hdes =>
      have hq := h.queue (k := .connectDestroyed) rfl nofun
      exact ⟨hq.short, hq.held, hq.head, hq.account⟩
  | queued => exact h.queue rfl nofun

end Account

/-! ### The stream -/

theorem create_sendInv (sockfd : Int) (writecompleteCB : Bool) (poller : EPollPoller Unit) :
    SendInv (Connection.create sockfd writecompleteCB poller) [] where
  short := by simp
  held := by simp [Connection.create]
  head := by simp
  account sender := ⟨[], fun _ => rfl, by cases sender <;> rfl⟩

theorem reachable_sendInv {s : ConnProcess} {ok : ConnProcess → ConnLabel → Prop}
    (h : connApp.system.ReachableBy ok s) (hok : ∀ s label, ok s label → BoundedMessages s label) :
    ConnInv s.world (s.work connApp ()) ∧ SendInv s.world (s.work connApp ()) :=
  conn_invariant h create_sendInv fun s label _ _ hstep hconn hsend hconnStep =>
    hconnStep.sendInv (hok s label hstep) hconn hsend

/-- **Output stream integrity.** In every state reached with messages of at most `INT_MAX`
bytes, the bytes accepted by `write(2)` and then the readable bytes of the output buffer
are the messages `sendInLoopEX` processed while the connection was not closed, in that
order; and of each sender these are the first ones that passed the check of `send`, in
order and without a gap. None is lost: the rest of what passed the check is, in order, what a
closed connection has dropped, what is among the loop's calls to come, and what its thread
holds before the push. -/
theorem output_stream_integrity {s : ConnProcess}
    (h : connApp.system.ReachableBy BoundedMessages s) :
    written s.world.trace ++ s.world.view.conn.outputBuffer.content =
        concat (taken s.world.trace) ∧
      ∀ sender, bySender sender (taken s.world.trace) <+: bySender sender (passed s.world.trace) ∧
        ∃ dropped, (s.world.view.conn.state ≠ .kDisconnected → dropped = []) ∧
          bySender sender (passed s.world.trace) =
            bySender sender (taken s.world.trace) ++ dropped ++
              bySender sender (sends (s.work connApp ())) ++ heldBy s.world.threads sender := by
  obtain ⟨hconn, hsend⟩ := reachable_sendInv h fun _ _ hok => hok
  refine ⟨hconn.stream, fun sender => ?_⟩
  obtain ⟨dropped, hdropped, haccount⟩ := hsend.account sender
  refine ⟨?_, dropped, hdropped, haccount⟩
  rw [haccount, List.append_assoc, List.append_assoc]
  exact List.prefix_append _ _

theorem Oracle.quiet_bounded (w : WriteResult) : { Oracle.quiet with write := w }.Bounded where
  calls := by simp [Oracle.quiet]
  onMessage := by simp [Oracle.quiet]

/-- Thread 1 sends two bytes and the loop's own thread one; then the socket accepts one. -/
def partialWriteRun : List ConnLabel :=
  establishing ++
    [.thread (.sendCheck 1 (.piece ⟨[1, 2], by decide⟩)), .thread (.sendQueue 1),
      .poll () [.conn .userCode],
      .call () { Oracle.quiet with calls := [.send (.piece ⟨[3], by decide⟩)] },
      .call () .quiet, .call () .quiet, .handled (), .swap (), .functor (), .call () .quiet,
      .passed (), .test (), .poll () [.conn (.handleEvent POLLOUT)], .call () .quiet,
      .call () { Oracle.quiet with write := .accept 1 }]

theorem partialWriteRun_bounded : ∀ label ∈ partialWriteRun, ∀ s, BoundedMessages s label := by
  have hquiet : Oracle.quiet.Bounded := Oracle.quiet_bounded _
  have hscript : { Oracle.quiet with calls := [.send (.piece ⟨[3], by decide⟩)] }.Bounded :=
    ⟨by simp [UserCall.Bounded, Message.content, intMax], hquiet.onMessage⟩
  have hwrite := Oracle.quiet_bounded (.accept 1)
  intro label hlabel s
  simp only [partialWriteRun, establishing, List.cons_append, List.nil_append, List.mem_cons,
    List.not_mem_nil, or_false] at hlabel
  rcases hlabel with rfl | rfl | rfl | rfl | rfl | rfl | rfl | rfl | rfl | rfl | rfl | rfl | rfl |
    rfl | rfl | rfl | rfl | rfl | rfl | rfl | rfl | rfl | rfl | rfl
  all_goals first | exact trivial | exact hquiet | exact hscript | exact hwrite |
    simp [BoundedMessages, Message.content, intMax]

/-- The byte of the loop's thread, which came first, is written; the two of thread 1 wait in
the output buffer, and nothing else of it is on its way. -/
theorem output_stream_integrity_partial_write :
    ∃ s : ConnProcess, connApp.system.ReachableBy BoundedMessages s ∧
      written s.world.trace = [3] ∧ s.world.view.conn.outputBuffer.content = [1, 2] ∧
      concat (taken s.world.trace) = [3, 1, 2] ∧
      bySender (.thread 1) (taken s.world.trace) = [[1, 2]] := by
  obtain ⟨s, hs, hp⟩ := System.exists_reachableBy_of_replay connApp.system (fun _ _ => true)
    partialWriteRun connStart
    (fun s => written s.world.trace == [3] && s.world.view.conn.outputBuffer.content == [1, 2] &&
      decide (s.world.view.conn.state = .kConnected) &&
      bySender (.thread 1) (passed s.world.trace) == [[1, 2]] &&
      bySender (.thread 1) (sends (s.work connApp ())) == [] &&
      heldBy s.world.threads (.thread 1) == [])
    connStart_init (fun label hlabel s _ _ => partialWriteRun_bounded label hlabel s)
    (by decide +kernel)
  simp only [Bool.and_eq_true, beq_iff_eq, decide_eq_true_eq] at hp
  obtain ⟨⟨⟨⟨⟨hwritten, hbacklog⟩, hstate⟩, hpassed⟩, hsends⟩, hheld⟩ := hp
  obtain ⟨hstream, hsenders⟩ := output_stream_integrity hs
  rw [hwritten, hbacklog] at hstream
  obtain ⟨-, dropped, hdropped, haccount⟩ := hsenders (.thread 1)
  rw [hpassed, hsends, hheld, hdropped (by rw [hstate]; decide)] at haccount
  simp only [List.append_nil] at haccount
  exact ⟨s, hs, hwritten, hbacklog, hstream.symm, haccount.symm⟩

end Reactor
