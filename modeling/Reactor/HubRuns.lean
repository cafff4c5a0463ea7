import Reactor.Hub

/-!
# Runs of the hub (`examples/hub/hub.cc`)

* `hub_onMessage_ok` - one call of `onMessage` always returns; what it has handled are the
  first messages of the input.
* `HubInv`, `hub_step` - every step of the hub is some events on the board, and the commands
  among these are what its clients wrote.
* `hub_keeps_board` - **every run**, with any interleaving of the clients, their bytes cut
  anywhere.
-/

namespace Reactor

open Reactor.Lib HubCodec

/-! ### A message at the hub -/

section Messages

variable {h h' : Hub} {c : Nat} {m : HubMessage} {bd : Board} (time : Int)

/-- What the loop of `onMessage` does with a message. -/
def Hub.obey (h : Hub) (c : Nat) (m : HubMessage) (time : Int) : Hub :=
  if m.cmd = pub then h.doPublish m.topic m.content time
  else if m.cmd = sub then h.doSubscribe c m.topic
  else if m.cmd = unsub then h.doUnsubscribe c m.topic
  else h.shutdown c

theorem Hub.Shows.obey (hs : h.Shows bd) (hline : IsLine m.topic ∧ IsLine m.content) :
    (h.obey c m time).Shows (bd.event (.command c m time)) := by
  simp only [Hub.obey, Board.event]
  split
  · exact hs.publish hline time
  · split
    · exact hs.subscribe c m.topic
    · split
      · exact hs.unsubscribe c m.topic
      · exact hs.shutdown c

/-- Nothing was read, no connection has come up or gone down, and only connection `c` has
changed its state or its subscription. -/
structure Hub.Frame (c : Nat) (h h' : Hub) : Prop where
  received : ∀ d, (h'.conns d).received = (h.conns d).received
  isUp : ∀ d, (h'.conns d).isUp = (h.conns d).isUp
  state : ∀ d, d ≠ c → (h'.conns d).state = (h.conns d).state
  subscription : ∀ d, d ≠ c → (h'.conns d).subscription = (h.conns d).subscription

theorem Hub.Frame.trans {h'' : Hub} (hf : Hub.Frame c h h') (hf' : Hub.Frame c h' h'') :
    Hub.Frame c h h'' where
  received d := (hf'.received d).trans (hf.received d)
  isUp d := (hf'.isUp d).trans (hf.isUp d)
  state d hd := (hf'.state d hd).trans (hf.state d hd)
  subscription d hd := (hf'.subscription d hd).trans (hf.subscription d hd)

theorem Hub.Frame.idle (hf : Hub.Frame c h h') (hup : (h.conns c).isUp = true) (hidle : h.Idle) :
    h'.Idle := by
  intro d hd
  rw [hf.isUp d] at hd
  have hne : d ≠ c := by
    rintro rfl
    rw [hup] at hd
    cases hd
  rw [hf.subscription d hne]
  exact hidle d hd

theorem shutdown_frame : Hub.Frame c h (h.shutdown c) ∧
    ∀ d, ((h.shutdown c).conns d).inputBuffer = (h.conns d).inputBuffer := by
  unfold Hub.shutdown
  split
  · rename_i hstate
    refine ⟨⟨fun d => ?_, fun d => ?_, fun d hd => ?_, fun d hd => ?_⟩, fun d => ?_⟩ <;>
      by_cases hd' : d = c <;> simp_all [Hub.setConn, HubConn.isUp]
  · exact ⟨⟨fun _ => rfl, fun _ => rfl, fun _ _ => rfl, fun _ _ => rfl⟩, fun _ => rfl⟩

theorem shutdown_state (hup : (h.conns c).isUp = true) :
    ((h.shutdown c).conns c).state = .kDisconnecting := by
  unfold Hub.shutdown
  split
  · simp [Hub.setConn]
  · rename_i hstate
    simpa [HubConn.isUp, hstate] using hup

theorem obey_frame (hs : h.Shows bd) :
    Hub.Frame c h (h.obey c m time) ∧
      ∀ d, ((h.obey c m time).conns d).inputBuffer = (h.conns d).inputBuffer := by
  unfold Hub.obey
  split
  · have hconns := fun d => @doPublish_conns h d m.topic m.content time
      (hs.topic m.topic) (hs.audience_nodup m.topic)
    refine ⟨⟨fun d => ?_, fun d => ?_, fun d _ => ?_, fun d _ => ?_⟩, fun d => ?_⟩ <;> rw [hconns d]
    rfl
  · split
    · refine ⟨⟨fun d => ?_, fun d => ?_, fun d _ => ?_, fun d hd => ?_⟩, fun d => ?_⟩ <;>
        rw [doSubscribe_conns]
      · rfl
      · exact if_neg hd
    · split
      · refine ⟨⟨fun d => ?_, fun d => ?_, fun d _ => ?_, fun d hd => ?_⟩, fun d => ?_⟩ <;>
          rw [doUnsubscribe_conns]
        · rfl
        · exact if_neg hd
      · exact shutdown_frame

/-- The loop goes on after a command it knows. -/
def HubMessage.known (m : HubMessage) : Bool := m.cmd = pub ∨ m.cmd = sub ∨ m.cmd = unsub

theorem obey_state (hs : h.Shows bd) (hup : (h.conns c).isUp = true) :
    ((h.obey c m time).conns c).state =
      if m.known = true then (h.conns c).state else .kDisconnecting := by
  unfold Hub.obey
  by_cases hpub : m.cmd = pub
  · rw [if_pos hpub, doPublish_conns (hs.topic m.topic) (hs.audience_nodup m.topic)]
    simp [HubMessage.known, hpub]
  · by_cases hsub : m.cmd = sub
    · rw [if_neg hpub, if_pos hsub, doSubscribe_conns]
      simp [HubMessage.known, hsub]
    · by_cases hunsub : m.cmd = unsub
      · rw [if_neg hpub, if_neg hsub, if_pos hunsub, doUnsubscribe_conns]
        simp [HubMessage.known, hunsub]
      · rw [if_neg hpub, if_neg hsub, if_neg hunsub, shutdown_state hup]
        simp [HubMessage.known, hpub, hsub, hunsub]

/-- A pass handles the first message of the input, or leaves the loop. -/
theorem pass_eq (hwf : (h.conns c).inputBuffer.WF) :
    (∃ m k rest, decodeOne (h.conns c).inputBuffer.content = some ((), [m], k) ∧ rest.WF ∧
      rest.content = (h.conns c).inputBuffer.content.drop k ∧
      Hub.pass c time h = .ok (m.known, [m],
        (h.setConn c { h.conns c with inputBuffer := rest }).obey c m time)) ∨
    (decodeOne (h.conns c).inputBuffer.content = none ∧
      Hub.pass c time h = .ok (false, [],
        if Malformed (h.conns c).inputBuffer.content then h.shutdown c else h)) := by
  rcases parseMessage_eq hwf with ⟨m, k, rest, hdec, hrest, hcontent, hparse⟩ | ⟨hdec, m, hparse⟩
  · left
    refine ⟨m, k, rest, hdec, hrest, hcontent, ?_⟩
    rw [Hub.pass, hparse, ok_bind]
    simp only [HubMessage.known, Hub.obey]
    by_cases hpub : m.cmd = pub
    · simp [hpub]
    · by_cases hsub : m.cmd = sub
      · simp [hsub, show sub ≠ pub by decide]
      · by_cases hunsub : m.cmd = unsub
        · simp [hunsub, show unsub ≠ pub by decide, show unsub ≠ sub by decide]
        · simp [hpub, hsub, hunsub]
  · right
    refine ⟨hdec, ?_⟩
    have hsame : h.setConn c { h.conns c with inputBuffer := (h.conns c).inputBuffer } = h := by
      rw [Hub.setConn, Function.update_eq_self]
    rw [Hub.pass, hparse, ok_bind]
    by_cases hbad : Malformed (h.conns c).inputBuffer.content
    · simp only [hbad, if_true, hsame]
    · simp only [hbad, if_false, hsame]

/-- What a call of `onMessage` for connection `c` has done: the messages `ms` were handled, in
order, and maybe a line that is none. -/
structure Handled (c : Nat) (time : Int) (h : Hub) (ms : List HubMessage) (h' : Hub) : Prop where
  shows : ∀ bd, h.Shows bd → ∃ tail, (tail = [] ∨ tail = [.malformed c]) ∧
    h'.Shows (bd.run (ms.map (.command c · time) ++ tail))
  frame : Hub.Frame c h h'
  run : decoder.Run () (h.conns c).inputBuffer.content ms () (h'.conns c).inputBuffer.content
  others : ∀ d, d ≠ c → (h'.conns d).inputBuffer = (h.conns d).inputBuffer
  waiting : decoder.Waiting () (h'.conns c).inputBuffer.content ∨ ∃ m ∈ ms, m.known = false
  hungUp : (h.conns c).isUp = true → ((h'.conns c).state = .kDisconnecting ↔
    (h.conns c).state = .kDisconnecting ∨ Malformed (h'.conns c).inputBuffer.content ∨
      ∃ m ∈ ms, m.known = false)

/-- The first message of connection `c` was taken out of its input buffer and obeyed. -/
structure Obeyed (c : Nat) (time : Int) (h : Hub) (m : HubMessage) (h₁ : Hub) : Prop where
  shows : ∀ bd, h.Shows bd → h₁.Shows (bd.event (.command c m time))
  frame : Hub.Frame c h h₁
  run : decoder.Run () (h.conns c).inputBuffer.content [m] () (h₁.conns c).inputBuffer.content
  shorter : (h₁.conns c).inputBuffer.readableBytes < (h.conns c).inputBuffer.readableBytes
  others : ∀ d, d ≠ c → (h₁.conns d).inputBuffer = (h.conns d).inputBuffer
  state : (h.conns c).isUp = true →
    (h₁.conns c).state = if m.known = true then (h.conns c).state else .kDisconnecting

theorem obeyed_of_decoded {m : HubMessage} {k : Nat} {rest : Buffer} (hs : h.Shows bd)
    (hdec : decodeOne (h.conns c).inputBuffer.content = some ((), [m], k)) (hrest : rest.WF)
    (hcontent : rest.content = (h.conns c).inputBuffer.content.drop k) :
    Obeyed c time h m
      ((h.setConn c { h.conns c with inputBuffer := rest }).obey c m time) := by
  have hwf := hs.input c
  obtain ⟨hpos, hle⟩ := decodeOne_consumes hdec
  rw [hwf.length_content] at hle
  have hin : ∀ {bd : Board}, h.Shows bd →
      (h.setConn c { h.conns c with inputBuffer := rest }).Shows bd :=
    fun hs => hs.setInput hrest _
  obtain ⟨hframe, hbuf⟩ := obey_frame (c := c) (m := m) time (hin hs)
  have hinput : ((((h.setConn c { h.conns c with inputBuffer := rest }).obey c m time).conns c
      ).inputBuffer) = rest := by
    rw [hbuf c]
    simp [Hub.setConn]
  have hset : Hub.Frame c h (h.setConn c { h.conns c with inputBuffer := rest }) := by
    refine ⟨fun d => ?_, fun d => ?_, fun d hd => ?_, fun d hd => ?_⟩ <;>
      by_cases hd' : d = c <;> simp_all [Hub.setConn, HubConn.isUp]
  refine ⟨fun bd hs => (hin hs).obey time (decodeOne_lines hdec), hset.trans hframe, ?_, ?_,
    fun d hd => ?_, fun hup => ?_⟩
  · rw [hinput, hcontent]
    exact Decoder.Run.single (d := decoder) hdec
  · rw [hinput, ← hrest.length_content, hcontent, List.length_drop, hwf.length_content]
    omega
  · rw [hbuf d]
    simp [Hub.setConn, hd]
  · rw [obey_state time (hin hs) (by rw [hset.isUp c]; exact hup)]
    simp [Hub.setConn]

/-- A command that the hub does not know ends the loop. -/
theorem Obeyed.last {m : HubMessage} (ho : Obeyed c time h m h') (hknown : m.known = false) :
    Handled c time h [m] h' := by
  refine ⟨fun bd hs => ⟨[], Or.inl rfl, ho.shows bd hs⟩, ho.frame, ho.run, ho.others,
    Or.inr ⟨m, List.mem_cons_self, hknown⟩, fun hup => ?_⟩
  rw [ho.state hup, hknown]
  exact iff_of_true rfl (Or.inr (Or.inr ⟨m, List.mem_cons_self, hknown⟩))

/-- After a command that it knows, the hub goes on. -/
theorem Obeyed.next {m : HubMessage} {ms : List HubMessage} {h₁ : Hub}
    (ho : Obeyed c time h m h₁) (hknown : m.known = true) (hh : Handled c time h₁ ms h') :
    Handled c time h (m :: ms) h' := by
  refine ⟨fun bd hs => ?_, ho.frame.trans hh.frame, ho.run.trans hh.run,
    fun d hd => (hh.others d hd).trans (ho.others d hd), ?_, fun hup => ?_⟩
  · obtain ⟨tail, htail, hshows⟩ := hh.shows _ (ho.shows bd hs)
    exact ⟨tail, htail, hshows⟩
  · rcases hh.waiting with hwait | ⟨m', hm', hk⟩
    · exact Or.inl hwait
    · exact Or.inr ⟨m', List.mem_cons_of_mem m hm', hk⟩
  · rw [hh.hungUp (by rw [ho.frame.isUp c]; exact hup), ho.state hup, if_pos hknown]
    simp [hknown]

/-- Where no message is there, the hub hangs up if none can come. -/
theorem handled_waiting (hdec : decoder.Waiting () (h.conns c).inputBuffer.content) :
    Handled c time h [] (if Malformed (h.conns c).inputBuffer.content then h.shutdown c else h) := by
  split
  · obtain ⟨hframe, hbuf⟩ := shutdown_frame (h := h) (c := c)
    rename_i hbad
    refine ⟨fun bd hs => ⟨[.malformed c], Or.inr rfl, hs.shutdown c⟩, hframe, ?_,
      fun d _ => hbuf d, Or.inl (by rw [hbuf c]; exact hdec), fun hup => ?_⟩
    · rw [hbuf c]
      exact .refl () _
    · rw [shutdown_state hup, hbuf c]
      exact iff_of_true rfl (Or.inr (Or.inl hbad))
  · rename_i hgood
    exact ⟨fun bd hs => ⟨[], Or.inl rfl, hs⟩,
      ⟨fun _ => rfl, fun _ => rfl, fun _ _ => rfl, fun _ _ => rfl⟩,
      .refl () _, fun _ _ => rfl, Or.inl hdec, fun _ => by simp [hgood]⟩

/-- `onMessage` always returns, without a fault. -/
theorem hub_onMessage_ok (hs : h.Shows bd) :
    ∃ ms h', h.onMessage c time = some (.ok (ms, h')) ∧ Handled c time h ms h' := by
  have hpass : ∀ h, (∃ bd, h.Shows bd) → PassSpec (Hub.pass c time) (fun h => ∃ bd, h.Shows bd)
      (fun h => (h.conns c).inputBuffer.readableBytes)
      (fun h r => ∃ ms h', r = .ok (ms, h') ∧ Handled c time h ms h') h := by
    rintro h ⟨bd, hs⟩
    rcases pass_eq time (hs.input c) with ⟨m, k, rest, hdec, hrest, hcontent, heq⟩ | ⟨hdec, heq⟩
    · have ho := obeyed_of_decoded time hs hdec hrest hcontent
      refine ⟨by simp [heq], fun out s' hgo => ?_, fun out s' hgo => ?_⟩
      · rw [heq] at hgo
        simp only [Except.ok.injEq, Prod.mk.injEq] at hgo
        obtain ⟨hknown, rfl, rfl⟩ := hgo
        exact ⟨[m], _, rfl, ho.last time hknown⟩
      · rw [heq] at hgo
        simp only [Except.ok.injEq, Prod.mk.injEq] at hgo
        obtain ⟨hknown, rfl, rfl⟩ := hgo
        refine ⟨⟨_, ho.shows bd hs⟩, ho.shorter, ?_⟩
        rintro r ⟨ms, h', rfl, hh⟩
        exact ⟨m :: ms, h', rfl, ho.next time hknown hh⟩
    · refine ⟨by simp [heq], fun out s' hgo => ?_, by simp [heq]⟩
      rw [heq] at hgo
      simp only [Except.ok.injEq, Prod.mk.injEq, true_and] at hgo
      obtain ⟨rfl, rfl⟩ := hgo
      exact ⟨[], _, rfl, handled_waiting time hdec⟩
  obtain ⟨r, hloop, ms, h', rfl, hh⟩ := whileLoop_total hpass ⟨bd, hs⟩ (Nat.lt_succ_self _)
  exact ⟨ms, h', hloop, hh⟩

end Messages

/-! ### Every run -/

/-- The messages that client `c` wrote and the hub has handled. -/
def commandsOf (c : Nat) (events : List HubEvent) : List HubMessage :=
  events.filterMap fun
    | .command d m _ => if d = c then some m else none
    | _ => none

/-- The topics that a client wants after these commands: the last `sub` or `unsub` for the topic
decides. -/
def wants (ms : List HubMessage) (k : Bytes) : Bool :=
  ms.foldl (fun on m =>
    if m.topic = k ∧ m.cmd = sub then true
    else if m.topic = k ∧ m.cmd = unsub then false
    else on) false

/-- The events that a step of the hub `h` stands for: a read stands for the commands that it has
handled, at its time, and maybe a line that is none. -/
def HubLabel.Events (h : Hub) : HubLabel → List HubEvent → Prop
  | .connect c, events => events = [.join c]
  | .read c r time, events => ∃ ms h' tail, h.handleRead c r time = some (.ok (ms, h')) ∧
      (tail = [] ∨ tail = [.malformed c]) ∧ events = ms.map (.command c · time) ++ tail
  | .disconnect c, events => events = [.leave c]
  | .timePublish content time, events => events = [.clock content time]

/-- What the peer of connection `d` has for this step. -/
def HubLabel.arriving : HubLabel → Nat → Bytes
  | .read c (.deliver data) _, d => if d = c then data else []
  | _, _ => []

/-- A run of the hub, with the events that its steps stand for. -/
inductive HubHistory : Hub → List HubEvent → Prop where
  | init {h : Hub} : hubSystem.init h → HubHistory h []
  | step {h h' : Hub} {label : HubLabel} {events events' : List HubEvent} :
      HubHistory h events → hubSystem.Next label h h' → label.Events h events' →
      HubHistory h' (events ++ events')

section Runs

variable {h h' s : Hub} {c : Nat} {events : List HubEvent}

theorem commandsOf_append (events events' : List HubEvent) :
    commandsOf c (events ++ events') = commandsOf c events ++ commandsOf c events' :=
  List.filterMap_append

theorem commandsOf_commands (d : Nat) (time : Int) (ms : List HubMessage) :
    commandsOf c (ms.map (.command d · time)) = if d = c then ms else [] := by
  induction ms with
  | nil => simp [commandsOf]
  | cons m ms ih =>
      have hcons : commandsOf c ((m :: ms).map (HubEvent.command d · time)) =
          (if d = c then [m] else []) ++ commandsOf c (ms.map (HubEvent.command d · time)) := by
        by_cases hd : d = c <;> simp [commandsOf, hd]
      rw [hcons, ih]
      split <;> rfl

theorem wants_append (ms : List HubMessage) (m : HubMessage) (k : Bytes) :
    wants (ms ++ [m]) k =
      if m.topic = k ∧ m.cmd = sub then true
      else if m.topic = k ∧ m.cmd = unsub then false
      else wants ms k := List.foldl_append

theorem command_listens (bd : Board) (d : Nat) (m : HubMessage) (time : Int) (k : Bytes) :
    (bd.event (.command d m time)).listens c k =
      if d = c ∧ m.topic = k ∧ m.cmd = sub then true
      else if d = c ∧ m.topic = k ∧ m.cmd = unsub then false
      else bd.listens c k := by
  rw [Bool.eq_iff_iff]
  have hcomm : (c = d ∧ k = m.topic) ↔ (d = c ∧ m.topic = k) := by
    rw [eq_comm, @eq_comm _ k]
  simp only [Board.event]
  by_cases hpub : m.cmd = pub
  · simp [hpub, Board.publish, show pub ≠ sub by decide, show pub ≠ unsub by decide]
  · by_cases hsub : m.cmd = sub
    · rw [if_neg hpub, if_pos hsub, subscribe_listens, hcomm]
      by_cases hd : d = c ∧ m.topic = k
      · simp [hd, hsub]
      · simp only [hd, or_false, ← and_assoc, false_and, if_false]
    · by_cases hunsub : m.cmd = unsub
      · rw [if_neg hpub, if_neg hsub, if_pos hunsub, unsubscribe_listens, hcomm]
        by_cases hd : d = c ∧ m.topic = k
        · simp [hd, hunsub, show unsub ≠ sub by decide]
        · simp only [hd, not_false_eq_true, and_true, ← and_assoc, false_and, if_false]
      · simp [hpub, hsub, hunsub, Board.hangup]

/-- Who has not left listens to what it wants. -/
theorem run_listens (hstays : HubEvent.leave c ∉ events) (k : Bytes) :
    (Board.empty.run events).listens c k = wants (commandsOf c events) k := by
  induction events using List.reverseRecOn with
  | nil => rfl
  | append_singleton events e ih =>
      obtain ⟨hbefore, hlast⟩ : HubEvent.leave c ∉ events ∧ HubEvent.leave c ≠ e := by
        simpa using hstays
      rw [Board.run_append, commandsOf_append]
      have hold := ih hbefore
      generalize Board.empty.run events = bd at hold
      cases e with
      | join d => simpa [Board.event, Board.run, commandsOf] using hold
      | malformed d => simpa [Board.event, Board.run, Board.hangup, commandsOf] using hold
      | clock content time => simpa [Board.event, Board.run, Board.publish, commandsOf] using hold
      | leave d =>
          have hd : c ≠ d := fun heq => hlast (congrArg HubEvent.leave heq)
          simpa [Board.event, Board.run, Board.hangup, commandsOf, hd] using hold
      | command d m time =>
          have hone : commandsOf c [HubEvent.command d m time] = if d = c then [m] else [] :=
            commandsOf_commands d time [m]
          rw [hone, Board.run, List.foldl_cons, List.foldl_nil, command_listens]
          by_cases hd : d = c
          · rw [if_pos hd, wants_append]
            simp only [hd, true_and, hold]
          · rw [if_neg hd, List.append_nil]
            simp only [hd, false_and, if_false, hold]

/-- The hub shows the board after the events, and the commands among these are what was read
from each connection, but for the rest in its input buffer, which is part of a message unless
there was a command that the hub does not know. -/
structure HubInv (h : Hub) (events : List HubEvent) : Prop where
  shows : h.Shows (Board.empty.run events)
  idle : h.Idle
  run : ∀ c, decoder.Run () (h.conns c).received (commandsOf c events) ()
    (h.conns c).inputBuffer.content
  waiting : ∀ c, decoder.Waiting () (h.conns c).inputBuffer.content ∨
    ∃ m ∈ commandsOf c events, m.known = false
  hungUp : ∀ c, (h.conns c).isUp = true → ((h.conns c).state = .kDisconnecting ↔
    Malformed (h.conns c).inputBuffer.content ∨ ∃ m ∈ commandsOf c events, m.known = false)
  fresh : ∀ c, (h.conns c).state = .kConnecting → (h.conns c).received = []
  stays : ∀ c, (h.conns c).state ≠ .kDisconnected → HubEvent.leave c ∉ events

/-- A connection that has not come up has written nothing. -/
theorem HubInv.silent (hinv : HubInv h events) (hstate : (h.conns c).state = .kConnecting) :
    commandsOf c events = [] ∧ (h.conns c).inputBuffer.content = [] := by
  have hrun := hinv.run c
  rw [hinv.fresh c hstate] at hrun
  obtain ⟨hnone, -, hempty⟩ := hrun.of_waiting (Decoder.waiting_nil ())
  exact ⟨hnone, hempty⟩

/-- An event that is no command of a client, and reads nothing. -/
theorem HubInv.event (hinv : HubInv h events) {e : HubEvent} {label : HubLabel}
    (hlabel : ∀ d, label.arriving d = [])
    (hshows : h'.Shows ((Board.empty.run events).event e)) (hidle : h'.Idle)
    (hnone : ∀ d, commandsOf d [e] = [])
    (hsame : ∀ d, (h'.conns d).received = (h.conns d).received ∧
      (h'.conns d).inputBuffer = (h.conns d).inputBuffer)
    (hstate : ∀ d, (h'.conns d).state = .kDisconnected ∨ e ≠ .leave d ∧
      ((h'.conns d).state = (h.conns d).state ∨
        (h.conns d).state = .kConnecting ∧ (h'.conns d).state = .kConnected)) :
    HubInv h' (events ++ [e]) ∧
      ∀ d, ∃ n, (h'.conns d).received = (h.conns d).received ++ (label.arriving d).take n := by
  refine ⟨?_, fun d => ⟨0, by rw [hlabel, (hsame d).1, List.take_zero, List.append_nil]⟩⟩
  refine ⟨?_, hidle, fun d => ?_, fun d => ?_, fun d hup => ?_, fun d hconnecting => ?_,
    fun d hnot => ?_⟩
  · rw [Board.run_append]
    exact hshows
  · rw [commandsOf_append, hnone d, List.append_nil, (hsame d).1, (hsame d).2]
    exact hinv.run d
  · rw [commandsOf_append, hnone d, List.append_nil, (hsame d).2]
    exact hinv.waiting d
  · rw [commandsOf_append, hnone d, List.append_nil, (hsame d).2]
    rcases hstate d with hdown | ⟨-, heq | ⟨hconnecting, hconnected⟩⟩
    · simp [HubConn.isUp, hdown] at hup
    · rw [HubConn.isUp, heq] at hup
      rw [heq]
      exact hinv.hungUp d hup
    · obtain ⟨hsilent, hempty⟩ := hinv.silent hconnecting
      rw [hconnected, hsilent, hempty]
      simp [not_malformed_nil]
  · rw [(hsame d).1]
    rcases hstate d with hdown | ⟨-, heq | ⟨-, hconnected⟩⟩
    · simp [hdown] at hconnecting
    · exact hinv.fresh d (heq.symm.trans hconnecting)
    · simp [hconnected] at hconnecting
  · obtain ⟨hleave, hbefore⟩ := (hstate d).resolve_left hnot
    have hstays : HubEvent.leave d ∉ events := by
      refine hinv.stays d fun hdown => hnot ?_
      rcases hbefore with heq | ⟨hconnecting, -⟩
      · exact heq.trans hdown
      · simp [hdown] at hconnecting
    simp [hstays, Ne.symm hleave]

/-- `data` has come in at connection `c`. -/
structure Hub.Fills (c : Nat) (data : Bytes) (h h₁ : Hub) : Prop where
  received : (h₁.conns c).received = (h.conns c).received ++ data
  content : (h₁.conns c).inputBuffer.content = (h.conns c).inputBuffer.content ++ data
  state : (h₁.conns c).state = (h.conns c).state
  others : ∀ d, d ≠ c → h₁.conns d = h.conns d

theorem Hub.Fills.state_eq {data : Bytes} {h₁ : Hub} (hf : Hub.Fills c data h h₁) (d : Nat) :
    (h₁.conns d).state = (h.conns d).state := by
  by_cases hd : d = c
  · rw [hd]
    exact hf.state
  · rw [hf.others d hd]

/-- Nothing has come in: a read that failed, or the end of the stream. -/
theorem HubInv.nothing (hinv : HubInv h events) {h₁ : Hub} (hf : Hub.Fills c [] h h₁)
    (hshows : h₁.Shows (Board.empty.run events)) (hidle : h₁.Idle) : HubInv h₁ events := by
  have hsame : ∀ d, (h₁.conns d).received = (h.conns d).received ∧
      (h₁.conns d).inputBuffer.content = (h.conns d).inputBuffer.content := by
    intro d
    by_cases hd : d = c
    · rw [hd, hf.received, hf.content, List.append_nil, List.append_nil]
      exact ⟨rfl, rfl⟩
    · rw [hf.others d hd]
      exact ⟨rfl, rfl⟩
  refine ⟨hshows, hidle, fun d => ?_, fun d => ?_, fun d hup => ?_, fun d hconnecting => ?_,
    fun d hnot => hinv.stays d ((hf.state_eq d).symm.trans_ne hnot)⟩
  · rw [(hsame d).1, (hsame d).2]
    exact hinv.run d
  · rw [(hsame d).2]
    exact hinv.waiting d
  · rw [HubConn.isUp, hf.state_eq d] at hup
    rw [hf.state_eq d, (hsame d).2]
    exact hinv.hungUp d hup
  · rw [(hsame d).1]
    exact hinv.fresh d ((hf.state_eq d).symm.trans hconnecting)

theorem Hub.Fills.isUp_eq {data : Bytes} {h₁ : Hub} (hf : Hub.Fills c data h h₁) (d : Nat) :
    (h₁.conns d).isUp = (h.conns d).isUp := by
  rw [HubConn.isUp, hf.state_eq d, HubConn.isUp]

/-- The hub has hung up on the connection for what was there before, or for what has come in. -/
theorem HubInv.handled_hungUp (hinv : HubInv h events) {data : Bytes} {h₁ : Hub}
    {ms : List HubMessage} {time : Int} (hup : (h.conns c).isUp = true)
    (hf : Hub.Fills c data h h₁) (hh : Handled c time h₁ ms h') :
    (h'.conns c).state = .kDisconnecting ↔ Malformed (h'.conns c).inputBuffer.content ∨
      ∃ m ∈ commandsOf c events ++ ms, m.known = false := by
  have hstill : Malformed (h.conns c).inputBuffer.content →
      Malformed (h'.conns c).inputBuffer.content := by
    intro hbad
    have hmore := hbad.append data
    rw [← hf.content] at hmore
    rw [(hh.run.of_waiting (d := decoder) hmore.waiting).2.2]
    exact hmore
  rw [hh.hungUp ((hf.isUp_eq c).trans hup), hf.state, hinv.hungUp c hup]
  simp only [List.mem_append, or_and_right, exists_or]
  constructor
  · rintro ((hbad | hold) | hbad | hnew)
    · exact Or.inl (hstill hbad)
    · exact Or.inr (Or.inl hold)
    · exact Or.inl hbad
    · exact Or.inr (Or.inr hnew)
  · rintro (hbad | hold | hnew)
    · exact Or.inr (Or.inl hbad)
    · exact Or.inl (Or.inr hold)
    · exact Or.inr (Or.inr hnew)

/-- What has come in was handled as far as its messages are there. -/
theorem HubInv.handled (hinv : HubInv h events) {data : Bytes} {h₁ : Hub} {ms : List HubMessage}
    {tail : List HubEvent} {time : Int} (hup : (h.conns c).isUp = true)
    (hf : Hub.Fills c data h h₁) (hidle : h₁.Idle) (hh : Handled c time h₁ ms h')
    (htail : tail = [] ∨ tail = [.malformed c])
    (hshows : h'.Shows (Board.empty.run (events ++ (ms.map (.command c · time) ++ tail)))) :
    HubInv h' (events ++ (ms.map (.command c · time) ++ tail)) := by
  have hup₁ : (h₁.conns c).isUp = true := (hf.isUp_eq c).trans hup
  have hcommands : ∀ d, commandsOf d (events ++ (ms.map (.command c · time) ++ tail)) =
      commandsOf d events ++ if c = d then ms else [] := by
    intro d
    have hnone : commandsOf d tail = [] := by rcases htail with rfl | rfl <;> rfl
    rw [commandsOf_append, commandsOf_append, commandsOf_commands, hnone, List.append_nil]
  have hself : commandsOf c (events ++ (ms.map (.command c · time) ++ tail)) =
      commandsOf c events ++ ms := by rw [hcommands, if_pos rfl]
  have hothers : ∀ d, d ≠ c → commandsOf d (events ++ (ms.map (.command c · time) ++ tail)) =
      commandsOf d events := by
    intro d hd
    rw [hcommands, if_neg (Ne.symm hd), List.append_nil]
  have hbuffer : ∀ d, d ≠ c → (h'.conns d).inputBuffer = (h.conns d).inputBuffer := by
    intro d hd
    rw [hh.others d hd, hf.others d hd]
  have hreceived : ∀ d, d ≠ c → (h'.conns d).received = (h.conns d).received := by
    intro d hd
    rw [hh.frame.received d, hf.others d hd]
  have hstate : ∀ d, d ≠ c → (h'.conns d).state = (h.conns d).state := by
    intro d hd
    rw [hh.frame.state d hd, hf.others d hd]
  have hup' : (h'.conns c).isUp = true := by
    rw [hh.frame.isUp c]
    exact hup₁
  refine ⟨hshows, hh.frame.idle hup₁ hidle, fun d => ?_, fun d => ?_, fun d hupd => ?_,
    fun d hconnecting => ?_, fun d hnot => ?_⟩
  · by_cases hd : d = c
    · -- what has come in is behind what was there
      subst hd
      have hrun := (hinv.run d).append data
      rw [← hf.received, ← hf.content] at hrun
      rw [hself, hh.frame.received d]
      exact hrun.trans hh.run
    · rw [hothers d hd, hreceived d hd, hbuffer d hd]
      exact hinv.run d
  · by_cases hd : d = c
    · subst hd
      rw [hself]
      rcases hh.waiting with hwait | ⟨m, hm, hk⟩
      · exact Or.inl hwait
      · exact Or.inr ⟨m, List.mem_append_right _ hm, hk⟩
    · rw [hothers d hd, hbuffer d hd]
      exact hinv.waiting d
  · by_cases hd : d = c
    · subst hd
      rw [hself]
      exact hinv.handled_hungUp hup hf hh
    · rw [HubConn.isUp, hstate d hd] at hupd
      rw [hothers d hd, hbuffer d hd, hstate d hd]
      exact hinv.hungUp d hupd
  · have hd : d ≠ c := by
      rintro rfl
      simp [HubConn.isUp, hconnecting] at hup'
    rw [hreceived d hd]
    exact hinv.fresh d ((hstate d hd).symm.trans hconnecting)
  · have hbefore : (h.conns d).state ≠ .kDisconnected := by
      by_cases hd : d = c
      · rintro hdown
        rw [hd] at hdown
        simp [HubConn.isUp, hdown] at hup
      · exact (hstate d hd).symm.trans_ne hnot
    rcases htail with rfl | rfl <;> simp [hinv.stays d hbefore]

/-- What a read delivers comes in. -/
theorem Hub.fills_of_readFd {r : ReadResult} {buf : Buffer} {out : Buffer.ReadFd}
    (hwf : (h.conns c).inputBuffer.WF) (hread : (h.conns c).inputBuffer.readFd r = .ok (buf, out)) :
    Hub.Fills c out.data h (h.setConn c
      { h.conns c with inputBuffer := buf, received := (h.conns c).received ++ out.data }) := by
  obtain ⟨-, hcontent, -⟩ := Buffer.readFd_ok hwf hread
  refine ⟨?_, ?_, ?_, fun d hd => ?_⟩
  · simp [Hub.setConn]
  · simpa [Hub.setConn] using hcontent
  · simp [Hub.setConn]
  · simp [Hub.setConn, hd]

theorem Hub.Fills.idle {data : Bytes} {h₁ : Hub} (hf : Hub.Fills c data h h₁)
    (hup : (h.conns c).isUp = true) (hidle : h.Idle) : h₁.Idle := by
  intro d hd
  have hne : d ≠ c := by
    rintro rfl
    rw [hf.isUp_eq, hup] at hd
    cases hd
  rw [hf.others d hne] at hd ⊢
  exact hidle d hd

/-- Of what arrives a connection has received the first bytes. -/
theorem Hub.Fills.received_take {r : ReadResult} {buf : Buffer} {out : Buffer.ReadFd} {h₁ : Hub}
    (hf : Hub.Fills c out.data h h₁) (hread : (h.conns c).inputBuffer.readFd r = .ok (buf, out))
    (time : Int) (d : Nat) : ∃ n, (h₁.conns d).received =
      (h.conns d).received ++ (HubLabel.arriving (.read c r time) d).take n := by
  by_cases hd : d = c
  · rw [hd, hf.received]
    rcases Buffer.readFd_result hread with ⟨err, rfl, rfl⟩ | ⟨⟨data, rfl, hdata⟩, -⟩
    · exact ⟨0, rfl⟩
    · exact ⟨_, by rw [hdata, HubLabel.arriving, if_pos rfl]⟩
  · exact ⟨0, by rw [hf.others d hd, List.take_zero, List.append_nil]⟩

/-- A read: what was read is handled as far as its messages are there. -/
theorem HubInv.read (hinv : HubInv h events) (r : ReadResult) (time : Int)
    (hup : (h.conns c).isUp = true) :
    (∃ ms h' events', h.handleRead c r time = some (.ok (ms, h')) ∧
      HubLabel.Events h (.read c r time) events' ∧ HubInv h' (events ++ events') ∧
      ∀ d, ∃ n, (h'.conns d).received =
        (h.conns d).received ++ (HubLabel.arriving (.read c r time) d).take n) ∨
    (h.handleRead c r time = some (.error (.buffer .lengthError)) ∧
      ∃ d, r = .deliver d ∧ maxSize < (h.conns c).inputBuffer.writerIndex +
        (d.take (h.conns c).inputBuffer.iovLength).length) := by
  have hwf := hinv.shows.input c
  cases hread : (h.conns c).inputBuffer.readFd r with
  | error f =>
      obtain ⟨rfl, hlong⟩ := Buffer.readFd_error hwf hread
      exact Or.inr ⟨by rw [Hub.handleRead, hread], hlong⟩
  | ok res =>
      obtain ⟨buf, out⟩ := res
      left
      obtain ⟨hbuf, -⟩ := Buffer.readFd_ok hwf hread
      set h₁ := h.setConn c
        { h.conns c with inputBuffer := buf, received := (h.conns c).received ++ out.data }
      have hshows : h₁.Shows (Board.empty.run events) := hinv.shows.setInput hbuf _
      have hf : Hub.Fills c out.data h h₁ := Hub.fills_of_readFd hwf hread
      have hidle : h₁.Idle := hf.idle hup hinv.idle
      have hreceived := hf.received_take hread time
      by_cases hpos : 0 < out.n
      · obtain ⟨ms, h', hmsg, hh⟩ := hub_onMessage_ok (c := c) time hshows
        obtain ⟨tail, htail, hshows'⟩ := hh.shows _ hshows
        rw [← Board.run_append] at hshows'
        have heq : h.handleRead c r time = some (.ok (ms, h')) := by
          rw [Hub.handleRead, hread]
          simp only [if_pos hpos]
          exact hmsg
        refine ⟨ms, h', ms.map (.command c · time) ++ tail, heq, ⟨ms, h', tail, heq, htail, rfl⟩,
          hinv.handled hup hf hidle hh htail hshows', fun d => ?_⟩
        rw [hh.frame.received d]
        exact hreceived d
      · have hdata : out.data = [] := by
          rcases Buffer.readFd_result hread with ⟨err, -, rfl⟩ | ⟨-, hlen⟩
          · rfl
          · exact List.eq_nil_of_length_eq_zero (by omega)
        rw [hdata] at hf
        have heq : h.handleRead c r time = some (.ok ([], h₁)) := by
          rw [Hub.handleRead, hread]
          simp only [if_neg hpos]
          rfl
        refine ⟨[], h₁, [], heq, ⟨[], h₁, [], heq, Or.inl rfl, rfl⟩, ?_⟩
        rw [List.append_nil]
        exact ⟨hinv.nothing hf hshows hidle, hreceived⟩

/-- A client comes up. -/
theorem HubInv.connect (hinv : HubInv h events) (hstate : (h.conns c).state = .kConnecting) :
    HubInv (h.connected c) (events ++ [.join c]) ∧
      ∀ d, ∃ n, ((h.connected c).conns d).received =
        (h.conns d).received ++ (HubLabel.arriving (.connect c) d).take n := by
  have hconns : ∀ d, (h.connected c).conns d = if d = c then
      { h.conns c with state := .kConnected, subscription := [] } else h.conns d := by
    intro d
    by_cases hd : d = c
    · subst hd
      simp [Hub.connected, Hub.setConn]
    · simp [Hub.connected, Hub.setConn, hd]
  apply hinv.event (fun _ => rfl) (hinv.shows.connected hinv.idle hstate)
  · intro d hd
    rw [hconns] at hd ⊢
    split
    · rfl
    · rename_i hdc
      rw [if_neg hdc] at hd
      exact hinv.idle d hd
  · exact fun _ => rfl
  · intro d
    rw [hconns]
    split
    · rename_i hdc
      rw [hdc]
      exact ⟨rfl, rfl⟩
    · exact ⟨rfl, rfl⟩
  · intro d
    rw [hconns]
    split
    · rename_i hdc
      rw [hdc]
      exact Or.inr ⟨by simp, Or.inr ⟨hstate, rfl⟩⟩
    · exact Or.inr ⟨by simp, Or.inl rfl⟩

/-- A client goes: it leaves every audience. -/
theorem HubInv.disconnect (hinv : HubInv h events) (c : Nat) :
    HubInv (h.disconnected c) (events ++ [.leave c]) ∧
      ∀ d, ∃ n, ((h.disconnected c).conns d).received =
        (h.conns d).received ++ (HubLabel.arriving (.disconnect c) d).take n := by
  have hshows := hinv.shows.disconnected c
  have hconns := fun d => foldl_doUnsubscribe
    (h := h.setConn c { h.conns c with state := .kDisconnected }) (c := c)
    (h.conns c).subscription d
  apply hinv.event (fun _ => rfl) hshows
  · intro d hd
    by_cases hdc : d = c
    · subst hdc
      refine List.eq_nil_iff_forall_not_mem.mpr fun k hk => ?_
      have hlisten := (hshows.subscription d k).mp hk
      simp [Board.event] at hlisten
    · have hsame : (h.disconnected c).conns d = h.conns d := by
        rw [Hub.disconnected, hconns d]
        simp [Hub.setConn, hdc]
      rw [hsame] at hd ⊢
      exact hinv.idle d hd
  · exact fun _ => rfl
  · intro d
    rw [Hub.disconnected, hconns d]
    by_cases hdc : d = c
    · subst hdc
      simp [Hub.setConn]
    · simp [Hub.setConn, hdc]
  · intro d
    rw [Hub.disconnected, hconns d]
    by_cases hdc : d = c
    · subst hdc
      simp [Hub.setConn]
    · simp [Hub.setConn, hdc, Ne.symm hdc]

/-- The clock publishes the time. -/
theorem HubInv.clock (hinv : HubInv h events) {content : Bytes} (hline : IsLine content)
    (time : Int) :
    HubInv (h.doPublish utcTime content time) (events ++ [.clock content time]) ∧
      ∀ d, ∃ n, ((h.doPublish utcTime content time).conns d).received =
        (h.conns d).received ++ (HubLabel.arriving (.timePublish content time) d).take n := by
  have hconns := fun d => @doPublish_conns h d utcTime content time
    (hinv.shows.topic utcTime) (hinv.shows.audience_nodup utcTime)
  have hshows := hinv.shows.publish ⟨(by decide : IsLine utcTime), hline⟩ time
  apply hinv.event (e := .clock content time) (fun _ => rfl) hshows
  · intro d hd
    rw [hconns] at hd ⊢
    exact hinv.idle d hd
  · exact fun _ => rfl
  · intro d
    rw [hconns]
    exact ⟨rfl, rfl⟩
  · intro d
    rw [hconns]
    exact Or.inr ⟨by simp, Or.inl rfl⟩

/-- **Every step of the hub** is events on the board. -/
theorem hub_step {label : HubLabel} (hinv : HubInv h events)
    (hnext : hubSystem.Next label h h') :
    ∃ events', label.Events h events' ∧ HubInv h' (events ++ events') ∧
      ∀ d, ∃ n, (h'.conns d).received = (h.conns d).received ++ (label.arriving d).take n := by
  unfold System.Next hubSystem at hnext
  cases label with
  | connect c =>
      simp only at hnext
      split at hnext
      · rename_i hstate
        cases hnext
        exact ⟨_, rfl, hinv.connect hstate⟩
      · cases hnext
  | read c r time =>
      simp only at hnext
      split at hnext
      · rename_i hup
        rcases hinv.read r time hup with
          ⟨ms, s', events', heq, hevents, hinv'⟩ | ⟨heq, -⟩
        · rw [heq] at hnext
          cases hnext
          exact ⟨events', hevents, hinv'⟩
        · rw [heq] at hnext
          cases hnext
      · cases hnext
  | disconnect c =>
      simp only at hnext
      split at hnext
      · cases hnext
        exact ⟨_, rfl, hinv.disconnect c⟩
      · cases hnext
  | timePublish content time =>
      simp only at hnext
      split at hnext
      · rename_i hline
        cases hnext
        exact ⟨_, rfl, hinv.clock hline time⟩
      · cases hnext

theorem init_hubInv (hinit : hubSystem.init s) : HubInv s [] := by
  obtain ⟨htopics, hconns⟩ := hinit
  have hget : ∀ k, s.getTopic k = .create k := by
    intro k
    rw [Hub.getTopic, htopics k]
    rfl
  have hwf : (Buffer.create kInitialSize).WF := Buffer.create_wf (by decide)
  have hcontent : (Buffer.create kInitialSize).content = [] := Buffer.create_content _
  refine ⟨⟨fun k => by rw [hget]; rfl, fun c => by rw [hconns]; exact hwf, fun c => ?_,
    fun c k => ?_, fun c k => ?_, fun c => by rw [hconns]; exact List.nodup_nil,
    fun k => by rw [hget]; exact List.nodup_nil, fun k => by rw [hget]; rfl, ?_,
    fun c => by rw [hconns]; rfl, ?_⟩, fun c _ => by rw [hconns], fun c => ?_, fun c => ?_,
    fun c hup => ?_, fun c _ => by rw [hconns], fun c _ => List.not_mem_nil⟩
  · rw [hconns]
    simp [Board.empty]
  · rw [hconns]
    simp [Board.empty]
  · rw [hget]
    simp [Topic.create, Board.empty]
  · intro k content hlast
    cases hlast
  · intro c p hp
    cases hp
  · rw [hconns]
    simp only [hcontent]
    exact .refl () []
  · left
    rw [hconns]
    simp only [hcontent]
    exact Decoder.waiting_nil ()
  · rw [hconns] at hup
    cases hup

theorem reachable_hubInv (hr : hubSystem.Reachable s) :
    ∃ events, HubHistory s events ∧ HubInv s events := by
  refine hr.invariant (P := fun s => ∃ events, HubHistory s events ∧ HubInv s events) ?_ ?_
  · exact fun s hinit => ⟨[], .init hinit, init_hubInv hinit⟩
  · rintro s label s' - - ⟨events, hhist, hinv⟩ hnext
    obtain ⟨events', hevents, hinv', -⟩ := hub_step hinv hnext
    exact ⟨_, .step hhist hnext hevents, hinv'⟩

/-- **The hub, in every run**: any clients, their commands interleaved in any way, and the bytes
of each cut anywhere. There is a history of the run's events such that

* the audiences of the topics and the subscriptions of the connections agree, and a connection
  that is down is in no audience;
* a client that has not left is in the audiences of exactly the topics that its last `sub` or
  `unsub` for them says;
* the bytes sent to every connection are exactly what it was told on the board, each
  publication to everyone who listened then and the last one to everyone who came later;
* the commands of a client among the events are the first messages of the bytes it wrote, and
  all of them that are there, unless one was a command that the hub does not know;
* the hub has hung up on a client exactly if it wrote such a command, or a line without a space
  came next.

A read never hangs and never fails an assertion; it fails only where no vector can hold the
bytes. -/
theorem hub_keeps_board (hr : hubSystem.Reachable s) :
    ∃ events, HubHistory s events ∧
      (∀ c k, c ∈ (s.getTopic k).audiences ↔ k ∈ (s.conns c).subscription) ∧
      (∀ c k, (s.conns c).isUp = false → c ∉ (s.getTopic k).audiences) ∧
      (∀ c k, c ∈ (s.getTopic k).audiences ↔ (Board.empty.run events).listens c k = true) ∧
      (∀ c k, (s.conns c).state ≠ .kDisconnected →
        (Board.empty.run events).listens c k = wants (commandsOf c events) k) ∧
      (∀ c, (s.conns c).sent = toldBytes ((Board.empty.run events).told c)) ∧
      (∀ c, commandsOf c events <+: (decoder.decode () (s.conns c).received).items ∧
        ((∀ m ∈ commandsOf c events, m.known = true) →
          commandsOf c events = (decoder.decode () (s.conns c).received).items)) ∧
      (∀ c, (s.conns c).isUp = true → ((s.conns c).state = .kDisconnecting ↔
        Malformed (s.conns c).inputBuffer.content ∨ ∃ m ∈ commandsOf c events, m.known = false)) ∧
      ∀ c r time, (s.conns c).isUp = true →
        (∃ s', hubSystem.Next (.read c r time) s s') ∨
        (hubSystem.Fails (.read c r time) s (.buffer .lengthError) ∧
          ∃ d, r = .deliver d ∧ maxSize < (s.conns c).inputBuffer.writerIndex +
            (d.take (s.conns c).inputBuffer.iovLength).length) := by
  obtain ⟨events, hhist, hinv⟩ := reachable_hubInv hr
  have hsub := hinv.shows.subscription
  have haud := hinv.shows.audience
  refine ⟨events, hhist, fun c k => (haud c k).trans (hsub c k).symm, fun c k hdown hmem => ?_, haud,
    fun c k hstays => run_listens (hinv.stays c hstays) k, hinv.shows.sent,
    fun c => ⟨(hinv.run c).items_first, fun hknown => ?_⟩, hinv.hungUp, fun c r time hup => ?_⟩
  · have hk := (hsub c k).mpr ((haud c k).mp hmem)
    rw [hinv.idle c hdown] at hk
    cases hk
  · have hwait := (hinv.waiting c).resolve_right fun ⟨m, hm, hk⟩ => by
      rw [hknown m hm] at hk
      cases hk
    rw [(hinv.run c).eq_decode hwait]
  · rcases hinv.read r time hup with
      ⟨ms, s', events', heq, -⟩ | ⟨heq, hlong⟩
    · refine Or.inl ⟨s', ?_⟩
      simp only [System.Next, hubSystem, if_pos hup, heq, Option.map_some, Except.map]
    · refine Or.inr ⟨?_, hlong⟩
      simp only [System.Fails, hubSystem, if_pos hup, heq, Option.map_some, Except.map]

/-- Client 0 subscribes to `a`, and client 1 publishes `x` on it in two pieces. -/
theorem hub_keeps_board_news :
    ∃ s events, HubHistory s events ∧ (Board.empty.run events).listens 0 [97] = true ∧
      (s.conns 0).sent = pub ++ [32, 97, 13, 10, 120, 13, 10] ∧
      toldBytes ((Board.empty.run events).told 0) = pub ++ [32, 97, 13, 10, 120, 13, 10] := by
  obtain ⟨s, hr, hs⟩ := hubSystem.exists_reachable_of_replay
    [.connect 0, .connect 1, .read 0 (.deliver (sub ++ [32, 97, 13, 10])) 1,
      .read 1 (.deliver (pub ++ [32, 97, 13])) 2, .read 1 (.deliver [10, 120, 13, 10]) 3]
    ⟨fun _ => none, fun _ => ⟨.kConnecting, .create kInitialSize, [], [], []⟩⟩
    (fun s => 0 ∈ (s.getTopic [97]).audiences ∧
      (s.conns 0).sent = pub ++ [32, 97, 13, 10, 120, 13, 10])
    ⟨fun _ => rfl, fun _ => rfl⟩ (by decide +kernel)
  obtain ⟨haud, hsent⟩ := of_decide_eq_true hs
  obtain ⟨events, hhist, -, -, hlistens, -, htold, -⟩ := hub_keeps_board hr
  exact ⟨s, events, hhist, (hlistens 0 [97]).mp haud, hsent, (htold 0).symm.trans hsent⟩

end Runs

end Reactor
