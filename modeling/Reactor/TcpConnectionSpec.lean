import Reactor.TcpConnection

/-!
# What the calls of a connection do

* `TcpConnection.Inv` - what the connection's fields say about each other: write
  interest is on exactly while the output buffer holds data, and the channel is in the
  poller exactly while the connection is in use.
* `CallSpec`, `call_spec` - what a call that returns has done, one case for each way.
* `CallSpec.inv`, `CallSpec.registered` - every call keeps the fields, and the poller's
  views of the channel, in agreement.
* `CallSpec.stream` - the bytes a call writes and leaves in the output buffer are those it
  found there and those it took.
-/

namespace Reactor

open Reactor.Lib

/-! ### The fields of a connection -/

/-- The mask the channel asks for in a state, given what the output buffer holds. -/
def StateE.mask : StateE → Bytes → Events
  | .kConnected, content => if content = [] then kReadEvent else kReadEvent ||| kWriteEvent
  | .kDisconnecting, content => if content = [] then kReadEvent else kReadEvent ||| kWriteEvent
  | _, _ => kNoneEvent

/-- The poller index the channel has in a state. -/
def StateE.Indexed : StateE → Index → Prop
  | .kConnecting, index => index = .kNew
  | .kDisconnected, index => index ≠ .kAdded
  | _, index => index = .kAdded

/-- The connection is in use: established and not closed. -/
def StateE.Open (s : StateE) : Prop := s = .kConnected ∨ s = .kDisconnecting

/-- What a connection's fields say about each other. -/
structure TcpConnection.Inv (c : TcpConnection) : Prop where
  wf : c.outputBuffer.WF
  events : c.channel.events = c.state.mask c.outputBuffer.content
  index : c.state.Indexed c.channel.index
  fresh : c.state = .kConnecting → c.outputBuffer.content = []

section Fields

variable {c : TcpConnection} {s : StateE} {content : Bytes}

theorem StateE.Open.mask (h : s.Open) :
    s.mask content = if content = [] then kReadEvent else kReadEvent ||| kWriteEvent := by
  rcases h with rfl | rfl <;> rfl

theorem StateE.Open.indexed_iff (h : s.Open) {i : Index} : s.Indexed i ↔ i = .kAdded := by
  rcases h with rfl | rfl <;> rfl

theorem StateE.open_of_ne (h₁ : s ≠ .kDisconnected) (h₂ : s ≠ .kConnecting) : s.Open := by
  cases s with
  | kDisconnected => exact absurd rfl h₁
  | kConnecting => exact absurd rfl h₂
  | kConnected => exact Or.inl rfl
  | kDisconnecting => exact Or.inr rfl

theorem TcpConnection.create_inv (sockfd : Int) (writecompleteCB : Bool) :
    (TcpConnection.create sockfd writecompleteCB).Inv where
  wf := Buffer.create_wf (by decide)
  events := rfl
  index := rfl
  fresh _ := Buffer.create_content _

/-- Outside `kDisconnected` write interest is on exactly while there is a backlog. -/
theorem TcpConnection.Inv.isWriting_iff (h : c.Inv) (hs : c.state ≠ .kDisconnected) :
    c.channel.isWriting = true ↔ c.outputBuffer.content ≠ [] := by
  unfold Channel.isWriting
  rw [h.events]
  cases hstate : c.state with
  | kDisconnected => exact absurd hstate hs
  | kConnecting => simp [StateE.mask, h.fresh hstate, kNoneEvent]
  | kConnected =>
      by_cases hc : c.outputBuffer.content = []
      · simpa [StateE.mask, hc] using by decide
      · simpa [StateE.mask, hc] using by decide
  | kDisconnecting =>
      by_cases hc : c.outputBuffer.content = []
      · simpa [StateE.mask, hc] using by decide
      · simpa [StateE.mask, hc] using by decide

/-- Write interest is on only while the connection is in use. -/
theorem TcpConnection.Inv.open_of_isWriting (h : c.Inv) (hw : c.channel.isWriting = true) :
    c.state.Open := by
  unfold Channel.isWriting at hw
  rw [h.events] at hw
  apply StateE.open_of_ne
  · intro hs
    simp [hs, StateE.mask, kNoneEvent] at hw
  · intro hs
    simp [hs, StateE.mask, kNoneEvent] at hw

/-- A closed connection asks for no events. -/
theorem TcpConnection.Inv.isNoneEvent_of_closed (h : c.Inv) (hs : c.state = .kDisconnected) :
    c.channel.isNoneEvent = true := by
  have hevents := h.events
  rw [hs] at hevents
  simp [Channel.isNoneEvent, hevents, StateE.mask]

/-- A connection that is in use asks for some event. -/
theorem StateE.Open.mask_ne (h : s.Open) : s.mask content ≠ kNoneEvent := by
  rw [h.mask]
  split <;> decide

/-- A channel that is in the poller and asks for nothing belongs to a closed connection. -/
theorem TcpConnection.Inv.closed_of_removable (h : c.Inv) (hnone : c.channel.events = kNoneEvent)
    (hold : c.channel.index ≠ .kNew) : c.state = .kDisconnected := by
  by_contra hclosed
  have hconnecting : c.state ≠ .kConnecting := by
    intro hs
    have hindex := h.index
    rw [hs] at hindex
    exact hold hindex
  have hopen : c.state.Open := StateE.open_of_ne hclosed hconnecting
  exact hopen.mask_ne (h.events.symm.trans hnone)

end Fields

/-! ### What a call does -/

/-- The sender and the bytes with which a `sendInLoop` call reaches `sendInLoopEX`. -/
def ConnCall.inFlight : ConnCall → Option (Sender × Bytes)
  | .sendInLoop sender message => message.bytes.toOption.map (sender, ·)
  | .sendInLoopEX sender data => some (sender, data)
  | _ => none

/-- A message in flight fits in memory. -/
def ConnCall.Sized : ConnCall → Prop
  | .sendInLoop _ message => message.data.length ≤ maxSize
  | .sendInLoopEX _ data => data.length ≤ maxSize
  | _ => True

section Spec

variable {C : Type} [DecidableEq C]

/-- What a call that returned has done, one case for each way. -/
inductive CallSpec (v : ConnView C) (o : Oracle) : ConnCall → ConnView C → Out → Prop where
  | send (m : Message) : v.conn.state = .kConnected →
      CallSpec v o (.user (.send m)) v
        { obs := [.passed .loop m.content], calls := [m.loopCall] }
  | sendRefused (m : Message) : v.conn.state ≠ .kConnected → CallSpec v o (.user (.send m)) v {}
  | shutdown : v.conn.state = .kConnected →
      CallSpec v o (.user .shutdown) (v.setState .kDisconnecting)
        { obs := .shutdown :: v.shutdownInLoop }
  | shutdownRefused : v.conn.state ≠ .kConnected → CallSpec v o (.user .shutdown) v {}
  | queueInLoop : CallSpec v o (.user .queueInLoop) v { queued := [.userCode] }
  | userCode : CallSpec v o .userCode v { calls := o.calls.map .user }
  | gaveUp {k : ConnCall} {sender : Sender} {data : Bytes} : k.inFlight = some (sender, data) →
      v.conn.state = .kDisconnected → CallSpec v o k v {}
  | gaveUpUnread {sender : Sender} {message : StringPiece} :
      (ConnCall.sendInLoop sender message).inFlight = none → v.conn.state = .kDisconnected →
      CallSpec v o (.sendInLoop sender message) v {}
  | tookNothing {k : ConnCall} {sender : Sender} : k.inFlight = some (sender, []) →
      v.conn.state ≠ .kDisconnected → CallSpec v o k v { obs := [.took sender []] }
  | took {k : ConnCall} {sender : Sender} {data : Bytes} {b : Buffer}
      {cp : Channel × EPollPoller C} : k.inFlight = some (sender, data) →
      v.conn.state ≠ .kDisconnected → data ≠ [] → b.WF →
      b.content = v.conn.outputBuffer.content ++ data →
      (v.conn.channel.isWriting = true ∧ cp = (v.conn.channel, v.poller) ∨
        v.conn.channel.isWriting = false ∧
          v.conn.channel.setEvents (v.conn.channel.events ||| kWriteEvent) v.self v.poller =
            .ok cp) →
      CallSpec v o k ((v.setOutput b).setChannel cp) { obs := [.took sender data] }
  | handleEvent (revents : Events) :
      CallSpec v o (.handleEvent revents) v
        { obs := [.event revents], calls := v.conn.channel.handleEvent o.lock revents }
  | readData {b b' : Buffer} {r : Buffer.ReadFd} {calls : List UserCall} :
      v.conn.inputBuffer.readFd o.read = .ok (b, r) → 0 < r.n → o.onMessage b = .ok (b', calls) →
      CallSpec v o .handleRead (v.setInput b')
        { obs := [.read v.conn.state r.data], calls := calls.map .user }
  | readEof {b : Buffer} {r : Buffer.ReadFd} : v.conn.inputBuffer.readFd o.read = .ok (b, r) →
      r.n = 0 → CallSpec v o .handleRead (v.setInput b) { calls := [.handleClose] }
  | readError {b : Buffer} {r : Buffer.ReadFd} : v.conn.inputBuffer.readFd o.read = .ok (b, r) →
      r.n < 0 → CallSpec v o .handleRead (v.setInput b) { calls := [.handleError] }
  | writeIdle : v.conn.channel.isWriting = false → CallSpec v o .handleWrite v {}
  | writeFailed (err : Errno) : v.conn.channel.isWriting = true →
      CallSpec v o .handleWrite v { obs := [.writeFailed err] }
  | writeNothing : v.conn.channel.isWriting = true →
      CallSpec v o .handleWrite v { obs := [.wrote []] }
  | writePart {data : Bytes} {b : Buffer} : v.conn.channel.isWriting = true → b.WF →
      v.conn.outputBuffer.content = data ++ b.content → b.content ≠ [] →
      CallSpec v o .handleWrite (v.setOutput b) { obs := [.wrote data] }
  | writeAll {n : Nat} {data : Bytes} {b : Buffer} {cp : Channel × EPollPoller C} :
      v.conn.channel.isWriting = true → o.write = .accept n → data.length ≤ n → b.WF →
      v.conn.outputBuffer.content = data → b.content = [] →
      v.conn.channel.setEvents (v.conn.channel.events &&& ~~~kWriteEvent) v.self v.poller =
        .ok cp →
      CallSpec v o .handleWrite ((v.setOutput b).setChannel cp)
        { obs := .wrote data :: (if v.conn.state = .kDisconnecting then [.shutdownWrite] else [])
          queued := if v.conn.writecompleteCB then [.writeComplete] else [] }
  | handleClose {cp : Channel × EPollPoller C} : v.conn.state.Open →
      v.conn.channel.setEvents kNoneEvent v.self v.poller = .ok cp →
      CallSpec v o .handleClose ((v.setState .kDisconnected).setChannel cp)
        { obs := [.closing, .connectionCallback false]
          calls := o.calls.map .user ++ [.closeCallback] }
  | handleError : CallSpec v o .handleError v {}
  | connectEstablished {cp : Channel × EPollPoller C} : v.conn.state = .kConnecting →
      v.conn.channel.tie.setEvents (v.conn.channel.events ||| kReadEvent) v.self v.poller =
        .ok cp →
      CallSpec v o .connectEstablished ((v.setState .kConnected).setChannel cp)
        { obs := [.established, .connectionCallback true], calls := o.calls.map .user }
  | disconnect {cp : Channel × EPollPoller C} : v.conn.state = .kConnected →
      v.conn.channel.setEvents kNoneEvent v.self v.poller = .ok cp →
      CallSpec v o .connectDestroyed ((v.setState .kDisconnected).setChannel cp)
        { obs := [.destroying, .connectionCallback false]
          calls := o.calls.map .user ++ [.channelRemove] }
  | connectDestroyed : v.conn.state ≠ .kConnected →
      CallSpec v o .connectDestroyed v { obs := [.destroying], calls := [.channelRemove] }
  | closeCallback : CallSpec v o .closeCallback v { obs := [.closeCallback] }
  | channelRemove {cp : Channel × EPollPoller C} :
      v.conn.channel.remove v.self v.dispatching v.poller = .ok cp →
      CallSpec v o .channelRemove (v.setChannel cp) { obs := [.destroyed] }
  | unguard : CallSpec v o .unguard v {}

variable {v v' : ConnView C} {o : Oracle} {k : ConnCall} {out : Out}

/-- `sendInLoopEX` never writes at once: with the guard as it stands that needs a backlog
without write interest. It appends the message to the backlog. -/
theorem sendInLoopEX_spec {sender : Sender} {data : Bytes} {w : WriteResult} (h : v.conn.Inv)
    (hlen : data.length ≤ maxSize) (hk : k.inFlight = some (sender, data))
    (hsend : v.sendInLoopEX sender data w = .ok (v', out)) : CallSpec v o k v' out := by
  unfold ConnView.sendInLoopEX at hsend
  split at hsend
  · rename_i hs
    cases hsend
    exact .gaveUp hk hs
  · rename_i hs
    have hguard : ¬ ((!v.conn.channel.isWriting) = true ∧
        v.conn.outputBuffer.readableBytes ≠ 0) := by
      rintro ⟨hidle, hbacklog⟩
      have hempty : v.conn.outputBuffer.content = [] := by
        by_contra hne
        rw [(h.isWriting_iff hs).mpr hne] at hidle
        cases hidle
      exact hbacklog (h.wf.readableBytes_eq_zero_iff.mpr hempty)
    simp only [if_neg hguard, Bool.not_false, true_and, bind_eq_ok, check_eq_ok, Nat.le_refl,
      List.drop_zero, List.take_length, exists_const] at hsend
    by_cases hdata : data = []
    · subst hdata
      simp only [List.length_nil, Nat.lt_irrefl, if_false, Except.ok.injEq, Prod.mk.injEq] at hsend
      obtain ⟨rfl, rfl⟩ := hsend
      exact .tookNothing hk hs
    · rw [if_pos (List.length_pos_iff.mpr hdata), bind_eq_ok] at hsend
      obtain ⟨b, happ, hsend⟩ := hsend
      obtain ⟨hwf, hcontent, -⟩ := Buffer.append_ok h.wf (h.wf.fits hlen) happ
      cases hw : v.conn.channel.isWriting with
      | true =>
          simp only [hw, Bool.not_true, Bool.false_eq_true, if_false, Except.ok.injEq,
            Prod.mk.injEq] at hsend
          obtain ⟨rfl, rfl⟩ := hsend
          exact .took hk hs hdata hwf hcontent (Or.inl ⟨hw, rfl⟩)
      | false =>
          simp only [hw, Bool.not_false, if_true, bind_eq_ok, Except.ok.injEq,
            Prod.mk.injEq] at hsend
          obtain ⟨cp, hset, rfl, rfl⟩ := hsend
          exact .took hk hs hdata hwf hcontent (Or.inr ⟨hw, hset⟩)

/-- Clearing the write bit leaves write interest off. -/
theorem isWriting_disabled {ch : Channel} {events : Events}
    (h : ch.events = events &&& ~~~kWriteEvent) : ch.isWriting = false := by
  simp [Channel.isWriting, h, BitVec.and_assoc]

theorem handleWrite_spec (h : v.conn.Inv) (hwrite : v.handleWrite o.write = .ok (v', out)) :
    CallSpec v o .handleWrite v' out := by
  unfold ConnView.handleWrite at hwrite
  cases hw : v.conn.channel.isWriting with
  | false =>
      simp only [hw, Bool.false_eq_true, if_false, Except.ok.injEq, Prod.mk.injEq] at hwrite
      obtain ⟨rfl, rfl⟩ := hwrite
      exact .writeIdle hw
  | true =>
      simp only [hw, if_true] at hwrite
      cases hres : o.write with
      | fail err =>
          rw [hres] at hwrite
          cases hwrite
          exact .writeFailed err hw
      | accept n =>
          simp only [hres] at hwrite
          by_cases hdata : 0 < (v.conn.outputBuffer.content.take n).length
          · simp only [if_pos hdata, bind_eq_ok] at hwrite
            obtain ⟨b, hret, hwrite⟩ := hwrite
            obtain ⟨hwf, hcontent⟩ := Buffer.retrieve_ok h.wf hret
            have hsplit : v.conn.outputBuffer.content =
                v.conn.outputBuffer.content.take n ++ b.content := by
              rw [hcontent]
              exact (List.prefix_iff_eq_append.mp (List.take_prefix n _)).symm
            by_cases hrest : b.readableBytes = 0
            · rw [if_pos hrest, bind_eq_ok] at hwrite
              obtain ⟨cp, hset, hwrite⟩ := hwrite
              have hempty := hwf.readableBytes_eq_zero_iff.mp hrest
              have hoff : ((v.setOutput b).setChannel cp).conn.channel.isWriting = false := by
                exact isWriting_disabled (congrArg Channel.events (setEvents_channel hset))
              simp only [ConnView.shutdownInLoop, hoff, Bool.false_eq_true, if_false,
                Except.ok.injEq, Prod.mk.injEq] at hwrite
              obtain ⟨rfl, rfl⟩ := hwrite
              rw [hempty, List.append_nil] at hsplit
              exact .writeAll hw hres (List.length_take_le _ _) hwf hsplit hempty hset
            · rw [if_neg hrest] at hwrite
              cases hwrite
              have hne : b.content ≠ [] := fun hnil =>
                hrest (hwf.readableBytes_eq_zero_iff.mpr hnil)
              exact .writePart hw hwf hsplit hne
          · rw [if_neg hdata] at hwrite
            cases hwrite
            have hnil : v.conn.outputBuffer.content.take n = [] :=
              List.eq_nil_of_length_eq_zero (by omega)
            rw [hnil]
            exact .writeNothing hw

/-- Every call that returns has done one of the things above. -/
theorem call_spec (h : v.conn.Inv) (hk : k.Sized) (hcall : v.call k o = .ok (v', out)) :
    CallSpec v o k v' out := by
  cases k with
  | user u =>
      cases u with
      | send m =>
          simp only [ConnView.call, ConnView.send, Except.ok.injEq, Prod.mk.injEq] at hcall
          obtain ⟨rfl, rfl⟩ := hcall
          split
          · rename_i hs
            exact .send m hs
          · rename_i hs
            exact .sendRefused m hs
      | shutdown =>
          simp only [ConnView.call, ConnView.shutdown, Except.ok.injEq] at hcall
          split at hcall
          · rename_i hs
            cases hcall
            exact .shutdown hs
          · rename_i hs
            cases hcall
            exact .shutdownRefused hs
      | queueInLoop =>
          cases hcall
          exact .queueInLoop
  | userCode =>
      cases hcall
      exact .userCode
  | sendInLoop sender message =>
      simp only [ConnView.call] at hcall
      split at hcall
      · rename_i hs
        cases hcall
        cases hflight : (ConnCall.sendInLoop sender message).inFlight with
        | none => exact .gaveUpUnread hflight hs
        | some m => exact .gaveUp hflight hs
      · rw [bind_eq_ok] at hcall
        obtain ⟨data, hbytes, hsend⟩ := hcall
        have hlen := Nat.le_trans (StringPiece.length_bytes_le hbytes) hk
        have hflight : (ConnCall.sendInLoop sender message).inFlight = some (sender, data) := by
          rw [ConnCall.inFlight, hbytes]
          rfl
        exact sendInLoopEX_spec h hlen hflight hsend
  | sendInLoopEX sender data => exact sendInLoopEX_spec h hk rfl hcall
  | handleEvent revents =>
      cases hcall
      exact .handleEvent revents
  | handleRead =>
      simp only [ConnView.call, ConnView.handleRead, bind_eq_ok] at hcall
      obtain ⟨⟨b, r⟩, hread, hcall⟩ := hcall
      simp only at hcall
      split at hcall
      · rename_i hpos
        simp only [bind_eq_ok, Except.ok.injEq, Prod.mk.injEq] at hcall
        obtain ⟨⟨b', calls⟩, hmsg, rfl, rfl⟩ := hcall
        exact .readData hread hpos hmsg
      · split at hcall
        · rename_i hzero
          cases hcall
          exact .readEof hread hzero
        · rename_i hpos hzero
          cases hcall
          exact .readError hread (by omega)
  | handleWrite => exact handleWrite_spec h hcall
  | handleClose =>
      simp only [ConnView.call, ConnView.handleClose, bind_eq_ok, check_eq_ok, Except.ok.injEq,
        Prod.mk.injEq] at hcall
      obtain ⟨-, hs, cp, hset, rfl, rfl⟩ := hcall
      exact .handleClose hs hset
  | handleError =>
      cases hcall
      exact .handleError
  | connectEstablished =>
      simp only [ConnView.call, ConnView.connectEstablished, bind_eq_ok, check_eq_ok,
        Except.ok.injEq, Prod.mk.injEq] at hcall
      obtain ⟨-, hs, cp, hset, rfl, rfl⟩ := hcall
      exact .connectEstablished hs hset
  | connectDestroyed =>
      simp only [ConnView.call, ConnView.connectDestroyed] at hcall
      split at hcall
      · rename_i hs
        simp only [bind_eq_ok, Except.ok.injEq, Prod.mk.injEq] at hcall
        obtain ⟨cp, hset, rfl, rfl⟩ := hcall
        exact .disconnect hs hset
      · rename_i hs
        cases hcall
        exact .connectDestroyed hs
  | closeCallback =>
      cases hcall
      exact .closeCallback
  | channelRemove =>
      simp only [ConnView.call, ConnView.channelRemove, bind_eq_ok, Except.ok.injEq,
        Prod.mk.injEq] at hcall
      obtain ⟨cp, hrem, rfl, rfl⟩ := hcall
      exact .channelRemove hrem
  | unguard =>
      cases hcall
      exact .unguard

/-! ### What every call keeps -/

/-- A call on a connection that is not established yet is no `sendInLoop`. -/
def ConnCall.Timely (k : ConnCall) (s : StateE) : Prop := k.inFlight ≠ none → s ≠ .kConnecting

theorem afterUpdate_added {events : Events} (h : events ≠ kNoneEvent) (i : Index) :
    i.afterUpdate events = .kAdded := by
  cases i <;> simp [Index.afterUpdate, h]

theorem StateE.Open.ne_connecting {s : StateE} (h : s.Open) : s ≠ .kConnecting := by
  rcases h with rfl | rfl <;> decide

/-- Every call keeps the fields of the connection in agreement. -/
theorem CallSpec.inv (h : CallSpec v o k v' out) (hinv : v.conn.Inv)
    (htime : k.Timely v.conn.state) : v'.conn.Inv := by
  cases h with
  | @took k sender data b cp hk hs hdata hwf hcontent hcp =>
      have hopen : v.conn.state.Open := StateE.open_of_ne hs (htime (by simp [hk]))
      have hne : b.content ≠ [] := by simp [hcontent, hdata]
      have hevents := hinv.events
      rw [hopen.mask] at hevents
      have hcp' : cp.1.events = kReadEvent ||| kWriteEvent ∧ cp.1.index = .kAdded := by
        rcases hcp with ⟨hw, rfl⟩ | ⟨hw, hset⟩
        · rw [if_neg ((hinv.isWriting_iff hs).mp hw)] at hevents
          exact ⟨hevents, hopen.indexed_iff.mp hinv.index⟩
        · have hempty : v.conn.outputBuffer.content = [] := by
            by_contra hbacklog
            rw [(hinv.isWriting_iff hs).mpr hbacklog] at hw
            cases hw
          rw [if_pos hempty] at hevents
          rw [setEvents_channel hset, hevents]
          exact ⟨rfl, afterUpdate_added (by decide) _⟩
      refine ⟨hwf, ?_, hopen.indexed_iff.mpr hcp'.2, fun hc => absurd hc hopen.ne_connecting⟩
      change cp.1.events = v.conn.state.mask b.content
      rw [hopen.mask, if_neg hne, hcp'.1]
  | @writePart data b hw hwf hsplit hne =>
      have hopen := hinv.open_of_isWriting hw
      have hbacklog : v.conn.outputBuffer.content ≠ [] := by simp [hsplit, hne]
      refine ⟨hwf, ?_, hinv.index, fun hc => absurd hc hopen.ne_connecting⟩
      change v.conn.channel.events = v.conn.state.mask b.content
      rw [hinv.events, hopen.mask, hopen.mask, if_neg hbacklog, if_neg hne]
  | @writeAll n data b cp hw _ _ hwf hsplit hempty hset =>
      have hopen := hinv.open_of_isWriting hw
      have hbacklog := (hinv.isWriting_iff (by rcases hopen with h | h <;> simp [h])).mp hw
      rw [hinv.events, hopen.mask, if_neg hbacklog] at hset
      refine ⟨hwf, ?_, hopen.indexed_iff.mpr ?_, fun hc => absurd hc hopen.ne_connecting⟩
      · change cp.1.events = v.conn.state.mask b.content
        rw [setEvents_channel hset, hopen.mask, if_pos hempty]
        rfl
      · change cp.1.index = .kAdded
        rw [setEvents_channel hset]
        exact afterUpdate_added (by decide) _
  | shutdown hs =>
      have hopen : v.conn.state.Open := Or.inl hs
      refine ⟨hinv.wf, ?_, hopen.indexed_iff.mp hinv.index, fun hc => StateE.noConfusion hc⟩
      change v.conn.channel.events = _
      rw [hinv.events, hs]
      rfl
  | @handleClose cp hs hset =>
      refine ⟨hinv.wf, congrArg Channel.events (setEvents_channel hset), ?_,
        fun hc => StateE.noConfusion hc⟩
      change cp.1.index ≠ .kAdded
      rw [setEvents_channel hset, hs.indexed_iff.mp hinv.index]
      simp [Index.afterUpdate]
  | @connectEstablished cp hs hset =>
      have hempty := hinv.fresh hs
      have hzero : v.conn.channel.events = kNoneEvent := by rw [hinv.events, hs]; rfl
      rw [hzero] at hset
      refine ⟨hinv.wf, ?_, ?_, fun hc => StateE.noConfusion hc⟩
      · change cp.1.events = if v.conn.outputBuffer.content = [] then _ else _
        rw [setEvents_channel hset, if_pos hempty]
        rfl
      · change cp.1.index = .kAdded
        rw [setEvents_channel hset]
        exact afterUpdate_added (by decide) _
  | @disconnect cp hs hset =>
      have hopen : v.conn.state.Open := Or.inl hs
      refine ⟨hinv.wf, congrArg Channel.events (setEvents_channel hset), ?_,
        fun hc => StateE.noConfusion hc⟩
      change cp.1.index ≠ .kAdded
      rw [setEvents_channel hset, hopen.indexed_iff.mp hinv.index]
      simp [Index.afterUpdate]
  | @channelRemove cp hrem =>
      obtain ⟨hnone, hold, hcp⟩ := remove_channel hrem
      have hclosed := hinv.closed_of_removable hnone hold
      refine ⟨hinv.wf, ?_, ?_, hinv.fresh⟩
      · change cp.1.events = _
        rw [hcp]
        exact hinv.events
      · change v.conn.state.Indexed cp.1.index
        rw [hcp, hclosed]
        exact Index.noConfusion
  | readData => exact ⟨hinv.wf, hinv.events, hinv.index, hinv.fresh⟩
  | readEof => exact ⟨hinv.wf, hinv.events, hinv.index, hinv.fresh⟩
  | readError => exact ⟨hinv.wf, hinv.events, hinv.index, hinv.fresh⟩
  | _ => exact hinv

/-- Every call keeps the poller's views of the connection's channel in agreement. -/
theorem CallSpec.registered (h : CallSpec v o k v' out)
    (hreg : Registered v.poller v.self v.conn.channel) :
    Registered v'.poller v'.self v'.conn.channel := by
  cases h with
  | took hk hs hdata hwf hcontent hcp =>
      rcases hcp with ⟨-, rfl⟩ | ⟨-, hset⟩
      · exact hreg
      · exact setEvents_registered hreg hset
  | writeAll hw _ _ hwf hsplit hempty hset => exact setEvents_registered hreg hset
  | handleClose hs hset => exact setEvents_registered hreg hset
  | connectEstablished hs hset =>
      have htied : Registered v.poller v.self v.conn.channel.tie := hreg
      exact setEvents_registered htied hset
  | disconnect hs hset => exact setEvents_registered hreg hset
  | channelRemove hrem => exact remove_registered hreg hrem
  | _ => exact hreg

/-! ### The observed bytes -/

def Obs.written : Obs → Bytes
  | .wrote data => data
  | _ => []

def Obs.taken : Obs → List (Sender × Bytes)
  | .took sender message => [(sender, message)]
  | _ => []

def Obs.passedCheck : Obs → List (Sender × Bytes)
  | .passed sender message => [(sender, message)]
  | _ => []

/-- The bytes accepted by `write(2)`. -/
def written (tr : List Obs) : Bytes := tr.flatMap Obs.written

/-- The messages `sendInLoopEX` processed while the connection was not closed. -/
def taken (tr : List Obs) : List (Sender × Bytes) := tr.flatMap Obs.taken

/-- The messages whose `send` passed the `kConnected` check. -/
def passed (tr : List Obs) : List (Sender × Bytes) := tr.flatMap Obs.passedCheck

/-- The concatenation of messages. -/
def concat (ms : List (Sender × Bytes)) : Bytes := ms.flatMap Prod.snd

/-- The messages of one sender. -/
def bySender (sender : Sender) (ms : List (Sender × Bytes)) : List Bytes :=
  ms.filterMap fun m => if m.1 = sender then some m.2 else none

@[simp] theorem written_append (tr tr' : List Obs) :
    written (tr ++ tr') = written tr ++ written tr' := List.flatMap_append

@[simp] theorem taken_append (tr tr' : List Obs) : taken (tr ++ tr') = taken tr ++ taken tr' :=
  List.flatMap_append

@[simp] theorem passed_append (tr tr' : List Obs) :
    passed (tr ++ tr') = passed tr ++ passed tr' := List.flatMap_append

@[simp] theorem concat_append (ms ms' : List (Sender × Bytes)) :
    concat (ms ++ ms') = concat ms ++ concat ms' := List.flatMap_append

@[simp] theorem bySender_append (sender : Sender) (ms ms' : List (Sender × Bytes)) :
    bySender sender (ms ++ ms') = bySender sender ms ++ bySender sender ms' :=
  List.filterMap_append

/-- What a call writes, and what it leaves in the output buffer, is what it found there and
what it took. -/
theorem CallSpec.stream (h : CallSpec v o k v' out) :
    written out.obs ++ v'.conn.outputBuffer.content =
      v.conn.outputBuffer.content ++ concat (taken out.obs) := by
  cases h with
  | took hk hs hdata hwf hcontent hcp =>
      simpa [written, taken, concat, Obs.written, Obs.taken, ConnView.setOutput,
        ConnView.setChannel] using hcontent
  | writePart hw hwf hsplit hne =>
      simpa [written, taken, concat, Obs.written, Obs.taken, ConnView.setOutput] using hsplit.symm
  | writeAll hw _ _ hwf hsplit hempty hset =>
      split <;> simp [written, taken, concat, Obs.written, Obs.taken, hsplit, hempty,
        ConnView.setOutput, ConnView.setChannel]
  | shutdown =>
      unfold ConnView.shutdownInLoop
      split <;> simp [written, taken, concat, Obs.written, Obs.taken, ConnView.setState]
  | _ =>
      simp [written, taken, concat, Obs.written, Obs.taken, ConnView.setState,
        ConnView.setChannel, ConnView.setInput]

/-! ### States and calls -/

/-- The steps of the state: forwards along `kConnecting`, `kConnected`, `kDisconnecting`,
`kDisconnected`, where `kDisconnecting` may be skipped, or none. -/
def StateE.Moves (s s' : StateE) : Prop :=
  s' = s ∨ s = .kConnecting ∧ s' = .kConnected ∨ s = .kConnected ∧ s' = .kDisconnecting ∨
    s.Open ∧ s' = .kDisconnected

theorem CallSpec.moves (h : CallSpec v o k v' out) : v.conn.state.Moves v'.conn.state := by
  cases h with
  | shutdown hs => exact Or.inr (Or.inr (Or.inl ⟨hs, rfl⟩))
  | handleClose hs _ => exact Or.inr (Or.inr (Or.inr ⟨hs, rfl⟩))
  | connectEstablished hs _ => exact Or.inr (Or.inl ⟨hs, rfl⟩)
  | disconnect hs _ => exact Or.inr (Or.inr (Or.inr ⟨Or.inl hs, rfl⟩))
  | _ => exact Or.inl rfl

/-- Only `handleClose` and `connectDestroyed` close a connection. -/
theorem CallSpec.disconnects (h : CallSpec v o k v' out) (hopen : v.conn.state.Open)
    (hclosed : v'.conn.state = .kDisconnected) : k = .handleClose ∨ k = .connectDestroyed := by
  cases h with
  | handleClose => exact Or.inl rfl
  | disconnect => exact Or.inr rfl
  | shutdown => cases hclosed
  | connectEstablished => cases hclosed
  | _ =>
      have hsame : v.conn.state = .kDisconnected := hclosed
      rcases hopen with h | h <;> cases h.symm.trans hsame

theorem StateE.Moves.connecting {s s' : StateE} (h : s.Moves s') (hs' : s' = .kConnecting) :
    s = .kConnecting := by
  subst hs'
  rcases h with h | ⟨-, h⟩ | ⟨-, h⟩ | ⟨-, h⟩
  · exact h.symm
  all_goals cases h

theorem StateE.Moves.disconnected {s s' : StateE} (h : s.Moves s') (hs : s = .kDisconnected) :
    s' = .kDisconnected := by
  subst hs
  rcases h with h | ⟨h, -⟩ | ⟨h, -⟩ | ⟨-, h⟩
  · exact h
  · cases h
  · cases h
  · exact h

/-- The callbacks of a dispatch. -/
theorem mem_handleEvent {ch : Channel} {lock : Bool} {revents : Events}
    (h : k ∈ ch.handleEvent lock revents) :
    k = .handleClose ∨ k = .handleError ∨ k = .handleRead ∨ k = .handleWrite ∨ k = .unguard := by
  unfold Channel.handleEvent Channel.handleEventWithGuard at h
  split at h
  · split at h
    · simp only [List.mem_append] at h
      rcases h with (((h | h) | h) | h) | h
      all_goals (try split at h) <;> simp_all
    · cases h
  · simp only [List.mem_append] at h
    rcases h with ((h | h) | h) | h
    all_goals split at h <;> simp_all

theorem inFlight_user (calls : List UserCall) :
    (calls.map ConnCall.user).filterMap ConnCall.inFlight = [] := by
  simp [List.filterMap_eq_nil_iff, ConnCall.inFlight]

theorem inFlight_handleEvent (ch : Channel) (lock : Bool) (revents : Events) :
    (ch.handleEvent lock revents).filterMap ConnCall.inFlight = [] := by
  rw [List.filterMap_eq_nil_iff]
  intro k hk
  rcases mem_handleEvent hk with rfl | rfl | rfl | rfl | rfl <;> rfl

/-- What a call has to do with messages in flight: nothing, or `send` puts one in flight,
or one is given up by a closed connection, or one is taken. -/
theorem CallSpec.sends (h : CallSpec v o k v' out) :
    (k.inFlight = none ∧ taken out.obs = [] ∧ passed out.obs = [] ∧
        out.calls.filterMap ConnCall.inFlight = []) ∨
      (∃ m, k = .user (.send m) ∧ v.conn.state = .kConnected ∧ v'.conn.state = .kConnected ∧
        taken out.obs = [] ∧ passed out.obs = [(.loop, m.content)] ∧ out.calls = [m.loopCall]) ∨
      (∃ m, k.inFlight = some m ∧ v.conn.state = .kDisconnected ∧ taken out.obs = [] ∧
        passed out.obs = [] ∧ out.calls = []) ∨
      (∃ m, k.inFlight = some m ∧ v.conn.state ≠ .kDisconnected ∧
        v'.conn.state = v.conn.state ∧ taken out.obs = [m] ∧ passed out.obs = [] ∧
        out.calls = []) := by
  cases h with
  | send m hs =>
      exact Or.inr (Or.inl ⟨m, rfl, hs, hs, rfl, rfl, rfl⟩)
  | gaveUp hk hs => exact Or.inr (Or.inr (Or.inl ⟨_, hk, hs, rfl, rfl, rfl⟩))
  | gaveUpUnread hk => exact Or.inl ⟨hk, rfl, rfl, rfl⟩
  | tookNothing hk hs => exact Or.inr (Or.inr (Or.inr ⟨_, hk, hs, rfl, rfl, rfl, rfl⟩))
  | took hk hs => exact Or.inr (Or.inr (Or.inr ⟨_, hk, hs, rfl, rfl, rfl, rfl⟩))
  | shutdown =>
      refine Or.inl ⟨rfl, ?_, ?_, rfl⟩ <;> unfold ConnView.shutdownInLoop <;> split <;> rfl
  | userCode => exact Or.inl ⟨rfl, rfl, rfl, inFlight_user _⟩
  | handleEvent => exact Or.inl ⟨rfl, rfl, rfl, inFlight_handleEvent _ _ _⟩
  | readData => exact Or.inl ⟨rfl, rfl, rfl, inFlight_user _⟩
  | writeAll => refine Or.inl ⟨rfl, ?_, ?_, rfl⟩ <;> split <;> rfl
  | handleClose =>
      exact Or.inl ⟨rfl, rfl, rfl, by simp [List.filterMap_append, ConnCall.inFlight]⟩
  | connectEstablished => exact Or.inl ⟨rfl, rfl, rfl, inFlight_user _⟩
  | disconnect =>
      exact Or.inl ⟨rfl, rfl, rfl, by simp [List.filterMap_append, ConnCall.inFlight]⟩
  | _ => exact Or.inl ⟨rfl, rfl, rfl, rfl⟩

theorem Message.loopCall_sized (m : Message) : m.loopCall.Sized := by
  cases m with
  | piece s => exact s.2
  | buffer b => exact (Message.buffer b).length_content_le

/-- The messages a call puts in flight fit in memory. -/
theorem CallSpec.calls_sized (h : CallSpec v o k v' out) : ∀ k' ∈ out.calls, k'.Sized := by
  have huser : ∀ (calls : List UserCall), ∀ k' ∈ calls.map ConnCall.user, k'.Sized := by
    intro calls k' hk'
    obtain ⟨u, -, rfl⟩ := List.mem_map.mp hk'
    exact trivial
  cases h with
  | send m hs =>
      intro k' hk'
      rw [List.mem_singleton.mp hk']
      exact m.loopCall_sized
  | userCode => exact huser _
  | handleEvent =>
      intro k' hk'
      rcases mem_handleEvent hk' with rfl | rfl | rfl | rfl | rfl <;> exact trivial
  | readData => exact huser _
  | readEof => simp [ConnCall.Sized]
  | readError => simp [ConnCall.Sized]
  | connectEstablished => exact huser _
  | handleClose =>
      intro k' hk'
      rcases List.mem_append.mp hk' with hk' | hk'
      · exact huser _ k' hk'
      · rw [List.mem_singleton.mp hk']
        exact trivial
  | disconnect =>
      intro k' hk'
      rcases List.mem_append.mp hk' with hk' | hk'
      · exact huser _ k' hk'
      · rw [List.mem_singleton.mp hk']
        exact trivial
  | connectDestroyed => simp [ConnCall.Sized]
  | _ => simp

/-- `connectEstablished` and `connectDestroyed` are called by the server alone. -/
theorem CallSpec.calls_internal (h : CallSpec v o k v' out) :
    .connectEstablished ∉ out.calls ∧ .connectDestroyed ∉ out.calls := by
  cases h with
  | send m => cases m <;> simp [Message.loopCall]
  | handleEvent =>
      refine ⟨fun hk => ?_, fun hk => ?_⟩ <;>
        rcases mem_handleEvent hk with h | h | h | h | h <;> cases h
  | _ => simp

/-- What a call queues are callbacks and functors of the user. -/
theorem CallSpec.queued_body (h : CallSpec v o k v' out) :
    ∀ k' ∈ out.queued.flatMap ConnFunctor.body, k' = .userCode := by
  cases h with
  | queueInLoop => simp [ConnFunctor.body]
  | writeAll => split <;> simp [ConnFunctor.body]
  | _ => simp

end Spec

end Reactor
