import Reactor.HubCodec
import Reactor.Lib.Transition
import Reactor.Lib.While
import Reactor.TcpConnection

/-!
# The hub (`examples/hub/hub.cc`)

A server that broadcasts: clients subscribe to topics and publish contents on them, over any
number of connections, in any interleaving and with their bytes cut anywhere.

* `Hub`, `hubSystem` - the server as in the source, and what can happen to it.
* `Board` - what the hub is for: who listens to which topic, what was said last on each, and
  what every listener has been told.
* `Hub.Shows` - the hub stands for the board; `Hub.Shows.subscribe`, `Hub.Shows.publish` and
  so on: its functions do on the board what they should.
-/

namespace Reactor

open Reactor.Lib HubCodec

/-- `insert` of a `std::set`, which is kept in order. -/
def setInsert {α : Type} [DecidableEq α] (r : α → α → Prop) [DecidableRel r] (x : α)
    (xs : List α) : List α :=
  if x ∈ xs then xs else xs.orderedInsert r x

/-- The order of strings: that of their bytes. -/
def bytesLE (xs ys : Bytes) : Prop := ¬ List.Lex (· < ·) ys xs

instance : DecidableRel bytesLE := fun xs ys =>
  inferInstanceAs (Decidable (¬ List.Lex (· < ·) ys xs))

/-- `Topic`. The numbers of the connections stand for their addresses. -/
structure Topic where
  topic : Bytes
  content : Bytes
  lastPubTime : Int
  audiences : List Nat
deriving DecidableEq, Repr

namespace Topic

/-- The constructor; the default timestamp is not valid. -/
def create (topic : Bytes) : Topic := ⟨topic, [], 0, []⟩

/-- `Timestamp::valid` of the last publication. -/
def valid (t : Topic) : Bool := 0 < t.lastPubTime

def makeMessage (t : Topic) : Bytes :=
  pub ++ space :: t.topic ++ kCRLF ++ (t.content ++ kCRLF)

/-- `add`, up to the message to the new listener. -/
def add (t : Topic) (c : Nat) : Topic := { t with audiences := setInsert (· ≤ ·) c t.audiences }

def remove (t : Topic) (c : Nat) : Topic := { t with audiences := t.audiences.erase c }

/-- `publish`, up to the messages to the audience. -/
def publish (t : Topic) (content : Bytes) (time : Int) : Topic :=
  { t with content := content, lastPubTime := time }

@[simp] theorem add_topic (t : Topic) (c : Nat) : (t.add c).topic = t.topic := rfl

@[simp] theorem add_valid (t : Topic) (c : Nat) : (t.add c).valid = t.valid := rfl

@[simp] theorem add_makeMessage (t : Topic) (c : Nat) :
    (t.add c).makeMessage = t.makeMessage := rfl

@[simp] theorem remove_topic (t : Topic) (c : Nat) : (t.remove c).topic = t.topic := rfl

@[simp] theorem publish_topic (t : Topic) (content : Bytes) (time : Int) :
    (t.publish content time).topic = t.topic := rfl

@[simp] theorem publish_audiences (t : Topic) (content : Bytes) (time : Int) :
    (t.publish content time).audiences = t.audiences := rfl

end Topic

/-- A connection: its state, its input buffer, the topics in its context, all bytes read from
it, and all bytes that `send` was given while it was `kConnected`. -/
structure HubConn where
  state : StateE
  inputBuffer : Buffer
  subscription : List Bytes
  received : Bytes
  sent : Bytes
deriving DecidableEq, Repr

/-- `PubSubServer` and its connections. -/
structure Hub where
  topics : Bytes → Option Topic
  conns : Nat → HubConn

namespace Hub

def setConn (h : Hub) (c : Nat) (conn : HubConn) : Hub :=
  { h with conns := Function.update h.conns c conn }

def setTopic (h : Hub) (t : Topic) : Hub :=
  { h with topics := Function.update h.topics t.topic (some t) }

/-- `TcpConnection::send`, on the thread of the loop. -/
def send (h : Hub) (c : Nat) (message : Bytes) : Hub :=
  if (h.conns c).state = .kConnected then
    h.setConn c { h.conns c with sent := (h.conns c).sent ++ message }
  else h

/-- `TcpConnection::shutdown`. -/
def shutdown (h : Hub) (c : Nat) : Hub :=
  if (h.conns c).state = .kConnected then
    h.setConn c { h.conns c with state := .kDisconnecting }
  else h

/-- `getTopic`; where the topic is new it is inserted by the caller's `setTopic`. -/
def getTopic (h : Hub) (topic : Bytes) : Topic := (h.topics topic).getD (.create topic)

def doSubscribe (h : Hub) (c : Nat) (topic : Bytes) : Hub :=
  let h₁ := h.setConn c
    { h.conns c with subscription := setInsert bytesLE topic (h.conns c).subscription }
  let t := (h₁.getTopic topic).add c
  let h₂ := h₁.setTopic t
  if t.valid then h₂.send c t.makeMessage else h₂

def doUnsubscribe (h : Hub) (c : Nat) (topic : Bytes) : Hub :=
  let h₁ := h.setTopic ((h.getTopic topic).remove c)
  h₁.setConn c { h₁.conns c with subscription := (h₁.conns c).subscription.erase topic }

def doPublish (h : Hub) (topic content : Bytes) (time : Int) : Hub :=
  let t := (h.getTopic topic).publish content time
  t.audiences.foldl (fun h c => h.send c t.makeMessage) (h.setTopic t)

/-- One pass of the loop of `onMessage`, with the message it has handled. -/
def pass (c : Nat) (time : Int) (h : Hub) : Except LineFault (Bool × List HubMessage × Hub) := do
  let (result, m, buf) ← parseMessage (h.conns c).inputBuffer
  let h := h.setConn c { h.conns c with inputBuffer := buf }
  match result with
  | .kSuccess =>
      if m.cmd = pub then .ok (true, [m], h.doPublish m.topic m.content time)
      else if m.cmd = sub then .ok (true, [m], h.doSubscribe c m.topic)
      else if m.cmd = unsub then .ok (true, [m], h.doUnsubscribe c m.topic)
      else .ok (false, [m], h.shutdown c)
  | .kError => .ok (false, [], h.shutdown c)
  | .kContinue => .ok (false, [], h)

/-- Every message takes bytes out of the buffer, so this fuel is more than the loop needs. -/
def onMessage (h : Hub) (c : Nat) (time : Int) : Option (Except LineFault (List HubMessage × Hub)) :=
  whileLoop (pass c time) ((h.conns c).inputBuffer.readableBytes + 1) h

/-- `TcpConnection::handleRead`: what was read goes into the input buffer, and the message
callback is called where it is not nothing. -/
def handleRead (h : Hub) (c : Nat) (r : ReadResult) (time : Int) :
    Option (Except LineFault (List HubMessage × Hub)) :=
  match (h.conns c).inputBuffer.readFd r with
  | .error f => some (.error (.buffer f))
  | .ok (buf, out) =>
      let h₁ := h.setConn c
        { h.conns c with inputBuffer := buf, received := (h.conns c).received ++ out.data }
      if 0 < out.n then h₁.onMessage c time else some (.ok ([], h₁))

/-- `onConnection` of a connection that is up. -/
def connected (h : Hub) (c : Nat) : Hub :=
  h.setConn c { h.conns c with state := .kConnected, subscription := [] }

/-- `TcpConnection::handleClose` with `onConnection` of a connection that is down. -/
def disconnected (h : Hub) (c : Nat) : Hub :=
  let h₁ := h.setConn c { h.conns c with state := .kDisconnected }
  (h.conns c).subscription.foldl (fun h topic => h.doUnsubscribe c topic) h₁

end Hub

/-- `"utc_time"`. -/
def utcTime : Bytes := [117, 116, 99, 95, 116, 105, 109, 101]

/-- What happens to the hub: a connection is established, is read from at some time, or goes
down; the timer fires. -/
inductive HubLabel where
  | connect (c : Nat)
  | read (c : Nat) (r : ReadResult) (time : Int)
  | disconnect (c : Nat)
  | timePublish (content : Bytes) (time : Int)

/-- The connection is in the poller. -/
def HubConn.isUp (conn : HubConn) : Bool := conn.state = .kConnected ∨ conn.state = .kDisconnecting

/-- The formatted time that the timer publishes has only digits, spaces, colons and a dot. -/
def hubSystem : System Hub HubLabel LineFault where
  init h := (∀ topic, h.topics topic = none) ∧
    ∀ c, h.conns c = ⟨.kConnecting, .create kInitialSize, [], [], []⟩
  step label h :=
    match label with
    | .connect c => if (h.conns c).state = .kConnecting then some (.ok (h.connected c)) else none
    | .read c r time =>
        if (h.conns c).isUp then (h.handleRead c r time).map fun r => r.map Prod.snd else none
    | .disconnect c => if (h.conns c).isUp then some (.ok (h.disconnected c)) else none
    | .timePublish content time =>
        if IsLine content then some (.ok (h.doPublish utcTime content time)) else none

/-! ### The board -/

/-- Who can be told something, who listens to which topic, what was published last on a topic,
and what everyone has been told. -/
structure Board where
  up : Nat → Bool
  listens : Nat → Bytes → Bool
  last : Bytes → Option Bytes
  told : Nat → List (Bytes × Bytes)

/-- A client joins, sends a command or a line that is none, or leaves; the clock strikes. -/
inductive HubEvent where
  | join (c : Nat)
  | command (c : Nat) (m : HubMessage) (time : Int)
  | malformed (c : Nat)
  | clock (content : Bytes) (time : Int)
  | leave (c : Nat)

namespace Board

def empty : Board where
  up _ := false
  listens _ _ := false
  last _ := none
  told _ := []

def tell (bd : Board) (c : Nat) (topic content : Bytes) : Board :=
  if bd.up c then
    { bd with told := Function.update bd.told c (bd.told c ++ [(topic, content)]) }
  else bd

/-- A new listener is told what was published last. -/
def subscribe (bd : Board) (c : Nat) (topic : Bytes) : Board :=
  let bd₁ := { bd with listens := fun d k => bd.listens d k || (d = c && k = topic) }
  match bd.last topic with
  | some content => bd₁.tell c topic content
  | none => bd₁

def unsubscribe (bd : Board) (c : Nat) (topic : Bytes) : Board :=
  { bd with listens := fun d k => bd.listens d k && !(d = c && k = topic) }

/-- A publication is told to all listeners. It is kept for later ones if its time is valid. -/
def publish (bd : Board) (topic content : Bytes) (time : Int) : Board :=
  { bd with
    last := Function.update bd.last topic (if 0 < time then some content else none)
    told := fun c =>
      bd.told c ++ if bd.up c && bd.listens c topic then [(topic, content)] else [] }

def hangup (bd : Board) (c : Nat) : Board := { bd with up := Function.update bd.up c false }

def event (bd : Board) : HubEvent → Board
  | .join c => { bd with up := Function.update bd.up c true }
  | .command c m time =>
      if m.cmd = pub then bd.publish m.topic m.content time
      else if m.cmd = sub then bd.subscribe c m.topic
      else if m.cmd = unsub then bd.unsubscribe c m.topic
      else bd.hangup c
  | .malformed c => bd.hangup c
  | .clock content time => bd.publish utcTime content time
  | .leave c => { bd.hangup c with listens := Function.update bd.listens c fun _ => false }

def run (bd : Board) (events : List HubEvent) : Board := events.foldl event bd

@[simp] theorem run_nil (bd : Board) : bd.run [] = bd := rfl

theorem run_append (bd : Board) (events events' : List HubEvent) :
    bd.run (events ++ events') = (bd.run events).run events' := List.foldl_append

end Board

/-- A publication on the wire. -/
def toldBytes (told : List (Bytes × Bytes)) : Bytes :=
  told.flatMap fun p => (⟨pub, p.1, p.2⟩ : HubMessage).encode

/-- The hub stands for the board: its two records of who listens to what, the audiences of the
topics and the subscriptions of the connections, are both the board's; and the bytes sent to a
connection are what it was told. -/
structure Hub.Shows (h : Hub) (bd : Board) : Prop where
  topic : ∀ k, (h.getTopic k).topic = k
  input : ∀ c, (h.conns c).inputBuffer.WF
  up : ∀ c, bd.up c = true ↔ (h.conns c).state = .kConnected
  subscription : ∀ c k, k ∈ (h.conns c).subscription ↔ bd.listens c k = true
  audience : ∀ c k, c ∈ (h.getTopic k).audiences ↔ bd.listens c k = true
  subscription_nodup : ∀ c, (h.conns c).subscription.Nodup
  audience_nodup : ∀ k, (h.getTopic k).audiences.Nodup
  last : ∀ k, bd.last k = if (h.getTopic k).valid then some (h.getTopic k).content else none
  last_line : ∀ k content, bd.last k = some content → IsLine k ∧ IsLine content
  sent : ∀ c, (h.conns c).sent = toldBytes (bd.told c)
  told_line : ∀ c, ∀ p ∈ bd.told c, IsLine p.1 ∧ IsLine p.2

/-! ### What the functions do -/

section Functions

variable {h : Hub} {c d : Nat} {topic content message : Bytes} {bd : Board}

theorem mem_setInsert {α : Type} [DecidableEq α] {r : α → α → Prop} [DecidableRel r] {x y : α}
    {xs : List α} : y ∈ setInsert r x xs ↔ y = x ∨ y ∈ xs := by
  unfold setInsert
  split
  · rename_i hx
    refine ⟨Or.inr, fun hy => hy.elim (fun heq => heq ▸ hx) id⟩
  · exact List.mem_orderedInsert r

theorem nodup_setInsert {α : Type} [DecidableEq α] {r : α → α → Prop} [DecidableRel r] {x : α}
    {xs : List α} (h : xs.Nodup) : (setInsert r x xs).Nodup := by
  unfold setInsert
  split
  · exact h
  · rename_i hx
    exact (List.perm_orderedInsert r x xs).nodup_iff.mpr (List.nodup_cons.mpr ⟨hx, h⟩)

@[simp] theorem setConn_topics (conn : HubConn) : (h.setConn c conn).topics = h.topics := rfl

@[simp] theorem setTopic_conns (t : Topic) : (h.setTopic t).conns = h.conns := rfl

@[simp] theorem getTopic_setConn (conn : HubConn) (k : Bytes) :
    (h.setConn c conn).getTopic k = h.getTopic k := rfl

theorem getTopic_setTopic (t : Topic) (k : Bytes) :
    (h.setTopic t).getTopic k = if k = t.topic then t else h.getTopic k := by
  unfold Hub.getTopic Hub.setTopic
  by_cases hk : k = t.topic
  · subst hk
    simp
  · simp [hk]

@[simp] theorem send_topics : (h.send c message).topics = h.topics := by
  unfold Hub.send
  split <;> rfl

@[simp] theorem getTopic_send (k : Bytes) : (h.send c message).getTopic k = h.getTopic k := by
  rw [Hub.getTopic, send_topics, Hub.getTopic]

/-- `send` does nothing but send, and only to a connection that is up. -/
theorem send_conns : (h.send c message).conns d =
    { h.conns d with
      sent := (h.conns d).sent ++ if d = c ∧ (h.conns d).state = .kConnected then message else [] } := by
  unfold Hub.send
  by_cases hd : d = c
  · subst hd
    by_cases hs : (h.conns d).state = .kConnected
    · simp [hs, Hub.setConn]
    · simp [hs]
  · split
    · simp [hd, Hub.setConn]
    · simp [hd]

/-- Sending to each of a set of connections. -/
theorem foldl_send {audiences : List Nat} (message : Bytes) (hnodup : audiences.Nodup) :
    (audiences.foldl (fun h c => h.send c message) h).topics = h.topics ∧
      ∀ d, (audiences.foldl (fun h c => h.send c message) h).conns d =
        { h.conns d with
          sent := (h.conns d).sent ++
            if d ∈ audiences ∧ (h.conns d).state = .kConnected then message else [] } := by
  induction audiences generalizing h with
  | nil => simp
  | cons c audiences ih =>
      obtain ⟨hc, hrest⟩ := List.nodup_cons.mp hnodup
      obtain ⟨htopics, hconns⟩ := ih (h := h.send c message) hrest
      refine ⟨by rw [List.foldl_cons, htopics, send_topics], fun d => ?_⟩
      rw [List.foldl_cons, hconns d, send_conns]
      by_cases hd : d = c
      · subst hd
        simp [hc]
      · simp [hd]

theorem makeMessage_eq (t : Topic) :
    t.makeMessage = (⟨pub, t.topic, t.content⟩ : HubMessage).encode := by
  simp [Topic.makeMessage, HubMessage.encode]

theorem doSubscribe_conns :
    (h.doSubscribe c topic).conns d =
      { h.conns d with
        subscription := if d = c then setInsert bytesLE topic (h.conns d).subscription
          else (h.conns d).subscription
        sent := (h.conns d).sent ++
          if d = c ∧ (h.conns d).state = .kConnected ∧ (h.getTopic topic).valid = true then
            (h.getTopic topic).makeMessage else [] } := by
  simp only [Hub.doSubscribe, getTopic_setConn, Topic.add_valid, Topic.add_makeMessage]
  by_cases hd : d = c
  · subst hd
    by_cases hv : (h.getTopic topic).valid = true
    · simp [hv, send_conns, Hub.setConn]
    · simp [hv, Hub.setConn]
  · by_cases hv : (h.getTopic topic).valid = true
    · simp [hv, send_conns, Hub.setConn, hd]
    · simp [hv, Hub.setConn, hd]

theorem doSubscribe_getTopic (htopic : (h.getTopic topic).topic = topic) (k : Bytes) :
    (h.doSubscribe c topic).getTopic k =
      if k = topic then (h.getTopic topic).add c else h.getTopic k := by
  cases hv : ((h.getTopic topic).add c).valid <;>
    simp [Hub.doSubscribe, hv, getTopic_setTopic, htopic]

theorem doUnsubscribe_conns :
    (h.doUnsubscribe c topic).conns d =
      { h.conns d with
        subscription := if d = c then (h.conns d).subscription.erase topic
          else (h.conns d).subscription } := by
  by_cases hd : d = c
  · subst hd
    simp [Hub.doUnsubscribe, Hub.setConn]
  · simp [Hub.doUnsubscribe, Hub.setConn, hd]

theorem doUnsubscribe_getTopic (htopic : (h.getTopic topic).topic = topic) (k : Bytes) :
    (h.doUnsubscribe c topic).getTopic k =
      if k = topic then (h.getTopic topic).remove c else h.getTopic k := by
  simp only [Hub.doUnsubscribe, getTopic_setConn, getTopic_setTopic, Topic.remove_topic, htopic]

theorem doPublish_getTopic {time : Int} (htopic : (h.getTopic topic).topic = topic)
    (hnodup : (h.getTopic topic).audiences.Nodup) (k : Bytes) :
    (h.doPublish topic content time).getTopic k =
      if k = topic then (h.getTopic topic).publish content time else h.getTopic k := by
  have htopics := (foldl_send (h := h.setTopic ((h.getTopic topic).publish content time))
    (Topic.makeMessage ((h.getTopic topic).publish content time)) hnodup).1
  rw [Hub.getTopic, Hub.doPublish, Topic.publish_audiences, htopics, ← Hub.getTopic,
    getTopic_setTopic, Topic.publish_topic, htopic]

theorem doPublish_conns {time : Int} (htopic : (h.getTopic topic).topic = topic)
    (hnodup : (h.getTopic topic).audiences.Nodup) :
    (h.doPublish topic content time).conns d =
      { h.conns d with
        sent := (h.conns d).sent ++
          if d ∈ (h.getTopic topic).audiences ∧ (h.conns d).state = .kConnected then
            (⟨pub, topic, content⟩ : HubMessage).encode else [] } := by
  have hconns := (foldl_send (h := h.setTopic ((h.getTopic topic).publish content time))
    (Topic.makeMessage ((h.getTopic topic).publish content time)) hnodup).2 d
  have hmessage : Topic.makeMessage ((h.getTopic topic).publish content time) =
      (⟨pub, topic, content⟩ : HubMessage).encode := by
    rw [makeMessage_eq, Topic.publish_topic, htopic]
    rfl
  rw [Hub.doPublish, Topic.publish_audiences, hconns, setTopic_conns, hmessage]

end Functions

/-! ### The board after each of them -/

section Shows

variable {h : Hub} {c : Nat} {topic content : Bytes} {bd : Board}

theorem toldBytes_append (told told' : List (Bytes × Bytes)) :
    toldBytes (told ++ told') = toldBytes told ++ toldBytes told' := List.flatMap_append

/-- Reading changes nothing that the board shows. -/
theorem Hub.Shows.setInput (hs : h.Shows bd) {buf : Buffer} (hbuf : buf.WF) (received : Bytes) :
    (h.setConn c { h.conns c with inputBuffer := buf, received := received }).Shows bd := by
  have hconn : ∀ d, ∃ buf' received', buf'.WF ∧
      (h.setConn c { h.conns c with inputBuffer := buf, received := received }).conns d =
        { h.conns d with inputBuffer := buf', received := received' } := by
    intro d
    by_cases hd : d = c
    · subst hd
      exact ⟨buf, received, hbuf, by simp [Hub.setConn]⟩
    · exact ⟨(h.conns d).inputBuffer, (h.conns d).received, hs.input d, by simp [Hub.setConn, hd]⟩
  refine ⟨hs.topic, fun d => ?_, fun d => ?_, fun d k => ?_, hs.audience, fun d => ?_,
    hs.audience_nodup, hs.last, hs.last_line, fun d => ?_, hs.told_line⟩ <;>
    obtain ⟨buf', received', hwf, heq⟩ := hconn d <;> rw [heq]
  · exact hwf
  · exact hs.up d
  · exact hs.subscription d k
  · exact hs.subscription_nodup d
  · exact hs.sent d

section Board

@[simp] theorem tell_up (d : Nat) : (bd.tell c topic content).up d = bd.up d := by
  unfold Board.tell
  split <;> rfl

@[simp] theorem tell_listens (d : Nat) (k : Bytes) :
    (bd.tell c topic content).listens d k = bd.listens d k := by
  unfold Board.tell
  split <;> rfl

@[simp] theorem tell_last (k : Bytes) : (bd.tell c topic content).last k = bd.last k := by
  unfold Board.tell
  split <;> rfl

theorem tell_told (d : Nat) : (bd.tell c topic content).told d =
    bd.told d ++ if d = c ∧ bd.up d = true then [(topic, content)] else [] := by
  unfold Board.tell
  by_cases hd : d = c
  · subst hd
    split <;> simp_all
  · split <;> simp [hd]

@[simp] theorem subscribe_up (d : Nat) : (bd.subscribe c topic).up d = bd.up d := by
  unfold Board.subscribe
  split <;> simp

@[simp] theorem subscribe_last (k : Bytes) : (bd.subscribe c topic).last k = bd.last k := by
  unfold Board.subscribe
  split <;> simp

theorem subscribe_listens (d : Nat) (k : Bytes) :
    (bd.subscribe c topic).listens d k = true ↔ bd.listens d k = true ∨ (d = c ∧ k = topic) := by
  unfold Board.subscribe
  split <;> simp

theorem subscribe_told (d : Nat) : (bd.subscribe c topic).told d = bd.told d ++
    if d = c ∧ bd.up d = true then (bd.last topic).toList.map (topic, ·) else [] := by
  unfold Board.subscribe
  split
  · rename_i content hlast
    rw [tell_told, hlast]
    rfl
  · rename_i hlast
    simp [hlast]

theorem unsubscribe_listens (d : Nat) (k : Bytes) : (bd.unsubscribe c topic).listens d k = true ↔
    bd.listens d k = true ∧ ¬ (d = c ∧ k = topic) := by
  simp [Board.unsubscribe]
  tauto

end Board

theorem Hub.Shows.subscribe (hs : h.Shows bd) (c : Nat) (topic : Bytes) :
    (h.doSubscribe c topic).Shows (bd.subscribe c topic) := by
  have htopic := hs.topic topic
  have hget := doSubscribe_getTopic (c := c) htopic
  refine ⟨fun k => ?_, fun d => ?_, fun d => ?_, fun d k => ?_, fun d k => ?_, fun d => ?_,
    fun k => ?_, fun k => ?_, fun k x hx => ?_, fun d => ?_, fun d p hp => ?_⟩
  · rw [hget]
    split
    · rename_i hk
      rw [Topic.add_topic, htopic, hk]
    · exact hs.topic k
  · rw [doSubscribe_conns]
    exact hs.input d
  · rw [doSubscribe_conns, subscribe_up]
    exact hs.up d
  · rw [doSubscribe_conns, subscribe_listens, ← hs.subscription]
    by_cases hd : d = c
    · subst hd
      simp [mem_setInsert, or_comm]
    · simp [hd]
  · rw [hget, subscribe_listens, ← hs.audience]
    by_cases hk : k = topic
    · subst hk
      simp [Topic.add, mem_setInsert, or_comm]
    · simp [hk]
  · rw [doSubscribe_conns]
    split
    · exact nodup_setInsert (hs.subscription_nodup d)
    · exact hs.subscription_nodup d
  · rw [hget]
    split
    · exact nodup_setInsert (hs.audience_nodup topic)
    · exact hs.audience_nodup k
  · rw [hget, subscribe_last, hs.last]
    by_cases hk : k = topic
    · subst hk
      rw [if_pos rfl]
      rfl
    · rw [if_neg hk]
  · rw [subscribe_last] at hx
    exact hs.last_line k x hx
  · rw [doSubscribe_conns, subscribe_told, toldBytes_append, ← hs.sent d, hs.last topic]
    by_cases hd : d = c ∧ bd.up d = true
    · obtain ⟨rfl, hup⟩ := hd
      have hstate := (hs.up d).mp hup
      cases hv : (h.getTopic topic).valid with
      | true => simp [hup, hstate, makeMessage_eq, htopic, toldBytes]
      | false => simp [toldBytes]
    · have hnot : ¬ (d = c ∧ (h.conns d).state = .kConnected ∧ (h.getTopic topic).valid = true) :=
        fun hc => hd ⟨hc.1, (hs.up d).mpr hc.2.1⟩
      simp [hd, hnot, toldBytes]
  · rw [subscribe_told, List.mem_append] at hp
    rcases hp with hp | hp
    · exact hs.told_line d p hp
    · split at hp
      · obtain ⟨x, hx, rfl⟩ := List.mem_map.mp hp
        exact hs.last_line topic x (Option.mem_toList.mp hx)
      · cases hp

theorem Hub.Shows.unsubscribe (hs : h.Shows bd) (c : Nat) (topic : Bytes) :
    (h.doUnsubscribe c topic).Shows (bd.unsubscribe c topic) := by
  have htopic := hs.topic topic
  have hget := doUnsubscribe_getTopic (c := c) htopic
  refine ⟨fun k => ?_, fun d => ?_, fun d => ?_, fun d k => ?_, fun d k => ?_, fun d => ?_,
    fun k => ?_, fun k => ?_, hs.last_line, fun d => ?_, hs.told_line⟩
  · rw [hget]
    split
    · rename_i hk
      rw [Topic.remove_topic, htopic, hk]
    · exact hs.topic k
  · rw [doUnsubscribe_conns]
    exact hs.input d
  · rw [doUnsubscribe_conns]
    exact hs.up d
  · rw [doUnsubscribe_conns, unsubscribe_listens, ← hs.subscription]
    by_cases hd : d = c
    · subst hd
      simp [(hs.subscription_nodup d).mem_erase_iff, and_comm]
    · simp [hd]
  · rw [hget, unsubscribe_listens, ← hs.audience]
    by_cases hk : k = topic
    · subst hk
      simp [Topic.remove, (hs.audience_nodup k).mem_erase_iff, and_comm]
    · simp [hk]
  · rw [doUnsubscribe_conns]
    split
    · exact (hs.subscription_nodup d).erase topic
    · exact hs.subscription_nodup d
  · rw [hget]
    split
    · exact (hs.audience_nodup topic).erase c
    · exact hs.audience_nodup k
  · rw [hget]
    by_cases hk : k = topic
    · subst hk
      rw [if_pos rfl]
      exact hs.last k
    · rw [if_neg hk]
      exact hs.last k
  · rw [doUnsubscribe_conns]
    exact hs.sent d

theorem Hub.Shows.publish (hs : h.Shows bd) (hline : IsLine topic ∧ IsLine content) (time : Int) :
    (h.doPublish topic content time).Shows (bd.publish topic content time) := by
  have htopic := hs.topic topic
  have hnodup := hs.audience_nodup topic
  have hget := @doPublish_getTopic h topic content time htopic hnodup
  have hconns := fun d => @doPublish_conns h d topic content time htopic hnodup
  refine ⟨fun k => ?_, fun d => ?_, fun d => ?_, fun d k => ?_, fun d k => ?_, fun d => ?_,
    fun k => ?_, fun k => ?_, fun k x hx => ?_, fun d => ?_, fun d p hp => ?_⟩
  · rw [hget]
    split
    · rename_i hk
      rw [Topic.publish_topic, htopic, hk]
    · exact hs.topic k
  · rw [hconns]
    exact hs.input d
  · rw [hconns]
    exact hs.up d
  · rw [hconns]
    exact hs.subscription d k
  · rw [hget]
    by_cases hk : k = topic
    · subst hk
      rw [if_pos rfl]
      exact hs.audience d k
    · rw [if_neg hk]
      exact hs.audience d k
  · rw [hconns]
    exact hs.subscription_nodup d
  · rw [hget]
    split
    · exact hnodup
    · exact hs.audience_nodup k
  · rw [hget]
    by_cases hk : k = topic
    · subst hk
      simp [Board.publish, Topic.valid, Topic.publish]
    · simpa [Board.publish, Function.update_of_ne hk, hk] using hs.last k
  · by_cases hk : k = topic
    · subst hk
      simp only [Board.publish, Function.update_self] at hx
      split at hx
      · cases hx
        exact hline
      · cases hx
    · exact hs.last_line k x (by simpa [Board.publish, Function.update_of_ne hk] using hx)
  · rw [hconns, hs.sent d]
    simp only [Board.publish, toldBytes_append, hs.audience, Bool.and_eq_true, hs.up, and_comm]
    split <;> simp [toldBytes]
  · simp only [Board.publish, List.mem_append] at hp
    rcases hp with hp | hp
    · exact hs.told_line d p hp
    · split at hp
      · rw [List.mem_singleton.mp hp]
        exact hline
      · cases hp

/-- A connection whose state changes. -/
theorem Hub.Shows.setState (hs : h.Shows bd) (c : Nat) (s : StateE) :
    (h.setConn c { h.conns c with state := s }).Shows
      { bd with up := Function.update bd.up c (s = .kConnected) } := by
  have hconn : ∀ d, (h.setConn c { h.conns c with state := s }).conns d =
      { h.conns d with state := if d = c then s else (h.conns d).state } := by
    intro d
    by_cases hd : d = c
    · subst hd
      simp [Hub.setConn]
    · simp [Hub.setConn, hd]
  refine ⟨hs.topic, fun d => ?_, fun d => ?_, fun d k => ?_, hs.audience, fun d => ?_,
    hs.audience_nodup, hs.last, hs.last_line, fun d => ?_, hs.told_line⟩ <;> rw [hconn d]
  · exact hs.input d
  · by_cases hd : d = c
    · subst hd
      simp
    · simpa [hd] using hs.up d
  · exact hs.subscription d k
  · exact hs.subscription_nodup d
  · exact hs.sent d

theorem Hub.Shows.shutdown (hs : h.Shows bd) (c : Nat) :
    (h.shutdown c).Shows (bd.hangup c) := by
  unfold Hub.shutdown
  split
  · exact hs.setState c .kDisconnecting
  · rename_i hnot
    have hdown : bd.up c = false := by
      cases hup : bd.up c with
      | true => exact absurd ((hs.up c).mp hup) hnot
      | false => rfl
    have hsame : bd.hangup c = bd := by
      rw [Board.hangup, ← hdown, Function.update_eq_self]
    rw [hsame]
    exact hs

theorem foldl_doUnsubscribe (topics : List Bytes) (d : Nat) :
    (topics.foldl (fun h k => h.doUnsubscribe c k) h).conns d =
      { h.conns d with
        subscription := if d = c then topics.foldl List.erase (h.conns d).subscription
          else (h.conns d).subscription } := by
  induction topics generalizing h with
  | nil => simp
  | cons k topics ih =>
      rw [List.foldl_cons, ih, doUnsubscribe_conns]
      by_cases hd : d = c
      · simp [hd]
      · simp [hd]

theorem Hub.Shows.unsubscribeAll (hs : h.Shows bd) (c : Nat) (topics : List Bytes) :
    (topics.foldl (fun h k => h.doUnsubscribe c k) h).Shows
      { bd with listens := fun d k => bd.listens d k && !(d = c && k ∈ topics) } := by
  induction topics generalizing h bd with
  | nil => simpa using hs
  | cons k topics ih =>
      have hrest := ih (hs.unsubscribe c k)
      have hsame : (fun d k' => (bd.unsubscribe c k).listens d k' && !(d = c && k' ∈ topics)) =
          fun d k' => bd.listens d k' && !(d = c && k' ∈ k :: topics) := by
        funext d k'
        simp only [Board.unsubscribe, List.mem_cons, Bool.and_assoc, ← Bool.not_or,
          ← Bool.and_or_distrib_left, Bool.decide_or]
      rw [hsame] at hrest
      exact hrest

/-- When a connection is down it listens to nothing. -/
theorem Hub.Shows.disconnected (hs : h.Shows bd) (c : Nat) :
    (h.disconnected c).Shows (bd.event (.leave c)) := by
  have hstate := hs.setState c .kDisconnected
  have hall := hstate.unsubscribeAll c (h.conns c).subscription
  have hsame : (fun d k => bd.listens d k && !(d = c && k ∈ (h.conns c).subscription)) =
      Function.update bd.listens c fun _ => false := by
    funext d k
    by_cases hd : d = c
    · subst hd
      have hiff := hs.subscription d k
      cases hl : bd.listens d k <;> simp_all
    · simp [hd]
  rw [Hub.disconnected, Board.event, Board.hangup, ← hsame]
  exact hall

/-- The connections that are not in the poller. -/
def Hub.Idle (h : Hub) : Prop := ∀ c, (h.conns c).isUp = false → (h.conns c).subscription = []

theorem Hub.Shows.connected (hs : h.Shows bd) (hidle : h.Idle)
    (hstate : (h.conns c).state = .kConnecting) : (h.connected c).Shows (bd.event (.join c)) := by
  have hnone : (h.conns c).subscription = [] := hidle c (by simp [HubConn.isUp, hstate])
  have hup := hs.setState c .kConnected
  have hsame : (⟨.kConnected, (h.conns c).inputBuffer, [], (h.conns c).received,
      (h.conns c).sent⟩ : HubConn) = { h.conns c with state := .kConnected } := by
    rw [← hnone]
  rw [Hub.connected, hsame]
  simpa [Board.event] using hup

end Shows

end Reactor
