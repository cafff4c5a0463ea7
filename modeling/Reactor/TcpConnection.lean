import Reactor.Buffer
import Reactor.Poller

/-!
# Connections (`TcpConnection.h`, `TcpConnection.cpp`, `Channel::handleEvent`)

The functions of one connection, each as a call on its loop's thread: the connection,
the poller of its loop and what the loop is dispatching before and after it, the calls
it makes in turn, the functors it queues, and what an observer of the connection sees
(`Obs`). User code (the message, connection and write-complete callbacks, functors of
its own) is a script of calls on the connection, chosen by the environment.

* `StringPiece.bytes`, `Message.boundString` - what the paths of `send` make of a message.
* `ConnView.sendInLoopEX`, `handleRead`, `handleWrite`, `handleClose`, .. - the functions.
* `ConnView.call` - one call.
-/

namespace Reactor

open Reactor.Lib

/-! ### Messages -/

/-- A `StringPiece`: a pointer, as the memory behind it, and an `int` length. -/
structure StringPiece where
  data : Bytes
  length : Int
deriving DecidableEq, Repr

namespace StringPiece

/-- `StringPiece(const std::string&)`. -/
def ofString (s : Bytes) : StringPiece := ⟨s, intOfSize s.length⟩

/-- The bytes that `data()` and `size()`, as a `size_t`, name. -/
def bytes (p : StringPiece) : Exec Bytes :=
  if sizeOfInt p.length ≤ p.data.length then .ok (p.data.take (sizeOfInt p.length))
  else .error .badAccess

/-- `as_string`. -/
def asString (p : StringPiece) : Exec Bytes :=
  if maxSize < sizeOfInt p.length then .error .lengthError else p.bytes

theorem bytes_ofString {s : Bytes} (h : s.length ≤ intMax) : (ofString s).bytes = .ok s := by
  have hsize : sizeOfInt (ofString s).length = s.length := by
    rw [ofString, intOfSize_of_le h, sizeOfInt_ofNat h]
  rw [bytes, hsize]
  simp [ofString]

theorem length_bytes_le {p : StringPiece} {data : Bytes} (h : p.bytes = .ok data) :
    data.length ≤ p.data.length := by
  unfold bytes at h
  split at h <;> cases h
  rw [List.length_take]
  exact Nat.min_le_right _ _

theorem asString_ofString {s : Bytes} (h : s.length ≤ intMax) : (ofString s).asString = .ok s := by
  have hsize : sizeOfInt (ofString s).length = s.length := by
    rw [ofString, intOfSize_of_le h, sizeOfInt_ofNat h]
  have hmax : ¬ maxSize < s.length := by
    unfold maxSize
    unfold intMax at h
    omega
  rw [asString, hsize, if_neg hmax, bytes_ofString h]

end StringPiece

/-- The argument of `send`: a string piece over some string, or a buffer. -/
inductive Message where
  | piece (s : { s : Bytes // s.length ≤ maxSize })
  | buffer (b : { b : Buffer // b.WF })

namespace Message

def content : Message → Bytes
  | .piece s => s.1
  | .buffer b => b.1.content

/-- The string that `send` on another thread binds into the queued functor. -/
def boundString : Message → Exec Bytes
  | .piece s => (StringPiece.ofString s.1).asString
  | .buffer b => b.1.retrieveAllAsString.map Prod.fst

theorem length_content_le (m : Message) : m.content.length ≤ maxSize := by
  cases m with
  | piece s => exact s.2
  | buffer b =>
      have hread := b.2.readableBytes_eq
      have hw := b.2.writer_le
      have hsize := b.2.size_le
      rw [content, b.2.length_content]
      omega

theorem length_boundString_le {m : Message} {s : Bytes} (h : m.boundString = .ok s) :
    s.length ≤ maxSize := by
  cases m with
  | piece p =>
      simp only [boundString, StringPiece.asString] at h
      split at h
      · cases h
      · exact Nat.le_trans (StringPiece.length_bytes_le h) p.2
  | buffer b =>
      rw [boundString, Buffer.retrieveAllAsString_ok b.2] at h
      cases h
      exact length_content_le (.buffer b)

theorem boundString_eq {m : Message} (h : m.content.length ≤ intMax) :
    m.boundString = .ok m.content := by
  cases m with
  | piece s => exact StringPiece.asString_ofString h
  | buffer b =>
      have hall := Buffer.retrieveAllAsString_ok b.2
      rw [boundString, hall]
      rfl

end Message

/-! ### The connection and its calls -/

inductive StateE where
  | kDisconnected
  | kConnecting
  | kConnected
  | kDisconnecting
deriving DecidableEq, Repr

structure TcpConnection where
  state : StateE
  channel : Channel
  inputBuffer : Buffer
  outputBuffer : Buffer
  writecompleteCB : Bool

/-- The constructor and `setWriteCompleteCallback`. -/
def TcpConnection.create (sockfd : Int) (writecompleteCB : Bool) : TcpConnection :=
  { state := .kConnecting
    channel := .create sockfd
    inputBuffer := .create kInitialSize
    outputBuffer := .create kInitialSize
    writecompleteCB := writecompleteCB }

/-- What a connection's functions touch: the connection at the address `self`, and the
poller and the dispatching of its loop. -/
structure ConnView (C : Type) where
  self : C
  conn : TcpConnection
  poller : EPollPoller C
  dispatching : Dispatching C

/-- The thread that called `send`. -/
inductive Sender where
  | loop
  | thread (t : Nat)
deriving DecidableEq, Repr

/-- What user code does on the loop's thread. -/
inductive UserCall where
  | send (m : Message)
  | shutdown
  | queueInLoop

/-- The calls made on the loop's thread. `userCode` is a callback or functor of the user;
`unguard` is the end of `Channel::handleEvent`, where its guard is released. -/
inductive ConnCall where
  | user (u : UserCall)
  | userCode
  | sendInLoop (sender : Sender) (message : StringPiece)
  | sendInLoopEX (sender : Sender) (data : Bytes)
  | handleEvent (revents : Events)
  | handleRead
  | handleWrite
  | handleClose
  | handleError
  | connectEstablished
  | connectDestroyed
  | closeCallback
  | channelRemove
  | unguard

/-- What `send` calls on the loop's own thread. -/
def Message.loopCall : Message → ConnCall
  | .piece s => .sendInLoop .loop (.ofString s.1)
  | .buffer b => .sendInLoopEX .loop b.1.content

/-- The functors a connection's loop gets. -/
inductive ConnFunctor where
  | connectEstablished
  | connectDestroyed
  | sendInLoop (t : Nat) (message : Bytes)
  | writeComplete
  | userCode

/-- What an observer sees: a `send` that passed the `kConnected` check, a message taken
by `sendInLoopEX`, bytes accepted by `write(2)` and failed writes, bytes delivered by
`readFd` with the state they found, `shutdown()` and `SHUT_WR`, a dispatch, `handleClose`,
the connection callback with its `connected()`, the close callback, and the begin and end
of a connection. -/
inductive Obs where
  | passed (sender : Sender) (message : Bytes)
  | took (sender : Sender) (message : Bytes)
  | wrote (data : Bytes)
  | writeFailed (err : Errno)
  | read (state : StateE) (data : Bytes)
  | shutdown
  | shutdownWrite
  | event (revents : Events)
  | closing
  | connectionCallback (connected : Bool)
  | closeCallback
  | established
  | erased
  | destroying
  | destroyed
deriving DecidableEq, Repr

/-- What a call does besides changing the view. -/
structure Out where
  obs : List Obs := []
  calls : List ConnCall := []
  queued : List ConnFunctor := []

/-- The environment's part in a call: the results of `write(2)` and `readv(2)`, whether
`_tie.lock()` gives a reference, what the message callback does with the input buffer
and calls, and what any other user code calls. -/
structure Oracle where
  write : WriteResult
  read : ReadResult
  lock : Bool
  onMessage : Buffer → Exec (Buffer × List UserCall)
  calls : List UserCall

/-- The environment of a call that reads and writes nothing and runs no user code. -/
def Oracle.quiet : Oracle where
  write := .accept 0
  read := .fail .EWOULDBLOCK
  lock := true
  onMessage b := .ok (b, [])
  calls := []

def ConnFunctor.body : ConnFunctor → List ConnCall
  | .connectEstablished => [.connectEstablished]
  | .connectDestroyed => [.connectDestroyed]
  | .sendInLoop t message => [.sendInLoop (.thread t) (.ofString message)]
  | .writeComplete => [.userCode]
  | .userCode => [.userCode]

namespace Channel

/-- The callbacks `handleEventWithGuard` invokes, in its order. -/
def handleEventWithGuard (revents : Events) : List ConnCall :=
  (if revents &&& POLLHUP ≠ 0 ∧ revents &&& POLLIN = 0 then [.handleClose] else []) ++
  (if revents &&& (POLLERR ||| POLLNVAL) ≠ 0 then [.handleError] else []) ++
  (if revents &&& (POLLIN ||| POLLPRI ||| POLLRDHUP) ≠ 0 then [.handleRead] else []) ++
  (if revents &&& POLLOUT ≠ 0 then [.handleWrite] else [])

def handleEvent (ch : Channel) (lock : Bool) (revents : Events) : List ConnCall :=
  if ch.tied then
    if lock then handleEventWithGuard revents ++ [.unguard] else []
  else handleEventWithGuard revents

end Channel

namespace ConnView

variable {C : Type} [DecidableEq C]

def setState (v : ConnView C) (state : StateE) : ConnView C :=
  { v with conn := { v.conn with state := state } }

def setChannel (v : ConnView C) (cp : Channel × EPollPoller C) : ConnView C :=
  { v with conn := { v.conn with channel := cp.1 }, poller := cp.2 }

def setOutput (v : ConnView C) (b : Buffer) : ConnView C :=
  { v with conn := { v.conn with outputBuffer := b } }

def setInput (v : ConnView C) (b : Buffer) : ConnView C :=
  { v with conn := { v.conn with inputBuffer := b } }

def shutdownInLoop (v : ConnView C) : List Obs :=
  if v.conn.channel.isWriting then [] else [.shutdownWrite]

/-- `shutdown`; on the loop's own thread `runInLoop` is a plain call. -/
def shutdown (v : ConnView C) : ConnView C × Out :=
  if v.conn.state = .kConnected then
    let v := v.setState .kDisconnecting
    (v, { obs := .shutdown :: v.shutdownInLoop })
  else (v, {})

/-- `send` on the loop's own thread. -/
def send (v : ConnView C) (m : Message) : Out :=
  if v.conn.state = .kConnected then
    { obs := [.passed .loop m.content]
      calls := [m.loopCall] }
  else {}

/-- The locals of `sendInLoopEX` after its attempt to write. -/
structure Attempt where
  nwrote : Nat
  remaining : Nat
  faultError : Bool
  obs : List Obs := []
  queued : List ConnFunctor := []

/-- The attempt of `sendInLoopEX` to write at once. -/
def directWrite (v : ConnView C) (data : Bytes) : WriteResult → Attempt
  | .accept n =>
      let nwrote := (data.take n).length
      let remaining := sizeSub data.length nwrote
      { nwrote := nwrote, remaining := remaining, faultError := false
        obs := [.wrote (data.take n)]
        queued := if remaining = 0 ∧ v.conn.writecompleteCB then [.writeComplete] else [] }
  | .fail err =>
      { nwrote := 0, remaining := data.length
        faultError := err = .EPIPE ∨ err = .ECONNRESET
        obs := [.writeFailed err] }

def sendInLoopEX (v : ConnView C) (sender : Sender) (data : Bytes) (w : WriteResult) :
    Exec (ConnView C × Out) :=
  if v.conn.state = .kDisconnected then .ok (v, {}) -- disconnected, give up writing
  else do
    let a := if !v.conn.channel.isWriting ∧ v.conn.outputBuffer.readableBytes ≠ 0 then
        v.directWrite data w
      else { nwrote := 0, remaining := data.length, faultError := false }
    let out : Out := { obs := .took sender data :: a.obs, queued := a.queued }
    check (a.remaining ≤ data.length) .sendInLoopEX_remaining
    if !a.faultError ∧ 0 < a.remaining then
      let b ← v.conn.outputBuffer.append ((data.drop a.nwrote).take a.remaining)
      if !v.conn.channel.isWriting then
        let cp ← v.conn.channel.enableWriting v.self v.poller
        .ok ((v.setOutput b).setChannel cp, out)
      else .ok (v.setOutput b, out)
    else .ok (v, out)

def connectEstablished (v : ConnView C) (calls : List UserCall) : Exec (ConnView C × Out) := do
  check (v.conn.state = .kConnecting) .connectEstablished_connecting
  let v := v.setState .kConnected
  let cp ← v.conn.channel.tie.enableReading v.self v.poller
  .ok (v.setChannel cp,
    { obs := [.established, .connectionCallback true], calls := calls.map .user })

def handleRead (v : ConnView C) (o : Oracle) : Exec (ConnView C × Out) := do
  let (b, r) ← v.conn.inputBuffer.readFd o.read
  if 0 < r.n then
    let (b, calls) ← o.onMessage b
    .ok (v.setInput b, { obs := [.read v.conn.state r.data], calls := calls.map .user })
  else if r.n = 0 then .ok (v.setInput b, { calls := [.handleClose] })
  else .ok (v.setInput b, { calls := [.handleError] })

def handleWrite (v : ConnView C) (w : WriteResult) : Exec (ConnView C × Out) :=
  if v.conn.channel.isWriting then
    match w with
    | .accept n => do
        let data := v.conn.outputBuffer.content.take n
        if 0 < data.length then
          let b ← v.conn.outputBuffer.retrieve data.length
          let v := v.setOutput b
          if b.readableBytes = 0 then
            let cp ← v.conn.channel.disableWriting v.self v.poller
            let v := v.setChannel cp
            .ok (v,
              { obs := .wrote data ::
                  (if v.conn.state = .kDisconnecting then v.shutdownInLoop else [])
                queued := if v.conn.writecompleteCB then [.writeComplete] else [] })
          else .ok (v, { obs := [.wrote data] })
        else .ok (v, { obs := [.wrote data] })
    | .fail err => .ok (v, { obs := [.writeFailed err] })
  else .ok (v, {})

def handleClose (v : ConnView C) (calls : List UserCall) : Exec (ConnView C × Out) := do
  check (v.conn.state = .kConnected ∨ v.conn.state = .kDisconnecting) .handleClose_connected
  let v := v.setState .kDisconnected
  let cp ← v.conn.channel.disableAll v.self v.poller
  .ok (v.setChannel cp,
    { obs := [.closing, .connectionCallback false]
      calls := calls.map .user ++ [.closeCallback] })

def connectDestroyed (v : ConnView C) (calls : List UserCall) : Exec (ConnView C × Out) :=
  if v.conn.state = .kConnected then do
    let v := v.setState .kDisconnected
    let cp ← v.conn.channel.disableAll v.self v.poller
    .ok (v.setChannel cp,
      { obs := [.destroying, .connectionCallback false]
        calls := calls.map .user ++ [.channelRemove] })
  else .ok (v, { obs := [.destroying], calls := [.channelRemove] })

/-- `_channel->remove()`, the end of `connectDestroyed`. -/
def channelRemove (v : ConnView C) : Exec (ConnView C × Out) := do
  let cp ← v.conn.channel.remove v.self v.dispatching v.poller
  .ok (v.setChannel cp, { obs := [.destroyed] })

/-- One call on the loop's thread. -/
def call (k : ConnCall) (o : Oracle) (v : ConnView C) : Exec (ConnView C × Out) :=
  match k with
  | .user (.send m) => .ok (v, v.send m)
  | .user .shutdown => .ok v.shutdown
  | .user .queueInLoop => .ok (v, { queued := [.userCode] })
  | .userCode => .ok (v, { calls := o.calls.map .user })
  | .sendInLoop sender message =>
      if v.conn.state = .kDisconnected then .ok (v, {}) -- `sendInLoopEX` reads no byte then
      else do
        let data ← message.bytes
        v.sendInLoopEX sender data o.write
  | .sendInLoopEX sender data => v.sendInLoopEX sender data o.write
  | .handleEvent revents =>
      .ok (v, { obs := [.event revents], calls := v.conn.channel.handleEvent o.lock revents })
  | .handleRead => v.handleRead o
  | .handleWrite => v.handleWrite o.write
  | .handleClose => v.handleClose o.calls
  | .handleError => .ok (v, {})
  | .connectEstablished => v.connectEstablished o.calls
  | .connectDestroyed => v.connectDestroyed o.calls
  | .closeCallback => .ok (v, { obs := [.closeCallback] })
  | .channelRemove => v.channelRemove
  | .unguard => .ok (v, {})

end ConnView

end Reactor
