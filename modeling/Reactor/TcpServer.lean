import Reactor.LoopWork
import Reactor.TcpConnectionSpec

/-!
# The server (`TcpServer.h`, `TcpServer.cpp`, `Acceptor.cpp`, `EventLoopThreadPool.cpp`)

A base loop with the acceptor and any number of worker loops. Connections are numbered in
the order in which they are accepted; a number stands for the address of the
`TcpConnection`. Foreign threads can hold references to connections and call `send`.

* `ServerWorld.newConnection`, `removeConnection`, `removeConnectionInLoop`, `getNextLoop` -
  as in the source.
* `serverApp` - the application of a server.
* `Owned`, `Alive` - the server and its loops, or anyone, hold a strong reference to a
  connection.
-/

namespace Reactor

open Reactor.Lib

/-- A server's name and address. The text of an address has at most 45 characters, a colon
and five digits. -/
structure ServerConfig where
  name : List Char
  ipPort : List Char
  ipPort_length : ipPort.length ≤ 51

/-- `snprintf(buf, sizeof(buf), "-%s#%d", ...)` into a buffer of 64 characters. -/
def ServerConfig.suffix (cfg : ServerConfig) (id : Nat) : List Char :=
  ('-' :: cfg.ipPort ++ '#' :: Nat.toDigits 10 id).take 63

def ServerConfig.connName (cfg : ServerConfig) (id : Nat) : List Char := cfg.name ++ cfg.suffix id

/-- The loops: the base loop is `0`, the workers are `1` to `n`. -/
abbrev LoopId (n : Nat) := Fin (n + 1)

instance LoopId.instOfNat {n : Nat} (i : Nat) : OfNat (LoopId n) i := Fin.instOfNat

/-- The address of a channel: the acceptor's, or that of a connection. -/
abbrev ChannelPtr := Option Nat

structure ConnRecord (n : Nat) where
  conn : TcpConnection
  loop : LoopId n
  name : List Char
  trace : List Obs

/-- What a foreign thread is doing with a connection: nothing, holding a reference, or
holding it between the check and the push of `send`. -/
inductive ThreadState where
  | idle
  | holding (c : Nat)
  | checked (c : Nat) (message : Bytes)
deriving DecidableEq, Repr

/-- The connection a thread holds a reference to. -/
def ThreadState.ref : ThreadState → Option Nat
  | .idle => none
  | .holding c => some c
  | .checked c _ => some c

/-- The string a thread is about to queue for connection `c`. -/
def ThreadState.sending (c : Nat) : ThreadState → Option Bytes
  | .checked c' message => if c' = c then some message else none
  | _ => none

/-- The server, its acceptor, its connections and the pollers of the loops. `accepted` is
the number of connections so far. `nextConnId` is an `int`, but has no end here: `Host` is where
`++_nextConnId` overflows. -/
structure ServerWorld (n : Nat) where
  acceptChannel : Channel
  listenning : Bool
  pollers : LoopId n → EPollPoller ChannelPtr
  dispatching : LoopId n → Dispatching ChannelPtr
  next : Nat
  nextConnId : Nat
  accepted : Nat
  conns : Nat → ConnRecord n
  connections : List Char → Option Nat
  threads : Nat → ThreadState

/-- The calls on the threads of the loops. `handleActiveChannels` is the part of `loop()`
between `_eventHandling = true` and `eventsHandled`, where it is reset. -/
inductive ServerAct where
  | listen
  | handleActiveChannels (active : List (ChannelPtr × Events))
  | eventsHandled
  | acceptorEvent (revents : Events)
  | acceptorRead
  | newConnection (sockfd : Int)
  | conn (c : Nat) (k : ConnCall)
  | removeConnectionInLoop (c : Nat)

inductive ServerFunctor where
  | conn (c : Nat) (f : ConnFunctor)
  | removeConnectionInLoop (c : Nat)

/-- The actions of foreign threads: take a reference to a connection that has not been
destroyed, or a copy of another thread's; check, push and drop of `send`; queue some functor
of the user. -/
inductive ServerThread where
  | acquire (t c : Nat)
  | copy (t t' : Nat)
  | sendCheck (t : Nat) (m : Message)
  | sendQueue (t : Nat)
  | drop (t : Nat)
  | queueInLoop (c : Nat)

/-- The environment's part in a call, with the result of `accept`. -/
structure ServerOracle extends Oracle where
  accept : Option Int

def ServerFunctor.body : ServerFunctor → List ServerAct
  | .conn c f => f.body.map (.conn c)
  | .removeConnectionInLoop c => [.removeConnectionInLoop c]

/-- `Channel::handleEvent` of an active channel. -/
def handleEventOf : ChannelPtr × Events → ServerAct
  | (none, revents) => .acceptorEvent revents
  | (some c, revents) => .conn c (.handleEvent revents)

abbrev ServerEffect (n : Nat) := Effect (LoopId n) ServerAct ServerFunctor (ServerWorld n)

namespace ServerWorld

variable {n : Nat}

/-- A server whose acceptor has the descriptor `fd`. -/
def create (n : Nat) (fd : Int) : ServerWorld n :=
  { acceptChannel := .create fd
    listenning := false
    pollers := fun _ => .create
    dispatching := fun _ => ⟨false, [], none⟩
    next := 0
    nextConnId := 1
    accepted := 0
    conns := fun _ => ⟨.create 0 false, 0, [], []⟩
    connections := fun _ => none
    threads := fun _ => .idle }

/-- `EventLoopThreadPool::getNextLoop`, with the new value of `next_`. -/
def getNextLoop (w : ServerWorld n) : LoopId n × Nat :=
  if h : w.next < n then
    (⟨w.next + 1, Nat.succ_lt_succ h⟩, if n ≤ w.next + 1 then 0 else w.next + 1)
  else (0, w.next)

/-- `Acceptor::listen`. -/
def listen (w : ServerWorld n) : Exec (ServerWorld n) := do
  let cp ← w.acceptChannel.enableReading none (w.pollers 0)
  .ok { w with listenning := true, acceptChannel := cp.1
               pollers := Function.update w.pollers 0 cp.2 }

def setDispatching (w : ServerWorld n) (l : LoopId n) (d : Dispatching ChannelPtr) :
    ServerWorld n :=
  { w with dispatching := Function.update w.dispatching l d }

def setCurrent (w : ServerWorld n) (l : LoopId n) (ch : ChannelPtr) : ServerWorld n :=
  w.setDispatching l { w.dispatching l with currentActiveChannel := some ch }

/-- What the functions of connection `c` touch. -/
def view (w : ServerWorld n) (c : Nat) : ConnView ChannelPtr :=
  { self := some c
    conn := (w.conns c).conn
    poller := w.pollers (w.conns c).loop
    dispatching := w.dispatching (w.conns c).loop }

/-- Adds observations of connection `c`. -/
def observe (w : ServerWorld n) (c : Nat) (obs : List Obs) : ServerWorld n :=
  let r := { w.conns c with trace := (w.conns c).trace ++ obs }
  { w with conns := Function.update w.conns c r }

/-- The world after a call of connection `c`. -/
def setView (w : ServerWorld n) (c : Nat) (v : ConnView ChannelPtr) (obs : List Obs) :
    ServerWorld n :=
  let r := { w.conns c with conn := v.conn, trace := (w.conns c).trace ++ obs }
  { w with
    conns := Function.update w.conns c r
    pollers := Function.update w.pollers (w.conns c).loop v.poller }

def setThread (w : ServerWorld n) (t : Nat) (state : ThreadState) : ServerWorld n :=
  { w with threads := Function.update w.threads t state }

def newConnection (w : ServerWorld n) (cfg : ServerConfig) (l : LoopId n) (sockfd : Int) :
    ServerEffect n :=
  let c := w.accepted
  let ioLoop := w.getNextLoop
  let connName := cfg.connName w.nextConnId
  let run := runInLoop ServerFunctor.body l ioLoop.1 (.conn c .connectEstablished)
  { world := { w with
      next := ioLoop.2
      nextConnId := w.nextConnId + 1
      accepted := w.accepted + 1
      conns := Function.update w.conns c ⟨.create sockfd true, ioLoop.1, connName, []⟩
      connections := Function.update w.connections connName (some c) }
    calls := run.1
    queued := run.2 }

/-- `TcpServer::removeConnection`, the close callback of every connection. -/
def removeConnection (l : LoopId n) (c : Nat) :
    ConnCall → List ServerAct × List (LoopId n × ServerFunctor)
  | .closeCallback => runInLoop ServerFunctor.body l 0 (.removeConnectionInLoop c)
  | _ => ([], [])

def removeConnectionInLoop (w : ServerWorld n) (c : Nat) : Exec (ServerEffect n) := do
  let erased := if (w.connections (w.conns c).name).isSome then 1 else 0
  check (erased = 1) .removeConnectionInLoop_erased
  let w' := { w with connections := Function.update w.connections (w.conns c).name none }
  .ok { world := w'.observe c [.erased]
        queued := [((w.conns c).loop, .conn c .connectDestroyed)] }

/-- The loop notes which channel it dispatches. -/
def noteCurrent (w : ServerWorld n) (l : LoopId n) (c : Nat) : ConnCall → ServerWorld n
  | .handleEvent _ => w.setCurrent l (some c)
  | _ => w

/-- A call of connection `c` on the thread of loop `l`. -/
def connCall (w : ServerWorld n) (l : LoopId n) (c : Nat) (k : ConnCall) (o : Oracle) :
    Exec (ServerEffect n) := do
  require (l = (w.conns c).loop) .notInLoopThread
  let (v, out) ← (w.view c).call k o
  let close := removeConnection l c k
  .ok { world := w.setView c v out.obs
        calls := out.calls.map (.conn c) ++ close.1
        queued := out.queued.map (fun f => (l, .conn c f)) ++ close.2 }

/-- One call on the thread of loop `l`. -/
def call (w : ServerWorld n) (cfg : ServerConfig) (l : LoopId n) (o : ServerOracle) :
    ServerAct → Exec (ServerEffect n)
  | .listen => do
      require (l = 0) .notInLoopThread
      let w' ← w.listen
      .ok { world := w' }
  | .handleActiveChannels active =>
      .ok { world := w.setDispatching l ⟨true, active.map Prod.fst, none⟩
            calls := active.map handleEventOf ++ [.eventsHandled] }
  | .eventsHandled =>
      .ok { world := w.setDispatching l
              { w.dispatching l with eventHandling := false, currentActiveChannel := none } }
  | .acceptorEvent revents =>
      .ok { world := w.setCurrent l none
            calls := if revents &&& (POLLIN ||| POLLPRI ||| POLLRDHUP) ≠ 0 then [.acceptorRead]
              else [] }
  | .acceptorRead => do
      require (l = 0) .notInLoopThread
      .ok { world := w, calls := match o.accept with
              | some sockfd => [.newConnection sockfd]
              | none => [] }
  | .newConnection sockfd => do
      require (l = 0) .notInLoopThread
      .ok (w.newConnection cfg l sockfd)
  | .conn c k => (w.noteCurrent l c k).connCall l c k o.toOracle
  | .removeConnectionInLoop c => do
      require (l = 0) .notInLoopThread
      w.removeConnectionInLoop c

/-- The descriptor of a channel. -/
def fd (w : ServerWorld n) : ChannelPtr → Int
  | none => w.acceptChannel.fd
  | some c => (w.conns c).conn.channel.fd

/-- What `epoll_wait` of loop `l` may report of a channel: a subset of the events it is
registered with, `POLLERR` and `POLLHUP`. -/
def reported (w : ServerWorld n) (l : LoopId n) (ev : ChannelPtr × Events) : Bool :=
  match (w.pollers l).interest (w.fd ev.1) with
  | some e => decide (e.ptr = ev.1) && decide (ev.2 &&& ~~~(e.events ||| POLLERR ||| POLLHUP) = 0)
  | none => false

/-- What `epoll_wait` of loop `l` may return. -/
def ready (w : ServerWorld n) (l : LoopId n) : List ServerAct → Bool
  | [.handleActiveChannels active] =>
      decide (active.map Prod.fst).Nodup && active.all (w.reported l)
  | _ => false

/-- One action of a foreign thread. -/
def thread (w : ServerWorld n) :
    ServerThread → Option (Exec (ServerWorld n × List (LoopId n × ServerFunctor)))
  | .acquire t c =>
      if w.threads t = .idle ∧ c < w.accepted ∧ .destroyed ∉ (w.conns c).trace then
        some (.ok (w.setThread t (.holding c), []))
      else none
  | .copy t t' =>
      match w.threads t, (w.threads t').ref with
      | .idle, some c => some (.ok (w.setThread t (.holding c), []))
      | _, _ => none
  | .sendCheck t m =>
      match w.threads t with
      | .holding c =>
          if (w.conns c).conn.state = .kConnected then
            some (m.boundString.map fun s =>
              ((w.setThread t (.checked c s)).observe c [.passed (.thread t) m.content], []))
          else some (.ok (w, []))
      | _ => none
  | .sendQueue t =>
      match w.threads t with
      | .checked c s =>
          some (.ok (w.setThread t (.holding c), [((w.conns c).loop, .conn c (.sendInLoop t s))]))
      | _ => none
  | .drop t =>
      match w.threads t with
      | .holding _ => some (.ok (w.setThread t .idle, []))
      | _ => none
  | .queueInLoop c =>
      if c < w.accepted then some (.ok (w, [((w.conns c).loop, .conn c .userCode)])) else none

end ServerWorld

/-- A server with `n` worker loops. The main thread calls `start()`, which calls `listen`,
and then `loop()`. A callback that runs on a loop calls functions of its own connection only. -/
def serverApp (n : Nat) (cfg : ServerConfig) :
    App (LoopId n) ServerThread ServerAct ServerFunctor ServerOracle (ServerWorld n) where
  init w loops := (∃ fd, w = .create n fd) ∧ loops 0 = EventLoop.create [.listen] ∧
    ∀ l, l ≠ 0 → loops l = EventLoop.create []
  body := ServerFunctor.body
  ready l active w := w.ready l active
  call l a o w := w.call cfg l o a
  thread t w := w.thread t

abbrev ServerProcess (n : Nat) := Process (LoopId n) ServerAct ServerFunctor (ServerWorld n)

abbrev ServerLabel (n : Nat) := Label (LoopId n) ServerThread ServerAct ServerOracle

/-- The server of `main.cpp`, with `n` workers, before its main thread calls `start()`; its
acceptor has descriptor 3. -/
def mainConfig : ServerConfig where
  name := "TcpServer".toList
  ipPort := "0.0.0.0:2009".toList
  ipPort_length := by decide

def serverStart (n : Nat) : ServerProcess n :=
  ⟨.create n 3, fun l => if l = 0 then EventLoop.create [.listen] else EventLoop.create []⟩

def ServerOracle.quiet : ServerOracle := { Oracle.quiet with accept := none }

theorem serverStart_init (n : Nat) : (serverApp n mainConfig).system.init (serverStart n) := by
  refine ⟨⟨⟨3, rfl⟩, rfl, fun l hl => if_neg hl⟩, fun l => ?_⟩
  by_cases hl : l = 0
  · exact ⟨[.listen], if_pos hl⟩
  · exact ⟨[], if_neg hl⟩

/-! ### References -/

/-- The functors that are bound to a `shared_ptr` to connection `c`. A queued `sendInLoop`
is bound to the raw `this`. -/
def ServerFunctor.holds (c : Nat) : ServerFunctor → Bool
  | .conn c' .connectEstablished => c' = c
  | .conn c' .connectDestroyed => c' = c
  | .conn c' .writeComplete => c' = c
  | .removeConnectionInLoop c' => c' = c
  | _ => false

/-- The calls to come that stand for a stack frame with a `shared_ptr` to connection `c`:
the rest of `handleClose` has its `guardThis`, the rest of `Channel::handleEvent` its
`guard`. -/
def ServerAct.holds (c : Nat) : ServerAct → Bool
  | .conn c' .closeCallback => c' = c
  | .conn c' .unguard => c' = c
  | .removeConnectionInLoop c' => c' = c
  | _ => false

variable {n : Nat}

/-- The server or one of its loops holds a strong reference to connection `c`: the map, a
functor that is queued or belongs to the batch of a pass under way (the vector of
`doPendingFunctors` lives until its end), or a stack frame. -/
def Owned (s : ServerProcess n) (c : Nat) : Prop :=
  (∃ name, s.world.connections name = some c) ∨
    (∃ l, ∃ f ∈ (s.loops l).functors ++ (s.loops l).pendingFunctors, f.holds c = true) ∨
    (∃ l, ∃ a ∈ (s.loops l).todo, a.holds c = true)

/-- Some foreign thread holds a reference to connection `c`. -/
def Held (w : ServerWorld n) (c : Nat) : Prop := ∃ t, (w.threads t).ref = some c

/-- At least one strong reference to connection `c` exists. -/
def Alive (s : ServerProcess n) (c : Nat) : Prop := Owned s c ∨ Held s.world c

end Reactor
