import Reactor.ServerLifetime

/-!
# Descriptors and destructors

The server in its process: which descriptors are open, and which objects have been
destroyed. `accept` opens a descriptor, `Socket::~Socket` closes it, and the kernel forgets
a closed descriptor in every interest set. A connection is destroyed on the thread that
drops its last reference; `TcpServer::~TcpServer` runs on the base loop's thread, outside
`loop()` as in `main.cpp` or at the end of a functor; its step is the body of the destructor,
and `ChannelOwners` looks at the acceptor it then destroys. A call on a destroyed object, and an
overflow of `_nextConnId`, end the process.

* `Host`, `hostSystem` - the server with its destructors.
* `Host.Referenced`, `Host.Lawful` - who holds a connection; what the kernel and the
  reference counts promise.
* `HostSteps` - what a step has done, one case for each kind.
-/

namespace Reactor

open Reactor.Lib

/-- `EPollPoller::kInitEventListSize`. -/
def kInitEventListSize : Nat := 16

/-- `Channel::~Channel`, on the loop's own thread or on another one. -/
def Channel.destructor {C : Type} [DecidableEq C] (ch : Channel) (self : C)
    (eventHandling isInLoopThread : Bool) (p : EPollPoller C) : Exec Unit := do
  check (eventHandling = false) .channel_eventHandling
  check (ch.addedToLoop = false) .channel_addedToLoop
  check (isInLoopThread = true → p.hasChannel self ch = false) .channel_hasChannel

/-- The kernel forgets a closed descriptor. -/
def EPollPoller.forget {C : Type} (p : EPollPoller C) (fd : Int) : EPollPoller C :=
  { p with interest := Function.update p.interest fd none }

theorem EPollPoller.forget_of_none {C : Type} {p : EPollPoller C} {fd : Int}
    (h : p.interest fd = none) : p.forget fd = p := by
  have hsame : Function.update p.interest fd none = p.interest := by
    rw [← h]
    exact Function.update_eq_self _ _
  rw [EPollPoller.forget, hsame]

/-- The calls that read or write the connection. -/
def ConnCall.touches : ConnCall → Bool
  | .userCode => false
  | .user .queueInLoop => false
  | _ => true

variable {n : Nat}

namespace ServerWorld

/-- The channel at an address. -/
def channel (w : ServerWorld n) : ChannelPtr → Channel
  | none => w.acceptChannel
  | some c => (w.conns c).conn.channel

/-- The loop a channel belongs to. -/
def ownerLoop (w : ServerWorld n) : ChannelPtr → LoopId n
  | none => 0
  | some c => (w.conns c).loop

/-- The connections of the map, in the order of their names. -/
def connectionList (w : ServerWorld n) : List Nat :=
  ((List.range w.accepted).filter fun c => w.connections (w.conns c).name = some c).insertionSort
    fun c d => (w.conns c).name ≤ (w.conns d).name

/-- The body of `TcpServer::~TcpServer`. -/
def destroyServer (w : ServerWorld n) : ServerEffect n :=
  let runs := w.connectionList.map fun c =>
    runInLoop ServerFunctor.body 0 (w.conns c).loop (.conn c .connectDestroyed)
  { world := { w with connections := fun _ => none }
    calls := runs.flatMap Prod.fst
    queued := runs.flatMap Prod.snd }

end ServerWorld

/-- A server, whether it and each of its connections have been destroyed, and which
descriptors are open. -/
structure Host (n : Nat) where
  proc : ServerProcess n
  serverGone : Bool
  gone : Nat → Bool
  opened : Int → Bool

/-- A step of the server and its loops, or the run of a destructor; the connection's runs on
its loop's thread or on another one. -/
inductive HostLabel (n : Nat) where
  | run (label : ServerLabel n)
  | destroyServer
  | destroyConnection (c : Nat) (isInLoopThread : Bool)

namespace Host

/-- The call uses an object that was destroyed. The acceptor goes with the server. -/
def dangling (s : Host n) : ServerAct → Bool
  | .conn c .closeCallback => s.gone c || s.serverGone
  | .conn c k => s.gone c && k.touches
  | .removeConnectionInLoop c => s.gone c || s.serverGone
  | .handleActiveChannels _ => false
  | .eventsHandled => false
  | _ => s.serverGone

/-- The channel at an address has not been destroyed. -/
def present (s : Host n) : ChannelPtr → Bool
  | none => !s.serverGone
  | some c => decide (c < s.proc.world.accepted) && !s.gone c

/-- `++_nextConnId` overflows. -/
def overflows (s : Host n) : ServerAct → Bool
  | .newConnection _ => decide (intMax ≤ s.proc.world.nextConnId)
  | _ => false

/-- The loop of `EPollPoller::fillActiveChannels`. -/
def fillActiveChannels (s : Host n) (l : LoopId n) : List (ChannelPtr × Events) → Exec Unit
  | [] => .ok ()
  | ev :: rest => do
      require (s.present ev.1 = true) .badAccess
      check ((s.proc.world.pollers l).channels (s.proc.world.fd ev.1) ≠ none)
        .fillActiveChannels_found
      check ((s.proc.world.pollers l).channels (s.proc.world.fd ev.1) = some ev.1)
        .fillActiveChannels_same
      s.fillActiveChannels l rest

/-- What a step checks before it is made. -/
def guard (s : Host n) : ServerLabel n → Exec Unit
  | .call l _ =>
      match (s.proc.loops l).todo with
      | [] => .ok ()
      | a :: _ => do
          require (s.dangling a = false) .badAccess
          require (s.overflows a = false) .overflow
  | .poll l [.handleActiveChannels active] => do
      check (active.length ≤ kInitEventListSize) .fillActiveChannels_size
      s.fillActiveChannels l active
  | _ => .ok ()

/-- The descriptor a step gets from `accept`. -/
def accepts (s : Host n) : ServerLabel n → Option Int
  | .call l o =>
      match (s.proc.loops l).todo with
      | .acceptorRead :: _ => o.accept
      | _ => none
  | _ => none

/-- The descriptors open after a step. -/
def openedBy (s : Host n) (label : ServerLabel n) : Int → Bool :=
  match s.accepts label with
  | some fd => Function.update s.opened fd true
  | none => s.opened

/-- `Channel::_eventHandling` of a connection's channel: it is in `handleEventWithGuard`. -/
def eventHandling (s : Host n) (c : Nat) : Bool :=
  (s.proc.loops (s.proc.world.conns c).loop).todo.any fun
    | .conn d .unguard => d = c
    | _ => false

/-- `Socket::~Socket`. -/
def close (s : Host n) (fd : Int) : Host n :=
  { s with
    proc := { s.proc with
      world := { s.proc.world with pollers := fun l => (s.proc.world.pollers l).forget fd } }
    opened := Function.update s.opened fd false }

/-- `TcpConnection::~TcpConnection`, and the destructors of its channel and its socket. -/
def destroyConnection (s : Host n) (c : Nat) (isInLoopThread : Bool) : Exec (Host n) := do
  let r := s.proc.world.conns c
  check (r.conn.state = .kDisconnected) .tcpConnection_disconnected
  r.conn.channel.destructor (some c) (s.eventHandling c) isInLoopThread
    (s.proc.world.pollers r.loop)
  .ok { s.close r.conn.channel.fd with gone := Function.update s.gone c true }

/-- The base loop's thread is in the user's code and returns to `loop()`, or to `main`,
next. -/
def atRest (s : Host n) : Bool :=
  (s.proc.loops 0).todo.isEmpty &&
    decide ((s.proc.loops 0).phase = .outside ∨ (s.proc.loops 0).phase = .calling)

def step (cfg : ServerConfig) (label : HostLabel n) (s : Host n) : Option (Exec (Host n)) :=
  match label with
  | .run label =>
      ((serverApp n cfg).step label s.proc).map fun next => do
        s.guard label
        let proc ← next
        .ok { s with proc := proc, opened := s.openedBy label }
  | .destroyServer =>
      if s.serverGone = false ∧ s.atRest = true then
        some (.ok { s with
          proc := s.proc.afterCall 0 [] s.proc.world.destroyServer
          serverGone := true })
      else none
  | .destroyConnection c isInLoopThread =>
      if c < s.proc.world.accepted ∧ s.gone c = false then
        some (s.destroyConnection c isInLoopThread)
      else none

end Host

/-- A server with its destructors, before its main thread calls `start()`. -/
def hostSystem (n : Nat) (cfg : ServerConfig) : System (Host n) (HostLabel n) Fault where
  init s := (serverApp n cfg).system.init s.proc ∧ s.serverGone = false ∧
    (∀ c, s.gone c = false) ∧ s.opened s.proc.world.acceptChannel.fd = true
  step := Host.step cfg

/-- Someone holds a reference to connection `c`; a running `connectDestroyed` was given
one. -/
def Host.Referenced (s : Host n) (c : Nat) : Prop :=
  Alive s.proc c ∨
    ∃ l, .conn c .connectDestroyed ∈ (s.proc.loops l).todo ∨
      .conn c .channelRemove ∈ (s.proc.loops l).todo

/-- What the kernel and the reference counts promise: `accept` returns a descriptor that is
not open, `epoll_wait` no more events than there is room for, and a connection is destroyed
when nobody holds a reference to it. -/
def Host.Lawful (s : Host n) : HostLabel n → Prop
  | .run (.poll _ [.handleActiveChannels active]) => active.length ≤ kInitEventListSize
  | .run label => ∀ fd, s.accepts label = some fd → s.opened fd = false
  | .destroyServer => True
  | .destroyConnection c _ => ¬ s.Referenced c

/-! ### Steps -/

/-- What a step has done. -/
inductive HostSteps (cfg : ServerConfig) (s : Host n) : HostLabel n → Host n → Prop where
  | run {label : ServerLabel n} {proc : ServerProcess n} :
      Steps (serverApp n cfg) s.proc label proc → s.guard label = .ok () →
      HostSteps cfg s (.run label) { s with proc := proc, opened := s.openedBy label }
  | destroyServer : s.serverGone = false → (s.proc.loops 0).todo = [] →
      (s.proc.loops 0).phase = .outside ∨ (s.proc.loops 0).phase = .calling →
      HostSteps cfg s .destroyServer
        { s with proc := s.proc.afterCall 0 [] s.proc.world.destroyServer, serverGone := true }
  | destroyConnection {c : Nat} {isInLoopThread : Bool} : c < s.proc.world.accepted →
      s.gone c = false →
      HostSteps cfg s (.destroyConnection c isInLoopThread)
        { s.close (s.proc.world.conns c).conn.channel.fd with
          gone := Function.update s.gone c true }

section Steps

variable {cfg : ServerConfig} {s s' : Host n} {label : HostLabel n}

theorem hostSteps_of_next (h : (hostSystem n cfg).Next label s s') : HostSteps cfg s label s' := by
  unfold System.Next at h
  change s.step cfg label = some (.ok s') at h
  cases label with
  | run label =>
      simp only [Host.step, Option.map_eq_some_iff, bind_eq_ok, Except.ok.injEq] at h
      obtain ⟨next, hnext, ⟨⟩, hguard, proc, rfl, rfl⟩ := h
      exact .run (next_iff_steps.mp hnext) hguard
  | destroyServer =>
      simp only [Host.step] at h
      split at h <;> cases h
      rename_i hc
      obtain ⟨hgone, hrest⟩ := hc
      simp only [Host.atRest, Bool.and_eq_true, List.isEmpty_iff, decide_eq_true_eq] at hrest
      exact .destroyServer hgone hrest.1 hrest.2
  | destroyConnection c isInLoopThread =>
      simp only [Host.step] at h
      split at h
      · rename_i hc
        simp only [Option.some.injEq, Host.destroyConnection, bind_eq_ok, Except.ok.injEq] at h
        obtain ⟨-, -, -, -, rfl⟩ := h
        exact .destroyConnection hc.1 hc.2
      · cases h

/-- A destroyed connection is not called, but for user code that does not touch it. -/
theorem Host.not_dangling {l : LoopId n} {o : ServerOracle} {a : ServerAct}
    {rest : List ServerAct} (htodo : (s.proc.loops l).todo = a :: rest)
    (hguard : s.guard (.call l o) = .ok ()) :
    s.dangling a = false ∧ s.overflows a = false := by
  simp only [Host.guard, htodo, bind_eq_ok, require_eq_ok] at hguard
  obtain ⟨-, hdangling, hoverflow⟩ := hguard
  exact ⟨hdangling, hoverflow⟩

/-- A call that reads or writes its connection finds it there. -/
theorem Host.not_gone {c : Nat} {k : ConnCall} (h : s.dangling (.conn c k) = false)
    (hk : k.touches = true) : s.gone c = false := by
  cases k with
  | closeCallback => exact (Bool.or_eq_false_iff.mp h).1
  | _ =>
      simp only [Host.dangling, hk, Bool.and_true] at h
      exact h

end Steps

end Reactor
