import Reactor.LoopWork
import Reactor.TcpConnectionSpec

/-!
# Runs of one connection

One connection on its loop, with everything that can happen to it: the server announces
it (on the loop's own thread or from another one) and has it destroyed, `epoll_wait`
reports any subset of its registered events with `POLLERR` and `POLLHUP`, user code on
the loop's thread calls `send` and `shutdown`, and any number of foreign threads call
`send`, each first checking `_state` and then queueing the functor.

* `connApp` - the application of one connection.
* `ConnInv`, `reachable_connInv` - the connection's fields agree, its channel's
  registration too, and written bytes and backlog are the messages taken.
-/

namespace Reactor

open Reactor.Lib

/-- The calls on the loop's thread: those of the connection, and the server's
`newConnection` when the connection's loop is the server's own. -/
inductive ConnAct where
  | conn (k : ConnCall)
  | newConnection

/-- The actions of other threads: the server announces the connection, or has it
destroyed; `send` on thread `t` passes or fails its check, then queues its functor; some
functor of the user is queued. -/
inductive ConnThread where
  | newConnection
  | sendCheck (t : Nat) (m : Message)
  | sendQueue (t : Nat)
  | connectDestroyed
  | queueInLoop

/-- A connection, the strings of the threads that are between the check and the push of
`send`, whether the server has announced it and has queued `connectDestroyed`, and what
was observed so far. -/
structure Connection where
  view : ConnView Unit
  threads : Nat → Option Bytes
  announced : Bool
  destroying : Bool
  trace : List Obs

namespace Connection

/-- A new connection on a loop whose poller does not know its descriptor. -/
def create (sockfd : Int) (writecompleteCB : Bool) (poller : EPollPoller Unit) : Connection :=
  { view :=
      { self := (), conn := .create sockfd writecompleteCB, poller := poller
        -- `connectDestroyed` runs as a functor, when the loop handles no events
        dispatching := ⟨false, [], none⟩ }
    threads := fun _ => none
    announced := false
    destroying := false
    trace := [] }

/-- What `epoll_wait` may report: a subset of the registered events with `POLLERR` and
`POLLHUP`, or something else that runs user code or accepts the connection. -/
def reported (w : Connection) : ConnAct → Bool
  | .conn (.handleEvent revents) =>
      match w.view.poller.interest w.view.conn.channel.fd with
      | some e => revents &&& ~~~(e.events ||| POLLERR ||| POLLHUP) = 0
      | none => false
  | .conn .userCode => true
  | .newConnection => true
  | _ => false

/-- One call on the loop's thread. -/
def call (w : Connection) (o : Oracle) : ConnAct → Exec (Effect Unit ConnAct ConnFunctor Connection)
  | .newConnection =>
      if w.announced then .ok { world := w }
      else .ok { world := { w with announced := true }, calls := [.conn .connectEstablished] }
  | .conn k => do
      let (v, out) ← w.view.call k o
      .ok { world := { w with view := v, trace := w.trace ++ out.obs }
            calls := out.calls.map .conn
            queued := out.queued.map ((), ·) }

/-- One action of another thread. -/
def thread (w : Connection) : ConnThread → Option (Exec (Connection × List (Unit × ConnFunctor)))
  | .newConnection =>
      if w.announced then none
      else some (.ok ({ w with announced := true }, [((), .connectEstablished)]))
  | .sendCheck t m =>
      if (w.threads t).isSome then none
      else if w.view.conn.state = .kConnected then
        some (m.boundString.map fun s =>
          ({ w with threads := Function.update w.threads t (some s)
                    trace := w.trace ++ [.passed (.thread t) m.content] }, []))
      else some (.ok (w, []))
  | .sendQueue t =>
      (w.threads t).map fun s =>
        .ok ({ w with threads := Function.update w.threads t none }, [((), .sendInLoop t s)])
  | .connectDestroyed =>
      if w.announced && !w.destroying then
        some (.ok ({ w with destroying := true }, [((), .connectDestroyed)]))
      else none
  | .queueInLoop => some (.ok (w, [((), .userCode)]))

end Connection

def ConnAct.isDispatch : ConnAct → Bool
  | .conn (.handleEvent _) => true
  | _ => false

/-- One connection and its loop. -/
def connApp : App Unit ConnThread ConnAct ConnFunctor Oracle Connection where
  init w loops := loops () = EventLoop.create [] ∧ ∃ sockfd writecompleteCB poller,
    poller.channels sockfd = none ∧ poller.interest sockfd = none ∧
      w = Connection.create sockfd writecompleteCB poller
  body f := f.body.map .conn
  ready _ active w := active.countP ConnAct.isDispatch ≤ 1 && active.all w.reported
  call _ a o w := w.call o a
  thread t w := w.thread t

/-- A run of one connection: its process, and its calls to come. -/
abbrev ConnProcess := Process Unit ConnAct ConnFunctor Connection

abbrev ConnLabel := Label Unit ConnThread ConnAct Oracle

/-! ### Steps -/

/-- A step as a change of the connection and of the calls to come on its loop. -/
inductive ConnStep (w : Connection) (work : List ConnAct) :
    ConnLabel → Connection → List ConnAct → Prop where
  | silent {label : ConnLabel} : ConnStep w work label w work
  | poll {active : List ConnAct} {cbs : List ConnFunctor} :
      active.countP ConnAct.isDispatch ≤ 1 → (∀ a ∈ active, w.reported a = true) →
      work = (cbs.flatMap ConnFunctor.body).map .conn →
      ConnStep w work (.poll () active) w (active ++ work)
  | accepted {o : Oracle} {tail : List ConnAct} : work = .newConnection :: tail →
      w.announced = false →
      ConnStep w work (.call () o) { w with announced := true } (.conn .connectEstablished :: tail)
  | acceptedBefore {o : Oracle} {tail : List ConnAct} : work = .newConnection :: tail →
      w.announced = true → ConnStep w work (.call () o) w tail
  | call {k : ConnCall} {o : Oracle} {tail : List ConnAct} {v : ConnView Unit} {out : Out} :
      work = .conn k :: tail → w.view.call k o = .ok (v, out) →
      ConnStep w work (.call () o) { w with view := v, trace := w.trace ++ out.obs }
        (out.calls.map .conn ++ tail ++ (out.queued.flatMap ConnFunctor.body).map .conn)
  | announced : w.announced = false →
      ConnStep w work (.thread .newConnection) { w with announced := true }
        (work ++ [.conn .connectEstablished])
  | sendPassed {t : Nat} {m : Message} {s : Bytes} : w.threads t = none →
      w.view.conn.state = .kConnected → m.boundString = .ok s →
      ConnStep w work (.thread (.sendCheck t m))
        { w with threads := Function.update w.threads t (some s)
                 trace := w.trace ++ [.passed (.thread t) m.content] } work
  | sendQueued {t : Nat} {s : Bytes} : w.threads t = some s →
      ConnStep w work (.thread (.sendQueue t))
        { w with threads := Function.update w.threads t none }
        (work ++ [.conn (.sendInLoop (.thread t) (.ofString s))])
  | destroy : w.announced = true → w.destroying = false →
      ConnStep w work (.thread .connectDestroyed) { w with destroying := true }
        (work ++ [.conn .connectDestroyed])
  | queued : ConnStep w work (.thread .queueInLoop) w (work ++ [.conn .userCode])

theorem queuedTo_unit {F : Type} (fs : List F) : queuedTo () (fs.map ((), ·)) = fs := by
  induction fs with
  | nil => rfl
  | cons f rest ih =>
      simp only [queuedTo, List.map_cons, List.filterMap_cons, if_true] at ih ⊢
      rw [ih]

theorem flatMap_body (fs : List ConnFunctor) :
    fs.flatMap connApp.body = (fs.flatMap ConnFunctor.body).map .conn :=
  (List.map_flatMap ..).symm

/-- The steps of the process are those above. -/
theorem Progress.connStep {w w' : Connection} {work work' : Unit → List ConnAct}
    {label : ConnLabel} (h : Progress connApp w work label w' work') :
    ConnStep w (work ()) label w' (work' ()) := by
  cases h with
  | silent => exact .silent
  | @poll l active cbs work' hready hqueue hwork _ =>
      cases l
      simp only [connApp, Bool.and_eq_true, decide_eq_true_eq, List.all_eq_true] at hready
      rw [hwork]
      exact .poll hready.1 hready.2 (by rw [hqueue, flatMap_body])
  | @call l o a tail e work' htodo hcall hwork _ =>
      cases l
      change w.call o a = .ok e at hcall
      rw [hwork, flatMap_body]
      cases a with
      | newConnection =>
          simp only [Connection.call] at hcall
          split at hcall
          · rename_i hann
            cases hcall
            simpa using ConnStep.acceptedBefore htodo hann
          · rename_i hann
            cases hcall
            simpa using ConnStep.accepted htodo (by simpa using hann)
      | conn k =>
          simp only [Connection.call, bind_eq_ok, Except.ok.injEq] at hcall
          obtain ⟨⟨v, out⟩, hv, rfl⟩ := hcall
          rw [queuedTo_unit]
          exact .call htodo hv
  | @thread t out work' hthread hwork =>
      change w.thread t = some (.ok out) at hthread
      rw [hwork, flatMap_body]
      cases t with
      | newConnection =>
          simp only [Connection.thread] at hthread
          split at hthread
          · cases hthread
          · rename_i hann
            cases hthread
            exact .announced (by simpa using hann)
      | sendCheck t m =>
          simp only [Connection.thread] at hthread
          split at hthread
          · cases hthread
          · rename_i hidle
            split at hthread
            · rename_i hs
              cases hm : m.boundString with
              | error f => simp [hm, Except.map] at hthread
              | ok s =>
                  simp only [hm, Except.map, Option.some.injEq, Except.ok.injEq] at hthread
                  subst hthread
                  simpa using ConnStep.sendPassed (by simpa using hidle) hs hm
            · cases hthread
              simpa using ConnStep.silent
      | sendQueue t =>
          simp only [Connection.thread, Option.map_eq_some_iff] at hthread
          obtain ⟨s, hs, hout⟩ := hthread
          cases hout
          exact .sendQueued hs
      | connectDestroyed =>
          simp only [Connection.thread] at hthread
          split at hthread
          · rename_i hc
            simp only [Bool.and_eq_true, Bool.not_eq_true'] at hc
            cases hthread
            exact .destroy hc.1 hc.2
          · cases hthread
      | queueInLoop =>
          cases hthread
          exact .queued

/-! ### The invariant of a connection -/

def ConnAct.inFlight : ConnAct → Option (Sender × Bytes)
  | .conn k => k.inFlight
  | .newConnection => none

/-- The messages in flight among the calls to come. -/
def sends (work : List ConnAct) : List (Sender × Bytes) := work.filterMap ConnAct.inFlight

@[simp] theorem sends_append (work work' : List ConnAct) :
    sends (work ++ work') = sends work ++ sends work' := List.filterMap_append

@[simp] theorem sends_conn (ks : List ConnCall) :
    sends (ks.map .conn) = ks.filterMap ConnCall.inFlight := by
  simp [sends, List.filterMap_map, Function.comp_def, ConnAct.inFlight]

theorem sends_cons (k : ConnCall) (work : List ConnAct) :
    sends (.conn k :: work) = k.inFlight.toList ++ sends work := by
  cases h : k.inFlight <;> simp [sends, ConnAct.inFlight, h]

/-- What `epoll_wait` may report: the acceptor, user code or events of the connection. -/
theorem reported_cases {w : Connection} {a : ConnAct} (h : w.reported a = true) :
    a = .newConnection ∨ a = .conn .userCode ∨ ∃ revents, a = .conn (.handleEvent revents) := by
  cases a with
  | newConnection => exact Or.inl rfl
  | conn k =>
      cases k with
      | userCode => exact Or.inr (Or.inl rfl)
      | handleEvent revents => exact Or.inr (Or.inr ⟨revents, rfl⟩)
      | _ => cases h

theorem sends_active {w : Connection} {active : List ConnAct}
    (h : ∀ a ∈ active, w.reported a = true) : sends active = [] := by
  rw [sends, List.filterMap_eq_nil_iff]
  intro a ha
  obtain rfl | rfl | ⟨revents, rfl⟩ := reported_cases (h a ha)
  · rfl
  · rfl
  · rfl

/-- The messages in flight after a call: what it queues carries none. -/
theorem sends_afterCall {v v' : ConnView Unit} {o : Oracle} {k : ConnCall} {out : Out}
    (h : CallSpec v o k v' out) (tail : List ConnAct) :
    sends (out.calls.map .conn ++ tail ++ (out.queued.flatMap ConnFunctor.body).map .conn) =
      out.calls.filterMap ConnCall.inFlight ++ sends tail := by
  have hqueued : (out.queued.flatMap ConnFunctor.body).filterMap ConnCall.inFlight = [] := by
    rw [List.filterMap_eq_nil_iff]
    intro k' hk'
    rw [h.queued_body k' hk']
    rfl
  rw [sends_append, sends_append, sends_conn, sends_conn, hqueued, List.append_nil]

/-- The connection's fields and the registration of its channel agree, the bytes written
and the backlog are the messages taken, and nothing is in flight before the connection is
established. -/
structure ConnInv (w : Connection) (work : List ConnAct) : Prop where
  inv : w.view.conn.Inv
  registered : Registered w.view.poller w.view.self w.view.conn.channel
  stream : written w.trace ++ w.view.conn.outputBuffer.content = concat (taken w.trace)
  sized : ∀ k, .conn k ∈ work → k.Sized
  held : ∀ t s, w.threads t = some s → s.length ≤ maxSize
  early : w.view.conn.state = .kConnecting → sends work = [] ∧ ∀ t, w.threads t = none

section Invariant

variable {w w' : Connection} {work work' tail : List ConnAct} {label : ConnLabel}

theorem create_connInv {sockfd : Int} {writecompleteCB : Bool} {poller : EPollPoller Unit}
    (hchan : poller.channels sockfd = none) (hint : poller.interest sockfd = none) :
    ConnInv (Connection.create sockfd writecompleteCB poller) [] where
  inv := TcpConnection.create_inv _ _
  registered := ⟨hchan, hint⟩
  stream := by simp [Connection.create, TcpConnection.create, written, taken, concat]
  sized := by simp
  held := by simp [Connection.create]
  early _ := ⟨rfl, fun _ => rfl⟩

/-- What the next call of the connection does. -/
theorem ConnInv.callSpec {k : ConnCall} {o : Oracle} {v : ConnView Unit} {out : Out}
    (h : ConnInv w (.conn k :: tail)) (hcall : w.view.call k o = .ok (v, out)) :
    CallSpec w.view o k v out :=
  call_spec h.inv (h.sized k (by simp)) hcall

theorem ConnInv.call {k : ConnCall} {o : Oracle} {v : ConnView Unit} {out : Out}
    (h : ConnInv w (.conn k :: tail)) (hspec : CallSpec w.view o k v out) :
    ConnInv { w with view := v, trace := w.trace ++ out.obs }
      (out.calls.map .conn ++ tail ++ (out.queued.flatMap ConnFunctor.body).map .conn) := by
  have htime : k.Timely w.view.conn.state := by
    intro hk hs
    have hnone := (h.early hs).1
    rw [sends_cons, List.append_eq_nil_iff, Option.toList_eq_nil_iff] at hnone
    exact hk hnone.1
  refine ⟨hspec.inv h.inv htime, hspec.registered h.registered, ?_, ?_, h.held, ?_⟩
  · -- the bytes move from the backlog to the socket and from the messages to the backlog
    have hstream := hspec.stream
    rw [written_append, List.append_assoc, hstream, ← List.append_assoc, h.stream, taken_append,
      concat_append]
  · intro k' hk'
    simp only [List.mem_append, List.mem_map, ConnAct.conn.injEq, exists_eq_right] at hk'
    rcases hk' with (hk' | hk') | hk'
    · exact hspec.calls_sized k' hk'
    · exact h.sized k' (List.mem_cons_of_mem _ hk')
    · rw [hspec.queued_body k' hk']
      exact trivial
  · intro hs'
    have hs := hspec.moves.connecting hs'
    obtain ⟨hnone, hthreads⟩ := h.early hs
    rw [sends_cons, List.append_eq_nil_iff, Option.toList_eq_nil_iff] at hnone
    have hcalls : out.calls.filterMap ConnCall.inFlight = [] := by
      rcases hspec.sends with ⟨-, -, -, hc⟩ | ⟨m, -, hc, -⟩ | ⟨m, hk, -⟩ | ⟨m, hk, -⟩
      · exact hc
      · cases hs.symm.trans hc
      · cases hnone.1.symm.trans hk
      · cases hnone.1.symm.trans hk
    exact ⟨by rw [sends_afterCall hspec, hcalls, hnone.2]; rfl, hthreads⟩

/-- Calls without a message queued behind the others change nothing. -/
theorem ConnInv.queue {k : ConnCall} (h : ConnInv w work) (hk : k.inFlight = none)
    (hsize : k.Sized) : ConnInv w (work ++ [.conn k]) := by
  refine ⟨h.inv, h.registered, h.stream, ?_, h.held, ?_⟩
  · intro k' hk'
    rcases List.mem_append.mp hk' with hk' | hk'
    · exact h.sized k' hk'
    · cases List.mem_singleton.mp hk'
      exact hsize
  · intro hs
    obtain ⟨hnone, hthreads⟩ := h.early hs
    refine ⟨?_, hthreads⟩
    rw [sends_append, hnone, sends_cons, hk]
    rfl

theorem ConnStep.connInv (hstep : ConnStep w work label w' work') (h : ConnInv w work) :
    ConnInv w' work' := by
  cases hstep with
  | silent => exact h
  | poll hone hrep hqueue =>
      refine ⟨h.inv, h.registered, h.stream, ?_, h.held, ?_⟩
      · intro k hk
        rcases List.mem_append.mp hk with hk | hk
        · obtain heq | heq | ⟨revents, heq⟩ := reported_cases (hrep _ hk)
          · cases heq
          · cases heq
            trivial
          · cases heq
            trivial
        · exact h.sized k hk
      · intro hs
        obtain ⟨hnone, hthreads⟩ := h.early hs
        exact ⟨by rw [sends_append, sends_active hrep, hnone]; rfl, hthreads⟩
  | accepted hwork hann =>
      subst hwork
      refine ⟨h.inv, h.registered, h.stream, ?_, h.held, ?_⟩
      · intro k hk
        rcases List.mem_cons.mp hk with hk | hk
        · cases hk
          exact trivial
        · exact h.sized k (List.mem_cons_of_mem _ hk)
      · intro hs
        exact h.early hs
  | acceptedBefore hwork hann =>
      subst hwork
      exact ⟨h.inv, h.registered, h.stream, fun k hk => h.sized k (List.mem_cons_of_mem _ hk),
        h.held, h.early⟩
  | call hwork hcall =>
      subst hwork
      exact h.call (h.callSpec hcall)
  | announced hann =>
      have hq := h.queue (k := .connectEstablished) rfl trivial
      exact ⟨hq.inv, hq.registered, hq.stream, hq.sized, hq.held, hq.early⟩
  | @sendPassed t m s hidle hs hm =>
      refine ⟨h.inv, h.registered, ?_, h.sized, ?_, ?_⟩
      · simpa [written, taken, concat, Obs.written, Obs.taken] using h.stream
      · intro t' s' hheld
        by_cases ht : t' = t
        · subst ht
          simp only [Function.update_self, Option.some.injEq] at hheld
          rw [← hheld]
          exact Message.length_boundString_le hm
        · simp only [Function.update_of_ne ht] at hheld
          exact h.held t' s' hheld
      · intro hc
        cases hs.symm.trans hc
  | @sendQueued t s hheld =>
      refine ⟨h.inv, h.registered, h.stream, ?_, ?_, ?_⟩
      · intro k hk
        rcases List.mem_append.mp hk with hk | hk
        · exact h.sized k hk
        · cases List.mem_singleton.mp hk
          exact h.held t s hheld
      · intro t' s' hheld'
        by_cases ht : t' = t
        · subst ht
          simp at hheld'
        · simp only [Function.update_of_ne ht] at hheld'
          exact h.held t' s' hheld'
      · intro hs
        cases ((h.early hs).2 t).symm.trans hheld
  | destroy hann hdes =>
      have hq := h.queue (k := .connectDestroyed) rfl trivial
      exact ⟨hq.inv, hq.registered, hq.stream, hq.sized, hq.held, hq.early⟩
  | queued => exact h.queue rfl trivial

end Invariant

/-- The induction rule for runs of a connection: `ConnInv` comes for free. -/
theorem conn_invariant {s : ConnProcess} {ok : ConnProcess → ConnLabel → Prop}
    {P : Connection → List ConnAct → Prop} (h : connApp.system.ReachableBy ok s)
    (hinit : ∀ sockfd writecompleteCB poller,
      P (Connection.create sockfd writecompleteCB poller) [])
    (hstep : ∀ s label w' work', ok s label → ConnInv s.world (s.work connApp ()) →
      P s.world (s.work connApp ()) → ConnStep s.world (s.work connApp ()) label w' work' →
      P w' work') :
    ConnInv s.world (s.work connApp ()) ∧ P s.world (s.work connApp ()) := by
  refine progress_invariant (P := fun w work => ConnInv w (work ()) ∧ P w (work ())) h ?_ ?_
  · rintro s ⟨⟨hloop, sockfd, cb, poller, hchan, hint, hw⟩, -⟩
    have hwork : s.work connApp () = [] := by rw [Process.work, hloop]; rfl
    rw [hwork, hw]
    exact ⟨create_connInv hchan hint, hinit sockfd cb poller⟩
  · rintro s label w' work' - hok ⟨hinv, hP⟩ hprog
    have hconn := hprog.connStep
    exact ⟨hconn.connInv hinv, hstep s label w' (work' ()) hok hinv hP hconn⟩

theorem reachable_connInv {s : ConnProcess} {ok : ConnProcess → ConnLabel → Prop}
    (h : connApp.system.ReachableBy ok s) : ConnInv s.world (s.work connApp ()) :=
  (conn_invariant (P := fun _ _ => True) h (fun _ _ _ => trivial)
    fun _ _ _ _ _ _ _ _ => trivial).1

/-! ### Concrete runs -/

/-- Descriptor 5 on a new loop. -/
def connStart : ConnProcess :=
  ⟨Connection.create 5 true .create, fun _ => EventLoop.create []⟩

theorem connStart_init : connApp.system.init connStart :=
  ⟨⟨rfl, 5, true, .create, rfl, rfl, rfl⟩, fun _ => ⟨[], rfl⟩⟩

/-- The loop starts, accepts the connection and establishes it. -/
def establishing : List ConnLabel :=
  [.start (), .test (), .poll () [.newConnection], .call () .quiet, .call () .quiet, .handled (),
    .swap (), .passed (), .test ()]

end Reactor
