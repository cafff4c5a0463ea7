import Reactor.TcpServer

/-!
# The steps of a server, seen from one connection

* `ServerCall`, `serverCall` - what a call that returns has done, one case for each kind.
* `ThreadSpec`, `threadSpec` - the same for the actions of foreign threads.
* `callsOf`, `removalsOf` - the calls to come that concern one connection.
* `Share`, `Turn`, `Progress.turn` - what the process has of one connection, and what a step
  is for it: every step leaves it alone or does one of a few things to it.
-/

namespace Reactor

open Reactor.Lib

variable {n : Nat} {cfg : ServerConfig}

/-! ### Calls -/

/-- What a call on the thread of loop `l` that returned has done. -/
inductive ServerCall (cfg : ServerConfig) (w : ServerWorld n) (l : LoopId n) (o : ServerOracle) :
    ServerAct → ServerEffect n → Prop where
  | listen {cp : Channel × EPollPoller ChannelPtr} : l = 0 →
      w.acceptChannel.enableReading none (w.pollers 0) = .ok cp →
      ServerCall cfg w l o .listen
        { world := { w with listenning := true, acceptChannel := cp.1
                            pollers := Function.update w.pollers 0 cp.2 } }
  | handleActiveChannels (active : List (ChannelPtr × Events)) :
      ServerCall cfg w l o (.handleActiveChannels active)
        { world := w.setDispatching l ⟨true, active.map Prod.fst, none⟩
          calls := active.map handleEventOf ++ [.eventsHandled] }
  | eventsHandled (d : Dispatching ChannelPtr) :
      ServerCall cfg w l o .eventsHandled { world := w.setDispatching l d }
  | acceptorEvent (revents : Events) {calls : List ServerAct} :
      calls = [] ∨ calls = [.acceptorRead] →
      ServerCall cfg w l o (.acceptorEvent revents) { world := w.setCurrent l none, calls := calls }
  | acceptorRead {calls : List ServerAct} : l = 0 →
      calls = [] ∨ (∃ sockfd, calls = [.newConnection sockfd]) →
      ServerCall cfg w l o .acceptorRead { world := w, calls := calls }
  | newConnection (sockfd : Int) : l = 0 →
      ServerCall cfg w l o (.newConnection sockfd) (w.newConnection cfg l sockfd)
  | conn {c : Nat} {k : ConnCall} {v : ConnView ChannelPtr} {out : Out} :
      l = (w.conns c).loop → ((w.noteCurrent l c k).view c).call k o.toOracle = .ok (v, out) →
      ServerCall cfg w l o (.conn c k)
        { world := (w.noteCurrent l c k).setView c v out.obs
          calls := out.calls.map (.conn c) ++ (ServerWorld.removeConnection l c k).1
          queued := out.queued.map (fun f => (l, .conn c f)) ++
            (ServerWorld.removeConnection l c k).2 }
  | removeConnectionInLoop {c : Nat} : l = 0 → (w.connections (w.conns c).name).isSome = true →
      ServerCall cfg w l o (.removeConnectionInLoop c)
        { world := ServerWorld.observe
            { w with connections := Function.update w.connections (w.conns c).name none } c [.erased]
          queued := [((w.conns c).loop, .conn c .connectDestroyed)] }

section Frame

variable (w : ServerWorld n) (l : LoopId n) (c : Nat) (k : ConnCall)

@[simp] theorem noteCurrent_conns : (w.noteCurrent l c k).conns = w.conns := by cases k <;> rfl

@[simp] theorem noteCurrent_pollers : (w.noteCurrent l c k).pollers = w.pollers := by
  cases k <;> rfl

@[simp] theorem noteCurrent_accepted : (w.noteCurrent l c k).accepted = w.accepted := by
  cases k <;> rfl

@[simp] theorem noteCurrent_threads : (w.noteCurrent l c k).threads = w.threads := by
  cases k <;> rfl

@[simp] theorem noteCurrent_connections : (w.noteCurrent l c k).connections = w.connections := by
  cases k <;> rfl

@[simp] theorem noteCurrent_nextConnId : (w.noteCurrent l c k).nextConnId = w.nextConnId := by
  cases k <;> rfl

end Frame

/-- Every call that returns has done one of the things above. -/
theorem serverCall {w : ServerWorld n} {l : LoopId n} {o : ServerOracle} {a : ServerAct}
    {e : ServerEffect n} (h : w.call cfg l o a = .ok e) : ServerCall cfg w l o a e := by
  cases a with
  | listen =>
      simp only [ServerWorld.call, ServerWorld.listen, bind_eq_ok, require_eq_ok,
        Except.ok.injEq] at h
      obtain ⟨-, hl, w', ⟨cp, hcp, rfl⟩, rfl⟩ := h
      exact .listen hl hcp
  | handleActiveChannels active =>
      cases h
      exact .handleActiveChannels active
  | eventsHandled =>
      cases h
      exact .eventsHandled _
  | acceptorEvent revents =>
      cases h
      refine .acceptorEvent revents ?_
      split
      · exact Or.inr rfl
      · exact Or.inl rfl
  | acceptorRead =>
      simp only [ServerWorld.call, bind_eq_ok, require_eq_ok, Except.ok.injEq] at h
      obtain ⟨-, hl, rfl⟩ := h
      refine .acceptorRead hl ?_
      cases o.accept with
      | none => exact Or.inl rfl
      | some sockfd => exact Or.inr ⟨sockfd, rfl⟩
  | newConnection sockfd =>
      simp only [ServerWorld.call, bind_eq_ok, require_eq_ok, Except.ok.injEq] at h
      obtain ⟨-, hl, rfl⟩ := h
      exact .newConnection sockfd hl
  | conn c k =>
      simp only [ServerWorld.call, ServerWorld.connCall, bind_eq_ok, require_eq_ok,
        Except.ok.injEq, noteCurrent_conns] at h
      obtain ⟨-, hl, ⟨v, out⟩, hcall, rfl⟩ := h
      exact .conn hl hcall
  | removeConnectionInLoop c =>
      simp only [ServerWorld.call, ServerWorld.removeConnectionInLoop, bind_eq_ok, require_eq_ok,
        check_eq_ok, Except.ok.injEq] at h
      obtain ⟨-, hl, -, hfound, rfl⟩ := h
      refine .removeConnectionInLoop hl ?_
      by_contra hnone
      rw [if_neg hnone] at hfound
      cases hfound

/-- What `epoll_wait` returns. -/
theorem ready_cases {w : ServerWorld n} {l : LoopId n} {active : List ServerAct}
    (h : w.ready l active = true) :
    ∃ evs, active = [.handleActiveChannels evs] ∧ ∀ ev ∈ evs, w.reported l ev = true := by
  unfold ServerWorld.ready at h
  split at h
  · rename_i evs
    simp only [Bool.and_eq_true, List.all_eq_true] at h
    exact ⟨evs, rfl, h.2⟩
  · cases h

/-- The calls that the loop, the acceptor and the server make. -/
def ServerAct.isServer : ServerAct → Bool
  | .eventsHandled => true
  | .acceptorEvent _ => true
  | .acceptorRead => true
  | .newConnection _ => true
  | .conn _ (.handleEvent _) => true
  | .conn _ .connectEstablished => true
  | .removeConnectionInLoop _ => true
  | _ => false

/-- The functors that the server queues. -/
def ServerFunctor.isServer : ServerFunctor → Bool
  | .conn _ .connectEstablished => true
  | .conn _ .connectDestroyed => true
  | .removeConnectionInLoop _ => true
  | _ => false

section Inversion

variable {w : ServerWorld n} {l : LoopId n} {o : ServerOracle} {a a' : ServerAct}
  {e : ServerEffect n}

/-- The close callback only calls the server. -/
theorem removeConnection_isServer {d : Nat} {k : ConnCall}
    (h : a' ∈ (ServerWorld.removeConnection l d k).1) : a'.isServer = true := by
  unfold ServerWorld.removeConnection runInLoop at h
  split at h
  · split at h
    · rw [List.mem_singleton.mp h]
      rfl
    · cases h
  · cases h

/-- The calls a call makes are the server's, or those of the connection it is a call of. -/
theorem ServerCall.calls_mem (h : ServerCall cfg w l o a e) (ha' : a' ∈ e.calls) :
    a'.isServer = true ∨ ∃ d k v out, a = .conn d k ∧
      ((w.noteCurrent l d k).view d).call k o.toOracle = .ok (v, out) ∧
      ∃ k' ∈ out.calls, a' = .conn d k' := by
  cases h with
  | handleActiveChannels active =>
      left
      rcases List.mem_append.mp ha' with ha' | ha'
      · obtain ⟨⟨ptr, revents⟩, -, rfl⟩ := List.mem_map.mp ha'
        cases ptr <;> rfl
      · rw [List.mem_singleton.mp ha']
        rfl
  | acceptorEvent revents hcalls =>
      left
      rcases hcalls with rfl | rfl
      · cases ha'
      · rw [List.mem_singleton.mp ha']
        rfl
  | acceptorRead _ hcalls =>
      left
      rcases hcalls with rfl | ⟨sockfd, rfl⟩
      · cases ha'
      · rw [List.mem_singleton.mp ha']
        rfl
  | newConnection sockfd =>
      left
      simp only [ServerWorld.newConnection, runInLoop] at ha'
      split at ha'
      · rw [List.mem_singleton.mp ha']
        rfl
      · cases ha'
  | @conn d k v out hl hcall =>
      rcases List.mem_append.mp ha' with ha' | ha'
      · obtain ⟨k', hk', rfl⟩ := List.mem_map.mp ha'
        exact Or.inr ⟨d, k, v, out, rfl, hcall, k', hk', rfl⟩
      · exact Or.inl (removeConnection_isServer ha')
  | _ => cases ha'

/-- Foreign threads go on only by themselves. -/
theorem ServerCall.threads (h : ServerCall cfg w l o a e) : e.world.threads = w.threads := by
  cases h with
  | conn => simp [ServerWorld.setView]
  | _ => rfl

/-- What a call queues are the server's functors, or those of the connection it is a call
of. -/
theorem ServerCall.queued_mem (h : ServerCall cfg w l o a e) {q : LoopId n × ServerFunctor}
    (hq : q ∈ e.queued) : q.2.isServer = true ∨ ∃ d k v out, a = .conn d k ∧
      ((w.noteCurrent l d k).view d).call k o.toOracle = .ok (v, out) ∧
      ∃ f ∈ out.queued, q.2 = .conn d f := by
  cases h with
  | newConnection sockfd =>
      left
      simp only [ServerWorld.newConnection, runInLoop] at hq
      split at hq
      · cases hq
      · rw [List.mem_singleton.mp hq]
        rfl
  | @conn d k v out hl hcall =>
      rcases List.mem_append.mp hq with hq | hq
      · obtain ⟨f, hf, rfl⟩ := List.mem_map.mp hq
        exact Or.inr ⟨d, k, v, out, rfl, hcall, f, hf, rfl⟩
      · left
        unfold ServerWorld.removeConnection runInLoop at hq
        split at hq
        · split at hq
          · cases hq
          · rw [List.mem_singleton.mp hq]
            rfl
        · cases hq
  | removeConnectionInLoop =>
      left
      rw [List.mem_singleton.mp hq]
      rfl
  | _ => cases hq

theorem mem_queuedTo {l' : LoopId n} {queued : List (LoopId n × ServerFunctor)}
    {f : ServerFunctor} (h : f ∈ queuedTo l' queued) : ∃ q ∈ queued, q.2 = f := by
  simp only [queuedTo, List.mem_filterMap, Option.ite_none_right_eq_some, Option.some.injEq] at h
  obtain ⟨q, hq, -, hf⟩ := h
  exact ⟨q, hq, hf⟩

end Inversion

/-! ### Threads -/

/-- What an action of a foreign thread has done. -/
inductive ThreadSpec (w : ServerWorld n) :
    ServerThread → ServerWorld n × List (LoopId n × ServerFunctor) → Prop where
  | acquire {t c : Nat} : w.threads t = .idle → c < w.accepted →
      .destroyed ∉ (w.conns c).trace →
      ThreadSpec w (.acquire t c) (w.setThread t (.holding c), [])
  | copy {t t' c : Nat} : w.threads t = .idle → (w.threads t').ref = some c →
      ThreadSpec w (.copy t t') (w.setThread t (.holding c), [])
  | sendPassed {t c : Nat} {m : Message} {s : Bytes} : w.threads t = .holding c →
      (w.conns c).conn.state = .kConnected → m.boundString = .ok s →
      ThreadSpec w (.sendCheck t m)
        ((w.setThread t (.checked c s)).observe c [.passed (.thread t) m.content], [])
  | sendRefused {t c : Nat} {m : Message} : w.threads t = .holding c →
      (w.conns c).conn.state ≠ .kConnected → ThreadSpec w (.sendCheck t m) (w, [])
  | sendQueue {t c : Nat} {s : Bytes} : w.threads t = .checked c s →
      ThreadSpec w (.sendQueue t)
        (w.setThread t (.holding c), [((w.conns c).loop, .conn c (.sendInLoop t s))])
  | drop {t c : Nat} : w.threads t = .holding c →
      ThreadSpec w (.drop t) (w.setThread t .idle, [])
  | queueInLoop {c : Nat} : c < w.accepted →
      ThreadSpec w (.queueInLoop c) (w, [((w.conns c).loop, .conn c .userCode)])

theorem threadSpec {w : ServerWorld n} {t : ServerThread}
    {out : ServerWorld n × List (LoopId n × ServerFunctor)} (h : w.thread t = some (.ok out)) :
    ThreadSpec w t out := by
  cases t with
  | acquire t c =>
      simp only [ServerWorld.thread] at h
      split at h <;> cases h
      rename_i hc
      exact .acquire hc.1 hc.2.1 hc.2.2
  | copy t t' =>
      simp only [ServerWorld.thread] at h
      split at h <;> cases h
      rename_i hidle href
      exact .copy hidle href
  | sendCheck t m =>
      simp only [ServerWorld.thread] at h
      split at h
      · rename_i c hhold
        split at h
        · rename_i hs
          cases hm : m.boundString with
          | error f => simp [hm, Except.map] at h
          | ok s =>
              simp only [hm, Except.map, Option.some.injEq, Except.ok.injEq] at h
              subst h
              exact .sendPassed hhold hs hm
        · rename_i hs
          cases h
          exact .sendRefused hhold hs
      · cases h
  | sendQueue t =>
      simp only [ServerWorld.thread] at h
      split at h <;> cases h
      rename_i hheld
      exact .sendQueue hheld
  | drop t =>
      simp only [ServerWorld.thread] at h
      split at h <;> cases h
      rename_i hhold
      exact .drop hhold
  | queueInLoop c =>
      simp only [ServerWorld.thread] at h
      split at h <;> cases h
      rename_i hc
      exact .queueInLoop hc

/-- What no thread changes. -/
theorem ThreadSpec.frame {w : ServerWorld n} {t : ServerThread}
    {out : ServerWorld n × List (LoopId n × ServerFunctor)} (h : ThreadSpec w t out) :
    out.1.pollers = w.pollers ∧ out.1.accepted = w.accepted ∧
      out.1.nextConnId = w.nextConnId ∧ out.1.connections = w.connections ∧
      ∀ c, (out.1.conns c).name = (w.conns c).name ∧ (out.1.conns c).loop = (w.conns c).loop ∧
        ∀ x : Obs, x.passedCheck = [] → (x ∈ (out.1.conns c).trace ↔ x ∈ (w.conns c).trace) := by
  cases h with
  | @sendPassed t d m s =>
      refine ⟨rfl, rfl, rfl, rfl, fun c => ?_⟩
      by_cases hc : c = d
      · subst hc
        refine ⟨by simp [ServerWorld.observe, ServerWorld.setThread],
          by simp [ServerWorld.observe, ServerWorld.setThread], fun x hx => ?_⟩
        simp only [ServerWorld.observe, ServerWorld.setThread, Function.update_self,
          List.mem_append, List.mem_singleton, or_iff_left_iff_imp]
        rintro rfl
        cases hx
      · simp [ServerWorld.observe, ServerWorld.setThread, Function.update_of_ne hc]
  | _ => exact ⟨rfl, rfl, rfl, rfl, fun c => ⟨rfl, rfl, fun _ _ => Iff.rfl⟩⟩

/-! ### The calls to come of one connection -/

def ServerAct.callOf (c : Nat) : ServerAct → Option ConnCall
  | .conn c' k => if c' = c then some k else none
  | _ => none

/-- The calls of connection `c`. -/
def callsOf (c : Nat) (acts : List ServerAct) : List ConnCall := acts.filterMap (ServerAct.callOf c)

def ServerAct.removes (c : Nat) : ServerAct → Bool
  | .removeConnectionInLoop c' => c' = c
  | _ => false

/-- The number of calls that take connection `c` out of the map. -/
def removalsOf (c : Nat) (acts : List ServerAct) : Nat := acts.countP (ServerAct.removes c)

section Project

variable {c d : Nat} {acts acts' : List ServerAct}

@[simp] theorem callsOf_nil : callsOf c [] = [] := rfl

@[simp] theorem callsOf_append : callsOf c (acts ++ acts') = callsOf c acts ++ callsOf c acts' :=
  List.filterMap_append

@[simp] theorem callsOf_conn_self {k : ConnCall} :
    callsOf c (.conn c k :: acts) = k :: callsOf c acts := by
  simp [callsOf, ServerAct.callOf]

theorem callsOf_cons_none {a : ServerAct} (h : a.callOf c = none) :
    callsOf c (a :: acts) = callsOf c acts := by
  simp [callsOf, h]

@[simp] theorem callsOf_map_self (ks : List ConnCall) : callsOf c (ks.map (.conn c)) = ks := by
  simp [callsOf, List.filterMap_map, Function.comp_def, ServerAct.callOf]

theorem callsOf_map_ne (h : d ≠ c) (ks : List ConnCall) : callsOf c (ks.map (.conn d)) = [] := by
  simp [callsOf, List.filterMap_eq_nil_iff, ServerAct.callOf, h]

theorem mem_callsOf {k : ConnCall} : k ∈ callsOf c acts ↔ .conn c k ∈ acts := by
  simp only [callsOf, List.mem_filterMap]
  constructor
  · rintro ⟨a, ha, hk⟩
    cases a with
    | conn c' k' =>
        simp only [ServerAct.callOf, Option.ite_none_right_eq_some, Option.some.injEq] at hk
        obtain ⟨rfl, rfl⟩ := hk
        exact ha
    | _ => simp [ServerAct.callOf] at hk
  · intro hk
    exact ⟨_, hk, by simp [ServerAct.callOf]⟩

/-- A connection's calls under way are calls to come. -/
theorem mem_callsOf_of_todo (cfg : ServerConfig) {p : ServerProcess n} {l : LoopId n}
    {k : ConnCall} (h : .conn c k ∈ (p.loops l).todo) :
    k ∈ callsOf c (p.work (serverApp n cfg) l) :=
  mem_callsOf.mpr (List.mem_append_left _ h)

@[simp] theorem removalsOf_nil : removalsOf c [] = 0 := rfl

@[simp] theorem removalsOf_append :
    removalsOf c (acts ++ acts') = removalsOf c acts + removalsOf c acts' := List.countP_append

@[simp] theorem removalsOf_self :
    removalsOf c (.removeConnectionInLoop c :: acts) = removalsOf c acts + 1 := by
  simp [removalsOf, ServerAct.removes]

theorem removalsOf_cons_false {a : ServerAct} (h : a.removes c = false) :
    removalsOf c (a :: acts) = removalsOf c acts := by
  simp [removalsOf, h]

@[simp] theorem removalsOf_map (ks : List ConnCall) : removalsOf c (ks.map (.conn d)) = 0 := by
  simp [removalsOf, ServerAct.removes]

/-- The events of connection `c` among those reported. -/
def eventsOf (c : Nat) (active : List (ChannelPtr × Events)) : List Events :=
  active.filterMap fun ev => if ev.1 = some c then some ev.2 else none

theorem callsOf_dispatch (active : List (ChannelPtr × Events)) :
    callsOf c (active.map handleEventOf) = (eventsOf c active).map .handleEvent := by
  rw [callsOf, eventsOf, List.filterMap_map, List.map_filterMap]
  congr 1
  funext ev
  obtain ⟨ptr, revents⟩ := ev
  cases ptr with
  | none => simp [handleEventOf, ServerAct.callOf]
  | some d => by_cases hd : d = c <;> simp [handleEventOf, ServerAct.callOf, hd]

theorem removalsOf_dispatch (active : List (ChannelPtr × Events)) :
    removalsOf c (active.map handleEventOf) = 0 := by
  rw [removalsOf, List.countP_eq_zero]
  intro a ha
  obtain ⟨⟨ptr, revents⟩, -, rfl⟩ := List.mem_map.mp ha
  cases ptr <;> simp [handleEventOf, ServerAct.removes]

theorem mem_eventsOf {active : List (ChannelPtr × Events)} {revents : Events}
    (h : revents ∈ eventsOf c active) : (some c, revents) ∈ active := by
  simp only [eventsOf, List.mem_filterMap, Option.ite_none_right_eq_some, Option.some.injEq] at h
  obtain ⟨⟨ptr, r⟩, hmem, rfl, rfl⟩ := h
  exact hmem

end Project

/-! ### The share of one connection -/

/-- What the process has of one connection: whether it was accepted, its record, the calls
to come on each loop, and the strings that threads are about to queue for it. -/
@[ext] structure Share (n : Nat) where
  born : Bool
  record : ConnRecord n
  calls : LoopId n → List ConnCall
  removals : LoopId n → Nat
  sending : Nat → Option Bytes

def share (c : Nat) (w : ServerWorld n) (work : LoopId n → List ServerAct) : Share n :=
  { born := decide (c < w.accepted)
    record := w.conns c
    calls := fun l => callsOf c (work l)
    removals := fun l => removalsOf c (work l)
    sending := fun t => (w.threads t).sending c }

/-- The number of removals a call asks for. -/
def ConnCall.removals : ConnCall → Nat
  | .closeCallback => 1
  | _ => 0

/-- What a step of the server is for one connection. -/
inductive Turn : ServerLabel n → Share n → Share n → Prop where
  /-- something else happens -/
  | idle {label : ServerLabel n} (p : Share n) : Turn label p p
  /-- it is accepted, and `connectEstablished` is called or queued -/
  | accepted {label : ServerLabel n} {p : Share n} (l : LoopId n) (sockfd : Int)
      (name : List Char) : p.born = false →
      Turn label p ⟨true, ⟨.create sockfd true, l, name, []⟩,
        Function.update (fun _ => []) l [.connectEstablished], fun _ => 0, fun _ => none⟩
  /-- its loop starts to handle events -/
  | dispatched {l : LoopId n} {o : ServerOracle} {p : Share n} (rs : List Events) :
      (rs ≠ [] → p.born = true ∧ l = p.record.loop ∧ p.record.conn.state ≠ .kConnecting) →
      Turn (.call l o) p
        { p with calls := Function.update p.calls l (rs.map .handleEvent ++ p.calls l) }
  /-- its next call is made -/
  | called {o : ServerOracle} {p : Share n} {k : ConnCall} {tail : List ConnCall}
      {v v' : ConnView ChannelPtr} {out : Out} :
      p.calls p.record.loop = k :: tail → v.conn = p.record.conn →
      v.call k o.toOracle = .ok (v', out) →
      Turn (.call p.record.loop o) p
        { p with
          record := { p.record with conn := v'.conn, trace := p.record.trace ++ out.obs }
          calls := Function.update p.calls p.record.loop
            (out.calls ++ tail ++ out.queued.flatMap ConnFunctor.body)
          removals := fun l => p.removals l + if l = 0 then k.removals else 0 }
  /-- it is taken out of the map -/
  | removed {o : ServerOracle} {p : Share n} {m : Nat} : p.removals 0 = m + 1 →
      Turn (.call 0 o) p
        { p with
          record := { p.record with trace := p.record.trace ++ [.erased] }
          calls := Function.update p.calls p.record.loop
            (p.calls p.record.loop ++ [.connectDestroyed])
          removals := Function.update p.removals 0 m }
  /-- a thread's `send` passes the check -/
  | sendPassed {p : Share n} {t : Nat} {m : Message} {s : Bytes} :
      p.record.conn.state = .kConnected → m.boundString = .ok s →
      Turn (.thread (.sendCheck t m)) p
        { p with
          record := { p.record with trace := p.record.trace ++ [.passed (.thread t) m.content] }
          sending := Function.update p.sending t (some s) }
  /-- a thread's `send` queues its functor -/
  | sendQueued {p : Share n} {t : Nat} {s : Bytes} : p.sending t = some s →
      Turn (.thread (.sendQueue t)) p
        { p with
          calls := Function.update p.calls p.record.loop
            (p.calls p.record.loop ++ [.sendInLoop (.thread t) (.ofString s)])
          sending := Function.update p.sending t none }
  /-- a functor of the user is queued -/
  | userQueued {c : Nat} {p : Share n} : p.born = true →
      Turn (.thread (.queueInLoop c)) p
        { p with
          calls := Function.update p.calls p.record.loop (p.calls p.record.loop ++ [.userCode]) }

/-- Nothing concerns the connection yet. -/
structure Share.Blank (p : Share n) : Prop where
  state : p.record.conn.state = .kConnecting
  calls : ∀ l, p.calls l = []
  removals : ∀ l, p.removals l = 0
  sending : ∀ t, p.sending t = none

section Turn

variable {w w' : ServerWorld n} {work work' : LoopId n → List ServerAct} {l l' : LoopId n}
  {c d : Nat} {a : ServerAct} {tail : List ServerAct} {e : ServerEffect n} {k : ConnCall}

theorem queuedTo_append {L F : Type} [DecidableEq L] (l : L) (q q' : List (L × F)) :
    queuedTo l (q ++ q') = queuedTo l q ++ queuedTo l q' := List.filterMap_append

theorem queuedTo_conn (fs : List ConnFunctor) :
    queuedTo l' (fs.map fun f => (l, ServerFunctor.conn c f)) =
      if l = l' then fs.map (.conn c) else [] := by
  by_cases hl : l = l' <;> simp [queuedTo, List.filterMap_map, hl]

theorem flatMap_conn (fs : List ConnFunctor) :
    (fs.map (.conn c)).flatMap ServerFunctor.body = (fs.flatMap ConnFunctor.body).map (.conn c) := by
  rw [List.flatMap_map, List.map_flatMap]
  rfl

/-- The close callback asks for one removal, on the base loop, whichever way it gets there. -/
theorem removeConnection_acts (l l' : LoopId n) (c : Nat) (k : ConnCall) :
    (if l' = l then (ServerWorld.removeConnection l c k).1 else []) ++
        (queuedTo l' (ServerWorld.removeConnection l c k).2).flatMap ServerFunctor.body =
      if l' = 0 then List.replicate k.removals (.removeConnectionInLoop c) else [] := by
  cases k with
  | closeCallback =>
      simp only [ServerWorld.removeConnection, runInLoop, ConnCall.removals]
      by_cases hl : l = 0
      · subst hl
        by_cases hl' : l' = 0 <;> simp [hl', ServerFunctor.body]
      · by_cases hl' : l' = 0
        · subst hl'
          simp [hl, Ne.symm hl, queuedTo, ServerFunctor.body]
        · simp [hl, hl', Ne.symm hl', queuedTo]
  | _ => simp [ServerWorld.removeConnection, ConnCall.removals]

/-- A call that has nothing to do with connection `c` leaves its calls to come alone. -/
theorem share_calls_of_other (hwork : work l = a :: tail)
    (hacts : ∀ l', work' l' = (if l' = l then e.calls ++ tail else work l') ++
      (queuedTo l' e.queued).flatMap ServerFunctor.body)
    (ha : a.callOf c = none) (ha' : a.removes c = false) (hcalls : callsOf c e.calls = [])
    (hremoves : removalsOf c e.calls = 0)
    (hqueued : ∀ l', callsOf c ((queuedTo l' e.queued).flatMap ServerFunctor.body) = [] ∧
      removalsOf c ((queuedTo l' e.queued).flatMap ServerFunctor.body) = 0) :
    (∀ l', callsOf c (work' l') = callsOf c (work l')) ∧
      ∀ l', removalsOf c (work' l') = removalsOf c (work l') := by
  constructor
  · intro l'
    rw [hacts, callsOf_append, (hqueued l').1, List.append_nil]
    by_cases hl : l' = l
    · subst hl
      rw [if_pos rfl, hwork, callsOf_append, hcalls, List.nil_append, callsOf_cons_none ha]
    · rw [if_neg hl]
  · intro l'
    rw [hacts, removalsOf_append, (hqueued l').2, Nat.add_zero]
    by_cases hl : l' = l
    · subst hl
      rw [if_pos rfl, hwork, removalsOf_append, hremoves, Nat.zero_add, removalsOf_cons_false ha']
    · rw [if_neg hl]

/-- The calls of connection `c` itself are its next turn. -/
theorem ServerCall.turn_conn {o : ServerOracle} {v : ConnView ChannelPtr} {out : Out}
    (hwork : work l = .conn c k :: tail)
    (hacts : ∀ l', work' l' = (if l' = l then out.calls.map (.conn c) ++
        (ServerWorld.removeConnection l c k).1 ++ tail else work l') ++
      (queuedTo l' (out.queued.map (fun f => (l, .conn c f)) ++
        (ServerWorld.removeConnection l c k).2)).flatMap ServerFunctor.body)
    (hl : l = (w.conns c).loop)
    (hcall : ((w.noteCurrent l c k).view c).call k o.toOracle = .ok (v, out)) :
    Turn (.call l o) (share c w work)
      (share c ((w.noteCurrent l c k).setView c v out.obs) work') := by
  have hcalls : callsOf c (work l) = k :: callsOf c tail := by rw [hwork, callsOf_conn_self]
  have hclose : ∀ l', callsOf c (if l' = l then (ServerWorld.removeConnection l c k).1 else []) ++
      callsOf c ((queuedTo l' (ServerWorld.removeConnection l c k).2).flatMap ServerFunctor.body) =
        [] := by
    intro l'
    rw [← callsOf_append, removeConnection_acts]
    split
    · simp [callsOf, List.filterMap_eq_nil_iff, ServerAct.callOf]
    · rfl
  have hremove : ∀ l',
      removalsOf c (if l' = l then (ServerWorld.removeConnection l c k).1 else []) +
        removalsOf c ((queuedTo l' (ServerWorld.removeConnection l c k).2).flatMap
          ServerFunctor.body) = if l' = 0 then k.removals else 0 := by
    intro l'
    rw [← removalsOf_append, removeConnection_acts]
    split
    · simp [removalsOf, List.countP_replicate, ServerAct.removes]
    · rfl
  subst hl
  have hview : ((w.noteCurrent (w.conns c).loop c k).view c).conn = (w.conns c).conn := by
    simp [ServerWorld.view]
  have hturn : Turn (.call (w.conns c).loop o) (share c w work) _ :=
    .called (p := share c w work) hcalls hview hcall
  convert hturn using 1
  apply Share.ext
  · simp [share, ServerWorld.setView]
  · simp [share, ServerWorld.setView]
  · funext l'
    simp only [share]
    rw [hacts, queuedTo_append, List.flatMap_append, queuedTo_conn]
    by_cases hl' : l' = (w.conns c).loop
    · subst hl'
      have hnone := List.append_eq_nil_iff.mp (hclose (w.conns c).loop)
      simp only [if_true] at hnone
      simp [flatMap_conn, hnone.1, hnone.2]
    · have hnone := List.append_eq_nil_iff.mp (hclose l')
      simp [hl', Ne.symm hl', hnone.2]
  · funext l'
    simp only [share]
    rw [hacts, queuedTo_append, List.flatMap_append, queuedTo_conn, ← hremove l']
    by_cases hl' : l' = (w.conns c).loop
    · subst hl'
      have htail : removalsOf c (work (w.conns c).loop) = removalsOf c tail := by
        rw [hwork, removalsOf_cons_false rfl]
      simp only [if_true, flatMap_conn, removalsOf_append, removalsOf_map, htail]
      omega
    · simp [hl', Ne.symm hl']
  · simp [share, ServerWorld.setView]

/-- A step that leaves a connection's record, its calls to come and the threads alone is
no turn of it. -/
theorem turn_idle {label : ServerLabel n} (hborn : c < w'.accepted ↔ c < w.accepted)
    (hrecord : w'.conns c = w.conns c)
    (hsending : ∀ t, (w'.threads t).sending c = (w.threads t).sending c)
    (hcalls : (∀ l', callsOf c (work' l') = callsOf c (work l')) ∧
      ∀ l', removalsOf c (work' l') = removalsOf c (work l')) :
    Turn label (share c w work) (share c w' work') := by
  have heq : share c w' work' = share c w work := by
    refine Share.ext ?_ hrecord (funext hcalls.1) (funext hcalls.2) (funext hsending)
    simp only [share, hborn]
  rw [heq]
  exact .idle _

theorem ServerCall.turn_newConnection {sockfd : Int} {o : ServerOracle}
    (hwork : work l = .newConnection sockfd :: tail)
    (hacts : ∀ l', work' l' = (if l' = l then (w.newConnection cfg l sockfd).calls ++ tail
      else work l') ++ (queuedTo l' (w.newConnection cfg l sockfd).queued).flatMap ServerFunctor.body)
    (hblank : w.accepted ≤ c → (share c w work).Blank) :
    Turn (.call l o) (share c w work) (share c (w.newConnection cfg l sockfd).world work') := by
  -- the new connection's `connectEstablished`, wherever `runInLoop` puts it
  have hrun : ∀ l', (if l' = l then (w.newConnection cfg l sockfd).calls else []) ++
      (queuedTo l' (w.newConnection cfg l sockfd).queued).flatMap ServerFunctor.body =
        if l' = w.getNextLoop.1 then [.conn w.accepted .connectEstablished] else [] := by
    intro l'
    simp only [ServerWorld.newConnection, runInLoop]
    by_cases hl : l = w.getNextLoop.1
    · simp [hl, ServerFunctor.body, ConnFunctor.body]
    · by_cases hl' : l' = w.getNextLoop.1
      · simp [hl, hl', Ne.symm hl, queuedTo, ServerFunctor.body, ConnFunctor.body]
      · simp [hl, hl', Ne.symm hl', queuedTo]
  by_cases hc : w.accepted = c
  · subst hc
    have hb := hblank (Nat.le_refl _)
    have htail : callsOf w.accepted tail = [] ∧ removalsOf w.accepted tail = 0 := by
      have hcalls := hb.calls l
      have hremovals := hb.removals l
      simp only [share, hwork] at hcalls hremovals
      rw [callsOf_cons_none rfl] at hcalls
      rw [removalsOf_cons_false rfl] at hremovals
      exact ⟨hcalls, hremovals⟩
    have hturn : Turn (.call l o) (share w.accepted w work) _ :=
      .accepted w.getNextLoop.1 sockfd (cfg.connName w.nextConnId) (by simp [share])
    convert hturn using 1
    apply Share.ext
    · simp [share, ServerWorld.newConnection]
    · simp [share, ServerWorld.newConnection]
    · funext l'
      have hsplit : callsOf w.accepted (work' l') = callsOf w.accepted
          (if l' = w.getNextLoop.1 then [.conn w.accepted .connectEstablished] else []) := by
        rw [hacts, ← hrun]
        by_cases hl' : l' = l
        · simp [hl', htail.1]
        · have hnone : callsOf w.accepted (work l') = [] := hb.calls l'
          simp [hl', hnone]
      simp only [share]
      rw [hsplit, Function.update_apply]
      split <;> simp
    · funext l'
      have hsplit : removalsOf w.accepted (work' l') = removalsOf w.accepted
          (if l' = w.getNextLoop.1 then [.conn w.accepted .connectEstablished] else []) := by
        rw [hacts, ← hrun]
        by_cases hl' : l' = l
        · simp [hl', htail.2]
        · have hnone : removalsOf w.accepted (work l') = 0 := hb.removals l'
          simp [hl', hnone]
      simp only [share]
      rw [hsplit]
      split <;> simp [removalsOf, ServerAct.removes]
    · funext t
      exact hb.sending t
  · have hnew : ∀ l', callsOf c (if l' = w.getNextLoop.1 then
        [.conn w.accepted .connectEstablished] else []) = [] ∧ removalsOf c
        (if l' = w.getNextLoop.1 then [.conn w.accepted .connectEstablished] else []) = 0 := by
      intro l'
      split <;> simp [callsOf, removalsOf, ServerAct.callOf, ServerAct.removes, hc]
    have hcalls := hnew l
    rw [← hrun l, callsOf_append, removalsOf_append, if_pos rfl, List.append_eq_nil_iff] at hcalls
    refine turn_idle ?_ ?_ (fun _ => rfl)
      (share_calls_of_other hwork hacts rfl rfl hcalls.1.1 (by omega) ?_)
    · simp only [ServerWorld.newConnection]
      omega
    · simp [ServerWorld.newConnection, Function.update_of_ne (Ne.symm hc)]
    · intro l'
      have hqueued := hnew l'
      rw [← hrun l', callsOf_append, removalsOf_append, List.append_eq_nil_iff] at hqueued
      exact ⟨hqueued.1.2, by omega⟩

theorem ServerCall.turn_removeConnectionInLoop {o : ServerOracle} {w' : ServerWorld n}
    (hwork : work 0 = .removeConnectionInLoop d :: tail)
    (hacts : ∀ l', work' l' = (if l' = 0 then tail else work l') ++ (queuedTo l'
      [((w.conns d).loop, .conn d .connectDestroyed)]).flatMap ServerFunctor.body)
    (hw : w'.accepted = w.accepted) (hthreads : w'.threads = w.threads)
    (hconns : w'.conns = Function.update w.conns d
      { w.conns d with trace := (w.conns d).trace ++ [.erased] }) :
    Turn (.call 0 o) (share c w work) (share c w' work') := by
  have hqueued : ∀ l', (queuedTo l' [((w.conns d).loop, .conn d .connectDestroyed)]).flatMap
      ServerFunctor.body = if l' = (w.conns d).loop then [.conn d .connectDestroyed] else [] := by
    intro l'
    by_cases hl' : l' = (w.conns d).loop
    · simp [queuedTo, hl', ServerFunctor.body, ConnFunctor.body]
    · simp [queuedTo, hl', Ne.symm hl']
  by_cases hd : d = c
  · subst hd
    have hremovals : removalsOf d (work 0) = removalsOf d tail + 1 := by
      rw [hwork, removalsOf_self]
    have hturn : Turn (.call 0 o) (share d w work) _ := .removed (p := share d w work) hremovals
    convert hturn using 1
    apply Share.ext
    · simp only [share, hw]
    · simp [share, hconns]
    · funext l'
      have hsplit : callsOf d (work' l') = callsOf d (work l') ++ callsOf d
          (if l' = (w.conns d).loop then [.conn d .connectDestroyed] else []) := by
        rw [hacts, hqueued, callsOf_append]
        by_cases hl' : l' = 0
        · rw [if_pos hl', hl', hwork, callsOf_cons_none rfl]
        · rw [if_neg hl']
      simp only [share, Function.update_apply, hsplit]
      split
      · rename_i hl'
        simp [hl']
      · simp
    · funext l'
      have hsplit : removalsOf d (work' l') =
          removalsOf d (if l' = 0 then tail else work l') := by
        rw [hacts, hqueued, removalsOf_append]
        split <;> simp [removalsOf, ServerAct.removes]
      simp only [share, Function.update_apply, hsplit]
      split <;> rfl
    · simp only [share, hthreads]
  · refine turn_idle (by rw [hw]) (by simp [hconns, Function.update_of_ne (Ne.symm hd)])
      (fun t => by rw [hthreads])
      (share_calls_of_other
        (e := { world := w', queued := [((w.conns d).loop, .conn d .connectDestroyed)] })
        hwork hacts rfl (by simp [ServerAct.removes, hd]) rfl rfl ?_)
    intro l'
    simp only [hqueued]
    split <;> simp [callsOf, removalsOf, ServerAct.callOf, ServerAct.removes, hd]

theorem ServerCall.turn_handleActiveChannels {o : ServerOracle} {w' : ServerWorld n}
    {active : List (ChannelPtr × Events)} (hwork : work l = .handleActiveChannels active :: tail)
    (hacts : ∀ l', work' l' = if l' = l then active.map handleEventOf ++ [.eventsHandled] ++ tail
      else work l')
    (hw : w'.accepted = w.accepted) (hthreads : w'.threads = w.threads)
    (hconns : w'.conns = w.conns)
    (hdisp : ∀ r, (some c, r) ∈ active →
      c < w.accepted ∧ l = (w.conns c).loop ∧ (w.conns c).conn.state ≠ .kConnecting) :
    Turn (.call l o) (share c w work) (share c w' work') := by
  have hrs : eventsOf c active ≠ [] → (share c w work).born = true ∧
      l = (share c w work).record.loop ∧ (share c w work).record.conn.state ≠ .kConnecting := by
    intro hne
    obtain ⟨r, hr⟩ := List.exists_mem_of_ne_nil _ hne
    obtain ⟨hborn, hl, hs⟩ := hdisp r (mem_eventsOf hr)
    exact ⟨by simpa [share] using hborn, hl, hs⟩
  have hturn : Turn (.call l o) (share c w work) _ := .dispatched _ hrs
  convert hturn using 1
  apply Share.ext
  · simp only [share, hw]
  · simp only [share, hconns]
  · funext l'
    simp only [share, Function.update_apply, hacts]
    split
    · have htail : callsOf c (work l) = callsOf c tail := by rw [hwork, callsOf_cons_none rfl]
      rw [callsOf_append, callsOf_append, callsOf_dispatch, htail]
      simp [callsOf, ServerAct.callOf]
    · rfl
  · funext l'
    simp only [share, hacts]
    split
    · rename_i hl'
      have htail : removalsOf c (work l) = removalsOf c tail := by
        rw [hwork, removalsOf_cons_false rfl]
      rw [removalsOf_append, removalsOf_append, removalsOf_dispatch, hl', htail]
      simp [removalsOf, ServerAct.removes]
    · rfl
  · simp only [share, hthreads]

/-- Every call is a turn of every connection. -/
theorem ServerCall.turn {o : ServerOracle} (h : ServerCall cfg w l o a e)
    (hwork : work l = a :: tail)
    (hacts : ∀ l', work' l' = (if l' = l then e.calls ++ tail else work l') ++
      (queuedTo l' e.queued).flatMap ServerFunctor.body)
    (hblank : w.accepted ≤ c → (share c w work).Blank)
    (hdisp : ∀ active r, a = .handleActiveChannels active → (some c, r) ∈ active →
      c < w.accepted ∧ l = (w.conns c).loop ∧ (w.conns c).conn.state ≠ .kConnecting) :
    Turn (.call l o) (share c w work) (share c e.world work') := by
  cases h with
  | listen =>
      exact turn_idle Iff.rfl rfl (fun _ => rfl)
        (share_calls_of_other hwork hacts rfl rfl rfl rfl fun _ => ⟨rfl, rfl⟩)
  | handleActiveChannels active =>
      refine ServerCall.turn_handleActiveChannels hwork (fun l' => ?_) rfl rfl rfl
        (hdisp active · rfl)
      rw [hacts]
      simp
  | eventsHandled =>
      exact turn_idle Iff.rfl rfl (fun _ => rfl)
        (share_calls_of_other hwork hacts rfl rfl rfl rfl fun _ => ⟨rfl, rfl⟩)
  | acceptorEvent revents hcalls =>
      refine turn_idle Iff.rfl rfl (fun _ => rfl)
        (share_calls_of_other hwork hacts rfl rfl ?_ ?_ fun _ => ⟨rfl, rfl⟩)
      · rcases hcalls with rfl | rfl <;> rfl
      · rcases hcalls with rfl | rfl <;> rfl
  | acceptorRead _ hcalls =>
      refine turn_idle Iff.rfl rfl (fun _ => rfl)
        (share_calls_of_other hwork hacts rfl rfl ?_ ?_ fun _ => ⟨rfl, rfl⟩)
      · rcases hcalls with rfl | ⟨_, rfl⟩ <;> rfl
      · rcases hcalls with rfl | ⟨_, rfl⟩ <;> rfl
  | newConnection sockfd => exact ServerCall.turn_newConnection hwork hacts hblank
  | @conn d k v out hl hcall =>
      by_cases hd : d = c
      · subst hd
        exact ServerCall.turn_conn hwork hacts hl hcall
      · have hclose : ∀ l', callsOf c ((if l' = l then (ServerWorld.removeConnection l d k).1
              else []) ++ (queuedTo l' (ServerWorld.removeConnection l d k).2).flatMap
                ServerFunctor.body) = [] ∧
            removalsOf c ((if l' = l then (ServerWorld.removeConnection l d k).1
              else []) ++ (queuedTo l' (ServerWorld.removeConnection l d k).2).flatMap
                ServerFunctor.body) = 0 := by
          intro l'
          rw [removeConnection_acts]
          split <;> simp [callsOf, removalsOf, List.filterMap_eq_nil_iff, ServerAct.callOf,
            List.countP_replicate, ServerAct.removes, hd]
        have hself := hclose l
        rw [callsOf_append, removalsOf_append, List.append_eq_nil_iff, if_pos rfl] at hself
        refine turn_idle (by simp [ServerWorld.setView])
          (by simp [ServerWorld.setView, Function.update_of_ne (Ne.symm hd)])
          (by simp [ServerWorld.setView]) (share_calls_of_other hwork hacts
            (by simp [ServerAct.callOf, hd]) rfl ?_ ?_ ?_)
        · rw [callsOf_append, callsOf_map_ne hd, hself.1.1]
          rfl
        · rw [removalsOf_append, removalsOf_map]
          omega
        · intro l'
          have hother := hclose l'
          rw [callsOf_append, removalsOf_append, List.append_eq_nil_iff] at hother
          rw [queuedTo_append, List.flatMap_append, callsOf_append, removalsOf_append, hother.1.2,
            queuedTo_conn]
          split
          · rw [flatMap_conn, callsOf_map_ne hd, removalsOf_map]
            exact ⟨rfl, by omega⟩
          · simp only [List.flatMap_nil, callsOf_nil, removalsOf_nil]
            exact ⟨rfl, by omega⟩
  | @removeConnectionInLoop d hl _ =>
      subst hl
      exact ServerCall.turn_removeConnectionInLoop hwork hacts rfl rfl rfl

theorem sending_setThread {t : Nat} {state : ThreadState}
    (h : state.sending c = (w.threads t).sending c) (t' : Nat) :
    ((w.setThread t state).threads t').sending c = (w.threads t').sending c := by
  by_cases ht : t' = t
  · subst ht
    simpa [ServerWorld.setThread] using h
  · simp [ServerWorld.setThread, Function.update_of_ne ht]

/-- What a thread queues for connection `d`. -/
theorem queuedTo_one (f : ConnFunctor) :
    (queuedTo l' [(l, ServerFunctor.conn d f)]).flatMap ServerFunctor.body =
      if l' = l then f.body.map (.conn d) else [] := by
  by_cases hl' : l' = l
  · simp [queuedTo, hl', ServerFunctor.body]
  · simp [queuedTo, hl', Ne.symm hl']

/-- A functor queued for connection `c` adds its calls at the end. -/
theorem share_calls_of_queued {f : ConnFunctor}
    (hacts : ∀ l', work' l' = work l' ++
      (queuedTo l' [((w.conns c).loop, ServerFunctor.conn c f)]).flatMap ServerFunctor.body) :
    ((fun l' => callsOf c (work' l')) = Function.update (fun l' => callsOf c (work l'))
        (w.conns c).loop (callsOf c (work (w.conns c).loop) ++ f.body)) ∧
      (fun l' => removalsOf c (work' l')) = fun l' => removalsOf c (work l') := by
  refine ⟨funext fun l' => ?_, funext fun l' => ?_⟩
  · rw [hacts, queuedTo_one, callsOf_append, Function.update_apply]
    split
    · rename_i hl'
      rw [callsOf_map_self, hl']
    · exact List.append_nil _
  · rw [hacts, queuedTo_one, removalsOf_append]
    split
    · rw [removalsOf_map, Nat.add_zero]
    · rfl

theorem share_calls_of_queued_other {f : ConnFunctor} (hd : d ≠ c)
    (hacts : ∀ l', work' l' = work l' ++
      (queuedTo l' [(l, ServerFunctor.conn d f)]).flatMap ServerFunctor.body) :
    (∀ l', callsOf c (work' l') = callsOf c (work l')) ∧
      ∀ l', removalsOf c (work' l') = removalsOf c (work l') := by
  constructor
  · intro l'
    rw [hacts, queuedTo_one, callsOf_append]
    split
    · rw [callsOf_map_ne hd, List.append_nil]
    · exact List.append_nil _
  · intro l'
    rw [hacts, queuedTo_one, removalsOf_append]
    split
    · rw [removalsOf_map, Nat.add_zero]
    · rfl

/-- So is every action of a thread. -/
theorem ThreadSpec.turn {t : ServerThread}
    {out : ServerWorld n × List (LoopId n × ServerFunctor)} (h : ThreadSpec w t out)
    (hacts : ∀ l', work' l' = work l' ++ (queuedTo l' out.2).flatMap ServerFunctor.body) :
    Turn (.thread t) (share c w work) (share c out.1 work') := by
  have hsame : out.2 = [] → (∀ l', callsOf c (work' l') = callsOf c (work l')) ∧
      ∀ l', removalsOf c (work' l') = removalsOf c (work l') := by
    intro hnil
    simp only [hnil, queuedTo_nil, List.flatMap_nil, List.append_nil] at hacts
    exact ⟨fun l' => by rw [hacts], fun l' => by rw [hacts]⟩
  cases h with
  | acquire hidle =>
      exact turn_idle Iff.rfl rfl (sending_setThread (by rw [hidle]; rfl)) (hsame rfl)
  | copy hidle =>
      exact turn_idle Iff.rfl rfl (sending_setThread (by rw [hidle]; rfl)) (hsame rfl)
  | @sendPassed t d m s hhold hs hm =>
      by_cases hd : d = c
      · subst hd
        have hturn : Turn (.thread (.sendCheck t m)) (share d w work) _ :=
          .sendPassed (p := share d w work) hs hm
        convert hturn using 1
        refine Share.ext rfl ?_ (funext (hsame rfl).1) (funext (hsame rfl).2) ?_
        · simp [share, ServerWorld.observe, ServerWorld.setThread]
        · funext t'
          by_cases ht : t' = t
          · subst ht
            simp [share, ServerWorld.observe, ServerWorld.setThread, ThreadState.sending]
          · simp [share, ServerWorld.observe, ServerWorld.setThread, Function.update_of_ne ht]
      · refine turn_idle Iff.rfl ?_ (sending_setThread ?_) (hsame rfl)
        · simp [ServerWorld.observe, ServerWorld.setThread, Function.update_of_ne (Ne.symm hd)]
        · simp [ThreadState.sending, hhold, hd]
  | sendRefused => exact turn_idle Iff.rfl rfl (fun _ => rfl) (hsame rfl)
  | @sendQueue t d s hheld =>
      by_cases hd : d = c
      · subst hd
        have hsend : (share d w work).sending t = some s := by
          simp [share, hheld, ThreadState.sending]
        have hturn : Turn (.thread (.sendQueue t)) (share d w work) _ := .sendQueued hsend
        obtain ⟨hcalls, hremovals⟩ := share_calls_of_queued hacts
        convert hturn using 1
        refine Share.ext rfl rfl hcalls hremovals ?_
        funext t'
        by_cases ht : t' = t
        · subst ht
          simp [share, ServerWorld.setThread, ThreadState.sending]
        · simp [share, ServerWorld.setThread, Function.update_of_ne ht]
      · refine turn_idle Iff.rfl rfl (sending_setThread ?_) (share_calls_of_queued_other hd hacts)
        simp [ThreadState.sending, hheld, hd]
  | drop hhold =>
      exact turn_idle Iff.rfl rfl (sending_setThread (by rw [hhold]; rfl)) (hsame rfl)
  | @queueInLoop d hborn =>
      by_cases hd : d = c
      · subst hd
        have hturn : Turn (.thread (.queueInLoop d)) (share d w work) _ :=
          .userQueued (by simpa [share] using hborn)
        obtain ⟨hcalls, hremovals⟩ := share_calls_of_queued hacts
        convert hturn using 1
        exact Share.ext rfl rfl hcalls hremovals rfl
      · exact turn_idle Iff.rfl rfl (fun _ => rfl) (share_calls_of_queued_other hd hacts)

/-- **A step of the server is a turn of every connection.** -/
theorem Progress.turn {label : ServerLabel n} (h : Progress (serverApp n cfg) w work label w' work')
    (hblank : w.accepted ≤ c → (share c w work).Blank)
    (hdisp : ∀ l active r, .handleActiveChannels active ∈ work l → (some c, r) ∈ active →
      c < w.accepted ∧ l = (w.conns c).loop ∧ (w.conns c).conn.state ≠ .kConnecting) :
    Turn label (share c w work) (share c w' work') := by
  cases h with
  | silent => exact .idle _
  | @poll l active cbs _ hready _ hwork hother =>
      obtain ⟨evs, rfl, -⟩ := ready_cases hready
      refine turn_idle Iff.rfl rfl (fun _ => rfl) ⟨fun l' => ?_, fun l' => ?_⟩
      · by_cases hl' : l' = l
        · rw [hl', hwork, List.singleton_append, callsOf_cons_none rfl]
        · rw [hother l' hl']
      · by_cases hl' : l' = l
        · rw [hl', hwork, List.singleton_append, removalsOf_cons_false rfl]
        · rw [hother l' hl']
  | @call l o a tail e _ hhead hcall hwork hother =>
      refine (serverCall hcall).turn hhead (fun l' => ?_) hblank ?_
      · by_cases hl' : l' = l
        · rw [hl', hwork, if_pos rfl]
          rfl
        · rw [hother l' hl', if_neg hl']
          rfl
      · intro active r ha hr
        exact hdisp l active r (by rw [hhead, ha]; exact List.mem_cons_self) hr
  | thread hthread hwork => exact (threadSpec hthread).turn hwork

end Turn

end Reactor
