import Reactor.Connection

/-!
# Closing a connection

`handleClose` is called from the `POLLHUP` branch of a dispatch and from a read that gets
end of file, and asserts that the connection is not closed yet. Both can happen in one
dispatch: with `POLLHUP` and `POLLPRI` but without `POLLIN`, `handleClose` runs first and
the read callback after it.

* `late_eof_closes_twice` - end of file in that read fails the assertion.
* `closed_at_most_once` - in runs without it, the connection is closed at most once, its
  state only moves forwards, and each callback is invoked as often as it should be.
-/

namespace Reactor

open Reactor.Lib

/-! ### What the calls count -/

/-- How often the connection callback has reported the connection up. -/
def StateE.ups : StateE → Nat
  | .kConnecting => 0
  | _ => 1

/-- How often it has reported the connection down. -/
def StateE.downs : StateE → Nat
  | .kDisconnected => 1
  | _ => 0

def ConnCall.isCloseCallback : ConnCall → Bool
  | .closeCallback => true
  | _ => false

/-- The calls that can lead to `handleClose`. -/
inductive Crit where
  | event
  | close
  | read
deriving DecidableEq, Repr

def ConnCall.crit : ConnCall → Option Crit
  | .handleEvent _ => some .event
  | .handleClose => some .close
  | .handleRead => some .read
  | _ => none

section Calls

variable {v v' : ConnView Unit} {o : Oracle} {k : ConnCall} {out : Out}

/-- `shutdownInLoop` is no callback. -/
theorem count_shutdownInLoop {x : Obs} (hx : x ≠ .shutdownWrite) :
    v.shutdownInLoop.count x = 0 := by
  unfold ConnView.shutdownInLoop
  split
  · rfl
  · exact List.count_eq_zero.mpr (by simpa using hx)

/-- The connection callback reports the connection up when it becomes connected. -/
theorem CallSpec.ups (h : CallSpec v o k v' out) :
    v.conn.state.ups + out.obs.count (.connectionCallback true) = v'.conn.state.ups := by
  cases h with
  | shutdown hs => simp [count_shutdownInLoop, hs, StateE.ups, ConnView.setState]
  | writeAll =>
      split <;> simp [ConnView.setOutput, ConnView.setChannel]
  | handleClose hs =>
      rcases hs with hs | hs <;> simp [hs, StateE.ups, ConnView.setState, ConnView.setChannel]
  | connectEstablished hs => simp [hs, StateE.ups, ConnView.setState, ConnView.setChannel]
  | disconnect hs => simp [hs, StateE.ups, ConnView.setState, ConnView.setChannel]
  | _ => simp [ConnView.setOutput, ConnView.setChannel, ConnView.setInput]

/-- It reports the connection down when it becomes disconnected. -/
theorem CallSpec.downs (h : CallSpec v o k v' out) :
    v.conn.state.downs + out.obs.count (.connectionCallback false) = v'.conn.state.downs := by
  cases h with
  | shutdown hs => simp [count_shutdownInLoop, hs, StateE.downs, ConnView.setState]
  | writeAll =>
      split <;> simp [ConnView.setOutput, ConnView.setChannel]
  | handleClose hs =>
      rcases hs with hs | hs <;> simp [hs, StateE.downs, ConnView.setState, ConnView.setChannel]
  | connectEstablished hs => simp [hs, StateE.downs, ConnView.setState, ConnView.setChannel]
  | disconnect hs => simp [hs, StateE.downs, ConnView.setState, ConnView.setChannel]
  | _ => simp [ConnView.setOutput, ConnView.setChannel, ConnView.setInput]

/-- `handleClose` disconnects the connection. -/
theorem CallSpec.closings (h : CallSpec v o k v' out) :
    v.conn.state.downs + out.obs.count .closing ≤ v'.conn.state.downs := by
  cases h with
  | shutdown hs => simp [count_shutdownInLoop, hs, StateE.downs, ConnView.setState]
  | writeAll =>
      split <;> simp [ConnView.setOutput, ConnView.setChannel]
  | handleClose hs =>
      rcases hs with hs | hs <;> simp [hs, StateE.downs, ConnView.setState, ConnView.setChannel]
  | connectEstablished hs => simp [hs, StateE.downs, ConnView.setState, ConnView.setChannel]
  | disconnect hs => simp [hs, StateE.downs, ConnView.setState, ConnView.setChannel]
  | _ => simp [ConnView.setOutput, ConnView.setChannel, ConnView.setInput]

theorem countP_handleEvent (ch : Channel) (lock : Bool) (revents : Events) :
    (ch.handleEvent lock revents).countP ConnCall.isCloseCallback = 0 := by
  rw [List.countP_eq_zero]
  intro k hk
  rcases mem_handleEvent hk with rfl | rfl | rfl | rfl | rfl <;> decide

/-- `handleClose` is what invokes the close callback. -/
theorem CallSpec.closeCallbacks (h : CallSpec v o k v' out) :
    out.obs.count .closeCallback + out.calls.countP ConnCall.isCloseCallback =
      out.obs.count .closing + if k.isCloseCallback then 1 else 0 := by
  cases h with
  | send m => cases m <;> simp [Message.loopCall, ConnCall.isCloseCallback]
  | gaveUp hk => cases k <;> simp_all [ConnCall.inFlight, ConnCall.isCloseCallback]
  | tookNothing hk => cases k <;> simp_all [ConnCall.inFlight, ConnCall.isCloseCallback]
  | took hk => cases k <;> simp_all [ConnCall.inFlight, ConnCall.isCloseCallback]
  | shutdown => simp [count_shutdownInLoop, ConnCall.isCloseCallback]
  | userCode => simp [ConnCall.isCloseCallback]
  | handleEvent => simp [countP_handleEvent, ConnCall.isCloseCallback]
  | readData => simp [ConnCall.isCloseCallback]
  | writeAll => split <;> simp [ConnCall.isCloseCallback]
  | handleClose => simp [List.countP_append, ConnCall.isCloseCallback]
  | connectEstablished => simp [ConnCall.isCloseCallback]
  | disconnect => simp [List.countP_append, ConnCall.isCloseCallback]
  | _ => simp [ConnCall.isCloseCallback]

theorem crit_user (calls : List UserCall) :
    (calls.map ConnCall.user).filterMap ConnCall.crit = [] := by
  simp [List.filterMap_eq_nil_iff, ConnCall.crit]

/-- The critical calls of a dispatch: at most one close and then at most one read. -/
def Dispatched (cs : List Crit) : Prop :=
  cs = [] ∨ cs = [.close] ∨ cs = [.read] ∨ cs = [.close, .read]

instance (cs : List Crit) : Decidable (Dispatched cs) := inferInstanceAs (Decidable (_ ∨ _))

theorem crit_handleEvent (ch : Channel) (lock : Bool) (revents : Events) :
    Dispatched ((ch.handleEvent lock revents).filterMap ConnCall.crit) := by
  have hguard : Dispatched ((Channel.handleEventWithGuard revents).filterMap ConnCall.crit) := by
    unfold Channel.handleEventWithGuard
    split <;> split <;> split <;> split <;> decide
  unfold Channel.handleEvent
  split
  · split
    · have hunguard : [ConnCall.unguard].filterMap ConnCall.crit = [] := rfl
      rw [List.filterMap_append, hunguard, List.append_nil]
      exact hguard
    · exact Or.inl rfl
  · exact hguard

/-- The critical calls a call makes: a dispatch makes those above, and a read that gets end
of file closes. -/
theorem CallSpec.crits (h : CallSpec v o k v' out) :
    out.calls.filterMap ConnCall.crit = [] ∨
      ((∃ revents, k = .handleEvent revents) ∧ v' = v ∧
        Dispatched (out.calls.filterMap ConnCall.crit)) ∨
      (k = .handleRead ∧ v'.conn.state = v.conn.state ∧ o.read = .deliver [] ∧
        out.calls.filterMap ConnCall.crit = [.close]) := by
  cases h with
  | send m => cases m <;> exact Or.inl rfl
  | userCode => exact Or.inl (crit_user _)
  | handleEvent revents => exact Or.inr (Or.inl ⟨⟨_, rfl⟩, rfl, crit_handleEvent _ _ _⟩)
  | readData => exact Or.inl (crit_user _)
  | readEof hread hn => exact Or.inr (Or.inr ⟨rfl, rfl, Buffer.readFd_eof hread hn, rfl⟩)
  | handleClose => exact Or.inl (by simp [ConnCall.crit])
  | connectEstablished => exact Or.inl (crit_user _)
  | disconnect => exact Or.inl (by simp [ConnCall.crit])
  | _ => exact Or.inl rfl

end Calls

/-! ### The invariant -/

def ConnAct.crit : ConnAct → Option Crit
  | .conn k => k.crit
  | .newConnection => none

def ConnAct.isCloseCallback : ConnAct → Bool
  | .conn k => k.isCloseCallback
  | .newConnection => false

def ConnAct.isDestroy : ConnAct → Bool
  | .conn .connectDestroyed => true
  | _ => false

/-- The critical calls to come. -/
def crits (work : List ConnAct) : List Crit := work.filterMap ConnAct.crit

/-- The critical calls that can be pending in a state: those of one dispatch, where only a
read may be left once the connection is closed. -/
def Pending (s : StateE) (cs : List Crit) : Prop :=
  cs = [] ∨ s ≠ .kConnecting ∧ cs = [.read] ∨
    s.Open ∧ (cs = [.event] ∨ cs = [.close] ∨ cs = [.close, .read])

/-- What is counted agrees with the state, and only one dispatch is under way, before
anything that `connectDestroyed` does. -/
structure CloseInv (w : Connection) (work : List ConnAct) : Prop where
  pending : Pending w.view.conn.state (crits work)
  order : work.Pairwise fun a b => a.isDestroy = true → b.crit = none
  ups : w.trace.count (.connectionCallback true) = w.view.conn.state.ups
  downs : w.trace.count (.connectionCallback false) = w.view.conn.state.downs
  closings : w.trace.count .closing ≤ w.view.conn.state.downs
  closeCallbacks : w.trace.count .closeCallback + work.countP ConnAct.isCloseCallback =
    w.trace.count .closing

/-- A read on a closed connection does not get end of file. -/
def NoLateEof (s : ConnProcess) : ConnLabel → Prop
  | .call _ o => ∀ tail, s.work connApp () = .conn .handleRead :: tail →
      s.world.view.conn.state = .kDisconnected → o.read ≠ .deliver []
  | _ => True

section Invariant

variable {w w' : Connection} {work work' tail : List ConnAct} {label : ConnLabel}

@[simp] theorem crits_append (work work' : List ConnAct) :
    crits (work ++ work') = crits work ++ crits work' := List.filterMap_append

@[simp] theorem crits_conn (ks : List ConnCall) :
    crits (ks.map .conn) = ks.filterMap ConnCall.crit := by
  simp [crits, List.filterMap_map, Function.comp_def, ConnAct.crit]

theorem crits_cons (k : ConnCall) (work : List ConnAct) :
    crits (.conn k :: work) = k.crit.toList ++ crits work := by
  cases h : k.crit <;> simp [crits, ConnAct.crit, h]

theorem create_closeInv (sockfd : Int) (writecompleteCB : Bool) (poller : EPollPoller Unit) :
    CloseInv (Connection.create sockfd writecompleteCB poller) [] where
  pending := Or.inl rfl
  order := List.Pairwise.nil
  ups := rfl
  downs := rfl
  closings := Nat.le_refl _
  closeCallbacks := rfl

theorem Pending.moves {s s' : StateE} {cs : List Crit} (h : Pending s cs) (hmove : s.Moves s')
    (hclose : s.Open → s' = .kDisconnected → cs = []) : Pending s' cs := by
  rcases hmove with rfl | ⟨rfl, rfl⟩ | ⟨rfl, rfl⟩ | ⟨hs, rfl⟩
  · exact h
  · rcases h with h | ⟨h, -⟩ | ⟨h, -⟩
    · exact Or.inl h
    · exact absurd rfl h
    · exact absurd rfl h.ne_connecting
  · rcases h with h | ⟨-, h⟩ | ⟨-, h⟩
    · exact Or.inl h
    · exact Or.inr (Or.inl ⟨by decide, h⟩)
    · exact Or.inr (Or.inr ⟨Or.inr rfl, h⟩)
  · exact Or.inl (hclose hs rfl)

/-- After a call that is not critical: what is pending stays, and only `connectDestroyed`
disconnects. -/
theorem CloseInv.pending_quiet {k : ConnCall} {o : Oracle} {v : ConnView Unit} {out : Out}
    (h : CloseInv w (.conn k :: tail)) (hspec : CallSpec w.view o k v out) (hk : k.crit = none) :
    Pending v.conn.state (out.calls.filterMap ConnCall.crit ++ crits tail) := by
  have hpending := h.pending
  rw [crits_cons, hk] at hpending
  have hnone : out.calls.filterMap ConnCall.crit = [] := by
    rcases hspec.crits with hc | ⟨⟨r, rfl⟩, -⟩ | ⟨rfl, -⟩
    · exact hc
    · cases hk
    · cases hk
  rw [hnone]
  refine hpending.moves hspec.moves fun hopen hclosed => ?_
  have hdestroy : k = .connectDestroyed := by
    rcases hspec.disconnects hopen hclosed with rfl | rfl
    · cases hk
    · rfl
  subst hdestroy
  have horder := (List.pairwise_cons.mp h.order).1
  exact List.filterMap_eq_nil_iff.mpr fun a ha => horder a ha rfl

/-- After the dispatch of an event, which comes alone. -/
theorem CloseInv.pending_handleEvent {revents : Events} {o : Oracle} {v : ConnView Unit} {out : Out}
    (h : CloseInv w (.conn (.handleEvent revents) :: tail))
    (hspec : CallSpec w.view o (.handleEvent revents) v out) :
    Pending v.conn.state (out.calls.filterMap ConnCall.crit ++ crits tail) := by
  have htail : crits tail = [] ∧ w.view.conn.state.Open := by
    rcases h.pending with h | ⟨-, h⟩ | ⟨hopen, h⟩
    · cases h
    · simp [crits_cons, ConnCall.crit] at h
    · exact ⟨by simpa [crits_cons, ConnCall.crit] using h, hopen⟩
  have hopen := htail.2
  rw [htail.1, List.append_nil]
  rcases hspec.crits with hc | ⟨-, rfl, hc⟩ | ⟨hc, -⟩
  · exact Or.inl hc
  · rcases hc with hc | hc | hc | hc
    · exact Or.inl hc
    · exact Or.inr (Or.inr ⟨hopen, Or.inr (Or.inl hc)⟩)
    · exact Or.inr (Or.inl ⟨hopen.ne_connecting, hc⟩)
    · exact Or.inr (Or.inr ⟨hopen, Or.inr (Or.inr hc)⟩)
  · cases hc

/-- After `handleClose`: at most the read of the same dispatch. -/
theorem CloseInv.pending_handleClose {o : Oracle} {v : ConnView Unit} {out : Out}
    (h : CloseInv w (.conn .handleClose :: tail)) (hspec : CallSpec w.view o .handleClose v out) :
    Pending v.conn.state (out.calls.filterMap ConnCall.crit ++ crits tail) := by
  have hclosed : v.conn.state = .kDisconnected := by
    cases hspec with
    | handleClose => rfl
    | gaveUp hk => cases hk
    | tookNothing hk => cases hk
    | took hk => cases hk
  have hnone : out.calls.filterMap ConnCall.crit = [] := by
    rcases hspec.crits with hc | ⟨⟨r, hc⟩, -⟩ | ⟨hc, -⟩
    · exact hc
    · cases hc
    · cases hc
  have htail : crits tail = [] ∨ crits tail = [.read] := by
    rcases h.pending with h | ⟨-, h⟩ | ⟨-, h⟩
    · cases h
    · simp [crits_cons, ConnCall.crit] at h
    · simpa [crits_cons, ConnCall.crit] using h
  rw [hnone, hclosed]
  rcases htail with htail | htail
  · exact Or.inl htail
  · exact Or.inr (Or.inl ⟨by decide, htail⟩)

/-- After `handleRead`: the close that an end of file calls for. -/
theorem CloseInv.pending_handleRead {o : Oracle} {v : ConnView Unit} {out : Out}
    (h : CloseInv w (.conn .handleRead :: tail)) (hspec : CallSpec w.view o .handleRead v out)
    (heof : w.view.conn.state = .kDisconnected → o.read ≠ .deliver []) :
    Pending v.conn.state (out.calls.filterMap ConnCall.crit ++ crits tail) := by
  have htail : crits tail = [] ∧ w.view.conn.state ≠ .kConnecting := by
    rcases h.pending with h | ⟨hne, h⟩ | ⟨hopen, h⟩
    · cases h
    · exact ⟨by simpa [crits_cons, ConnCall.crit] using h, hne⟩
    · simp [crits_cons, ConnCall.crit] at h
  rw [htail.1, List.append_nil]
  rcases hspec.crits with hc | ⟨⟨r, hc⟩, -⟩ | ⟨-, hsame, hread, hc⟩
  · exact Or.inl hc
  · cases hc
  · have hopen : v.conn.state.Open := by
      rw [hsame]
      exact StateE.open_of_ne (fun hs => heof hs hread) htail.2
    exact Or.inr (Or.inr ⟨hopen, Or.inr (Or.inl hc)⟩)

/-- The critical calls after one call. -/
theorem CloseInv.pending_call {k : ConnCall} {o : Oracle} {v : ConnView Unit} {out : Out}
    (h : CloseInv w (.conn k :: tail)) (hspec : CallSpec w.view o k v out)
    (heof : k = .handleRead → w.view.conn.state = .kDisconnected → o.read ≠ .deliver []) :
    Pending v.conn.state (out.calls.filterMap ConnCall.crit ++ crits tail) := by
  cases k with
  | handleEvent revents => exact h.pending_handleEvent hspec
  | handleClose => exact h.pending_handleClose hspec
  | handleRead => exact h.pending_handleRead hspec (heof rfl)
  | _ => exact h.pending_quiet hspec rfl

theorem CloseInv.call {k : ConnCall} {o : Oracle} {v : ConnView Unit} {out : Out}
    (h : CloseInv w (.conn k :: tail)) (hspec : CallSpec w.view o k v out)
    (heof : k = .handleRead → w.view.conn.state = .kDisconnected → o.read ≠ .deliver []) :
    CloseInv { w with view := v, trace := w.trace ++ out.obs }
      (out.calls.map .conn ++ tail ++ (out.queued.flatMap ConnFunctor.body).map .conn) := by
  have hqueued : ∀ a ∈ (out.queued.flatMap ConnFunctor.body).map ConnAct.conn,
      a = .conn .userCode := by
    intro a ha
    obtain ⟨k', hk', rfl⟩ := List.mem_map.mp ha
    rw [hspec.queued_body k' hk']
  have hcalls : ∀ a ∈ out.calls.map ConnAct.conn, a.isDestroy = false := by
    intro a ha
    obtain ⟨k', hk', rfl⟩ := List.mem_map.mp ha
    cases k' with
    | connectDestroyed => exact absurd hk' hspec.calls_internal.2
    | _ => rfl
  refine ⟨?_, ?_, ?_, ?_, ?_, ?_⟩
  · have hnone : crits ((out.queued.flatMap ConnFunctor.body).map .conn) = [] :=
      List.filterMap_eq_nil_iff.mpr fun a ha => by rw [hqueued a ha]; rfl
    rw [crits_append, crits_append, crits_conn, hnone, List.append_nil]
    exact h.pending_call hspec heof
  · refine List.pairwise_append.mpr ⟨List.pairwise_append.mpr ⟨?_, ?_, ?_⟩, ?_, ?_⟩
    · exact List.pairwise_of_forall_mem_list fun a ha b _ hd => by simp [hcalls a ha] at hd
    · exact (List.pairwise_cons.mp h.order).2
    · intro a ha b _ hd
      simp [hcalls a ha] at hd
    · exact List.pairwise_of_forall_mem_list fun a _ b hb _ => by rw [hqueued b hb]; rfl
    · intro a _ b hb _
      rw [hqueued b hb]
      rfl
  · rw [List.count_append, h.ups, hspec.ups]
  · rw [List.count_append, h.downs, hspec.downs]
  · have hle := hspec.closings
    have hcount := h.closings
    simp only [List.count_append]
    omega
  · have hcount := h.closeCallbacks
    have hcall := hspec.closeCallbacks
    have hmap : (out.calls.map ConnAct.conn).countP ConnAct.isCloseCallback =
        out.calls.countP ConnCall.isCloseCallback := by
      rw [List.countP_map]
      rfl
    have hnone : ((out.queued.flatMap ConnFunctor.body).map ConnAct.conn).countP
        ConnAct.isCloseCallback = 0 :=
      List.countP_eq_zero.mpr fun a ha => by rw [hqueued a ha]; decide
    simp only [List.count_append, List.countP_append, List.countP_cons, hmap, hnone] at hcount ⊢
    change _ + (_ + if k.isCloseCallback = true then 1 else 0) = _ at hcount
    omega

/-- What `epoll_wait` reports about the connection, as critical calls. -/
theorem crits_active {active : List ConnAct} (h : ∀ a ∈ active, w.reported a = true) :
    crits active = List.replicate (active.countP ConnAct.isDispatch) .event := by
  induction active with
  | nil => rfl
  | cons a rest ih =>
      have hrest := ih fun b hb => h b (List.mem_cons_of_mem _ hb)
      obtain rfl | rfl | ⟨revents, rfl⟩ := reported_cases (h a List.mem_cons_self)
      · rw [List.countP_cons_of_neg (by decide)]
        exact hrest
      · rw [crits_cons, hrest, List.countP_cons_of_neg (by decide)]
        rfl
      · rw [crits_cons, hrest, List.countP_cons_of_pos rfl, List.replicate_succ]
        rfl

/-- The kernel reports events of the connection only while it is in use. -/
theorem ConnInv.open_of_reported (hconn : ConnInv w work) {revents : Events}
    (h : w.reported (.conn (.handleEvent revents)) = true) : w.view.conn.state.Open := by
  simp only [Connection.reported] at h
  split at h
  · rename_i e hint
    have hreg := hconn.registered
    have hindex := hconn.inv.index
    apply StateE.open_of_ne
    · intro hs
      rw [hs] at hindex
      cases hidx : w.view.conn.channel.index with
      | kAdded => exact hindex hidx
      | kNew => simp [Registered, hidx, hint] at hreg
      | kDeleted => simp [Registered, hidx, hint] at hreg
    · intro hs
      rw [hs] at hindex
      simp [Registered, show w.view.conn.channel.index = .kNew from hindex, hint] at hreg
  · cases h

/-- A call that is neither critical nor the close callback, queued behind the others. -/
theorem CloseInv.queue {k : ConnCall} (h : CloseInv w work) (hcrit : k.crit = none)
    (hcb : k.isCloseCallback = false) : CloseInv w (work ++ [.conn k]) := by
  refine ⟨?_, ?_, h.ups, h.downs, h.closings, ?_⟩
  · rw [crits_append, crits_cons, hcrit]
    simpa [crits] using h.pending
  · refine List.pairwise_append.mpr ⟨h.order, List.pairwise_singleton _ _, ?_⟩
    intro a _ b hb _
    rw [List.mem_singleton.mp hb]
    exact hcrit
  · rw [List.countP_append, List.countP_cons_of_neg (by simpa [ConnAct.isCloseCallback] using hcb)]
    exact h.closeCallbacks

/-- The events of a poll: at most one of them is the connection's, and then it is in use. -/
theorem CloseInv.poll {active : List ConnAct} {cbs : List ConnFunctor} (h : CloseInv w work)
    (hconn : ConnInv w work) (hone : active.countP ConnAct.isDispatch ≤ 1)
    (hrep : ∀ a ∈ active, w.reported a = true)
    (hqueue : work = (cbs.flatMap ConnFunctor.body).map .conn) : CloseInv w (active ++ work) := by
  have hnone : crits work = [] := by
    rw [hqueue, crits_conn, List.filterMap_eq_nil_iff]
    intro k hk
    obtain ⟨f, -, hf⟩ := List.mem_flatMap.mp hk
    cases f <;> rw [List.mem_singleton.mp hf] <;> rfl
  have hactive := crits_active hrep
  refine ⟨?_, ?_, h.ups, h.downs, h.closings, ?_⟩
  · rw [crits_append, hnone, List.append_nil, hactive]
    rcases Nat.le_one_iff_eq_zero_or_eq_one.mp hone with hcount | hcount
    · rw [hcount]
      exact Or.inl rfl
    · rw [hcount]
      have hpos : 0 < active.countP ConnAct.isDispatch := by omega
      obtain ⟨a, ha, hd⟩ := List.countP_pos_iff.mp hpos
      have hopen : w.view.conn.state.Open := by
        obtain rfl | rfl | ⟨revents, rfl⟩ := reported_cases (hrep a ha)
        · cases hd
        · cases hd
        · exact hconn.open_of_reported (hrep _ ha)
      exact Or.inr (Or.inr ⟨hopen, Or.inl rfl⟩)
  · refine List.pairwise_append.mpr ⟨?_, h.order, ?_⟩
    · refine List.pairwise_of_forall_mem_list fun a ha b _ hd => ?_
      obtain rfl | rfl | ⟨revents, rfl⟩ := reported_cases (hrep a ha)
      · cases hd
      · cases hd
      · cases hd
    · intro a ha b hb _
      exact List.filterMap_eq_nil_iff.mp hnone b hb
  · have hzero : active.countP ConnAct.isCloseCallback = 0 := by
      rw [List.countP_eq_zero]
      intro a ha hcb
      obtain rfl | rfl | ⟨revents, rfl⟩ := reported_cases (hrep a ha)
      · cases hcb
      · cases hcb
      · cases hcb
    rw [List.countP_append, hzero, Nat.zero_add]
    exact h.closeCallbacks

theorem ConnStep.closeInv {s : ConnProcess} (hw : w = s.world) (hwork : work = s.work connApp ())
    (hstep : ConnStep w work label w' work') (heof : NoLateEof s label) (hconn : ConnInv w work)
    (h : CloseInv w work) : CloseInv w' work' := by
  cases hstep with
  | silent => exact h
  | poll hone hrep hqueue => exact h.poll hconn hone hrep hqueue
  | accepted htodo hann =>
      subst htodo
      refine ⟨h.pending, ?_, h.ups, h.downs, h.closings, h.closeCallbacks⟩
      exact List.pairwise_cons.mpr ⟨nofun, (List.pairwise_cons.mp h.order).2⟩
  | acceptedBefore htodo hann =>
      subst htodo
      exact ⟨h.pending, (List.pairwise_cons.mp h.order).2, h.ups, h.downs, h.closings,
        h.closeCallbacks⟩
  | @call k o tail v out htodo hcall =>
      subst htodo
      refine h.call (hconn.callSpec hcall) fun hk hs => ?_
      subst hk hw
      exact heof tail hwork.symm hs
  | announced hann =>
      have hq := h.queue (k := .connectEstablished) rfl rfl
      exact ⟨hq.pending, hq.order, hq.ups, hq.downs, hq.closings, hq.closeCallbacks⟩
  | sendPassed hidle hs hm =>
      refine ⟨h.pending, h.order, ?_, ?_, ?_, ?_⟩
      · simpa using h.ups
      · simpa using h.downs
      · simpa using h.closings
      · simpa using h.closeCallbacks
  | @sendQueued t s hheld =>
      have hq := h.queue (k := .sendInLoop (.thread t) (.ofString s)) rfl rfl
      exact ⟨hq.pending, hq.order, hq.ups, hq.downs, hq.closings, hq.closeCallbacks⟩
  | destroy hann hdes =>
      have hq := h.queue (k := .connectDestroyed) rfl rfl
      exact ⟨hq.pending, hq.order, hq.ups, hq.downs, hq.closings, hq.closeCallbacks⟩
  | queued => exact h.queue rfl rfl

end Invariant

/-! ### At most once -/

theorem reachable_closeInv {s : ConnProcess} (h : connApp.system.ReachableBy NoLateEof s) :
    ConnInv s.world (s.work connApp ()) ∧ CloseInv s.world (s.work connApp ()) :=
  conn_invariant h create_closeInv fun _ _ _ _ heof hconn hclose hstep =>
    hstep.closeInv rfl rfl heof hconn hclose

/-- The state moves forwards in every step from a state with the invariant. -/
theorem ConnStep.moves {w w' : Connection} {work work' : List ConnAct} {label : ConnLabel}
    (hstep : ConnStep w work label w' work') (hconn : ConnInv w work) :
    w.view.conn.state.Moves w'.view.conn.state := by
  cases hstep with
  | call hwork hcall =>
      subst hwork
      exact (hconn.callSpec hcall).moves
  | _ => exact Or.inl rfl

/-- **Closed at most once.** In every run in which no read on a closed connection gets end
of file: `handleClose` is only entered while the connection is in use, so its assertion
holds, and at most once; the state only moves forwards; the connection callback reports
the connection up exactly once, from `connectEstablished` on, and down at most once; the
close callback is invoked at most once. -/
theorem closed_at_most_once {s : ConnProcess} (h : connApp.system.ReachableBy NoLateEof s) :
    (∀ rest, (s.loops ()).todo = .conn .handleClose :: rest → s.world.view.conn.state.Open ∧
        ∀ o, connApp.call () (.conn .handleClose) o s.world ≠
          .error (.assertion .handleClose_connected)) ∧
      s.world.trace.count .closing ≤ 1 ∧
      (∀ label s', connApp.system.Next label s s' →
        s.world.view.conn.state.Moves s'.world.view.conn.state) ∧
      s.world.trace.count (.connectionCallback true) =
        (if s.world.view.conn.state = .kConnecting then 0 else 1) ∧
      s.world.trace.count (.connectionCallback false) ≤ 1 ∧
      s.world.trace.count .closeCallback ≤ 1 := by
  obtain ⟨hconn, hclose⟩ := reachable_closeInv h
  have hdowns : s.world.view.conn.state.downs ≤ 1 := by
    cases s.world.view.conn.state <;> decide
  have hclosings := hclose.closings
  have hcallbacks := hclose.closeCallbacks
  refine ⟨?_, by omega, ?_, ?_, ?_, by omega⟩
  · intro rest htodo
    have hopen : s.world.view.conn.state.Open := by
      have hpending := hclose.pending
      rw [Process.work, EventLoop.work, htodo, List.cons_append, crits_cons] at hpending
      rcases hpending with hp | ⟨-, hp⟩ | ⟨hopen, -⟩
      · cases hp
      · cases hp
      · exact hopen
    refine ⟨hopen, fun o herr => ?_⟩
    change s.world.call o (.conn .handleClose) = _ at herr
    obtain ⟨p', hset, -, -⟩ := setEvents_ok hconn.registered kNoneEvent
    have hopen' : s.world.view.conn.state = .kConnected ∨
      s.world.view.conn.state = .kDisconnecting := hopen
    simp [Connection.call, ConnView.call, ConnView.handleClose, check_of hopen', ConnView.setState,
      Channel.disableAll, hset] at herr
  · intro label s' hnext
    have hprog := (next_iff_steps.mp hnext).progress (reachable_queueInv h) (reachable_idle h)
    exact hprog.connStep.moves hconn
  · rw [hclose.ups]
    cases s.world.view.conn.state <;> rfl
  · rw [hclose.downs]
    exact hdowns

/-- The dispatch of `POLLHUP` and `POLLPRI`, up to the end of file its read gets. -/
def lateEofRun : List ConnLabel :=
  establishing ++
    [.poll () [.conn (.handleEvent (POLLHUP ||| POLLPRI))], .call () .quiet, .call () .quiet,
      .call () .quiet, .call () { Oracle.quiet with read := .deliver [] }]

/-- With `POLLHUP` and `POLLPRI` but without `POLLIN`, a dispatch closes the connection and
then reads; end of file enters `handleClose` again, and its assertion fails. -/
theorem late_eof_closes_twice :
    ∃ s : ConnProcess, connApp.system.Reachable s ∧
      s.world.trace.count .closing = 1 ∧
      connApp.system.Fails (.call () .quiet) s (.assertion .handleClose_connected) := by
  obtain ⟨s, hs, hp⟩ := System.exists_reachable_of_replay connApp.system lateEofRun connStart
    (fun s => s.world.trace.count .closing == 1 &&
      connApp.system.fault (.call () .quiet) s == some (.assertion .handleClose_connected))
    connStart_init (by decide +kernel)
  simp only [Bool.and_eq_true, beq_iff_eq] at hp
  exact ⟨s, hs, hp.1, System.fails_of_fault hp.2⟩

/-- The same dispatch when the read has nothing to deliver: the connection is closed once. -/
theorem closed_at_most_once_hangup :
    ∃ s : ConnProcess, connApp.system.ReachableBy NoLateEof s ∧
      s.world.view.conn.state = .kDisconnected ∧ s.world.trace.count .closeCallback = 1 ∧
      s.world.trace.count (.connectionCallback true) = 1 := by
  have hok : ∀ label ∈ establishing ++ [.poll () [.conn (.handleEvent (POLLHUP ||| POLLPRI))],
      .call () .quiet, .call () .quiet, .call () .quiet, .call () .quiet], ∀ s,
      NoLateEof s label := by
    intro label hlabel s
    cases label with
    | call l o =>
        have hquiet : o = .quiet := by
          simpa [establishing] using hlabel
        intro _ _ _
        rw [hquiet]
        exact nofun
    | _ => exact trivial
  obtain ⟨s, hs, hp⟩ := System.exists_reachableBy_of_replay connApp.system (fun _ _ => true) _
    connStart
    (fun s => s.world.view.conn.state == .kDisconnected &&
      s.world.trace.count .closeCallback == 1)
    connStart_init (fun label hlabel s _ _ => hok label hlabel s) (by decide +kernel)
  simp only [Bool.and_eq_true, beq_iff_eq] at hp
  obtain ⟨-, -, -, hups, -, -⟩ := closed_at_most_once hs
  rw [hp.1] at hups
  exact ⟨s, hs, hp.1, hp.2, hups⟩

end Reactor
