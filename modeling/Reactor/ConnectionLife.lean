import Reactor.TcpServerSteps

/-!
# The life of a connection in a server

A connection goes through seven stages. What moves it on is always a single call or functor
to come: `connectEstablished` after `newConnection`, the close callback at the end of
`handleClose`, `removeConnectionInLoop` on the base loop, `connectDestroyed` on the
connection's own loop, and `Channel::remove` at its end.

* `Stage` - the stages, with what an observer has seen and what is to come.
* `Share.Life`, `Turn.ok` - every turn of a connection keeps it in one of the stages, with
  its calls to come on its own loop. `Share.Sound` is the part that does not depend on the
  stages.
* `ServerInv`, `reachable_serverInv` - that holds of every connection in every reachable
  state, and no channel is registered or dispatched before `connectEstablished`.
-/

namespace Reactor

open Reactor.Lib

variable {n : Nat}

/-! ### Stages -/

/-- The stages of an accepted connection. -/
inductive Stage where
  | announced
  | opened
  | closed
  | leaving
  | erased
  | destroying
  | destroyed
deriving DecidableEq, Repr

/-- The observations that end a stage. -/
def Obs.isLife : Obs → Bool
  | .established => true
  | .closing => true
  | .closeCallback => true
  | .erased => true
  | .destroying => true
  | .destroyed => true
  | _ => false

/-- The stages a trace has gone through. -/
def life (tr : List Obs) : List Obs := tr.filter Obs.isLife

/-- The calls that move a connection from stage to stage. -/
def ConnCall.isToken : ConnCall → Bool
  | .connectEstablished => true
  | .closeCallback => true
  | .connectDestroyed => true
  | .channelRemove => true
  | _ => false

def tokens (ks : List ConnCall) : List ConnCall := ks.filter ConnCall.isToken

namespace Stage

/-- What an observer has seen. -/
def life : Stage → List Obs
  | announced => []
  | opened => [.established]
  | closed => [.established, .closing]
  | leaving => [.established, .closing, .closeCallback]
  | erased => [.established, .closing, .closeCallback, .erased]
  | destroying => [.established, .closing, .closeCallback, .erased, .destroying]
  | destroyed => [.established, .closing, .closeCallback, .erased, .destroying, .destroyed]

/-- The call to come that ends the stage. -/
def tokens : Stage → List ConnCall
  | announced => [.connectEstablished]
  | closed => [.closeCallback]
  | erased => [.connectDestroyed]
  | destroying => [.channelRemove]
  | _ => []

/-- The removals to come on the base loop. -/
def removals : Stage → Nat
  | leaving => 1
  | _ => 0

/-- The states of the connection in the stage. -/
def Allows : Stage → StateE → Prop
  | announced, s => s = .kConnecting
  | opened, s => s.Open
  | _, s => s = .kDisconnected

end Stage

@[simp] theorem life_append (tr tr' : List Obs) : life (tr ++ tr') = life tr ++ life tr' :=
  List.filter_append ..

@[simp] theorem tokens_append (ks ks' : List ConnCall) :
    tokens (ks ++ ks') = tokens ks ++ tokens ks' := List.filter_append ..

@[simp] theorem tokens_user (calls : List UserCall) : tokens (calls.map .user) = [] := by
  simp [tokens, ConnCall.isToken]

theorem mem_life {x : Obs} (hx : x.isLife = true) {tr : List Obs} : x ∈ life tr ↔ x ∈ tr := by
  simp [life, List.mem_filter, hx]

/-! ### What a call does to the stage -/

section Calls

variable {C : Type} [DecidableEq C] {v v' : ConnView C} {o : Oracle} {k : ConnCall} {out : Out}

/-- What a call observes of the stages, which calls it adds, and how the state moves. -/
inductive LifeStep : ConnCall → StateE → StateE → List Obs → List ConnCall → Prop where
  | connectEstablished :
      LifeStep .connectEstablished .kConnecting .kConnected [.established] []
  | handleClose {s : StateE} : s.Open →
      LifeStep .handleClose s .kDisconnected [.closing] [.closeCallback]
  | closeCallback {s : StateE} : LifeStep .closeCallback s s [.closeCallback] []
  | disconnect :
      LifeStep .connectDestroyed .kConnected .kDisconnected [.destroying] [.channelRemove]
  | connectDestroyed {s : StateE} : s ≠ .kConnected →
      LifeStep .connectDestroyed s s [.destroying] [.channelRemove]
  | channelRemove {s : StateE} : LifeStep .channelRemove s s [.destroyed] []
  | shutdown {k : ConnCall} : k.isToken = false →
      LifeStep k .kConnected .kDisconnecting [] []
  | other {k : ConnCall} {s : StateE} : k.isToken = false → LifeStep k s s [] []

/-- No call erases the connection from the map. -/
theorem LifeStep.not_erased {s s' : StateE} {obs : List Obs} {calls : List ConnCall}
    (h : LifeStep k s s' obs calls) : .erased ∉ obs := by
  cases h <;> simp

/-- No call makes `connectDestroyed`, and only `connectDestroyed` begins to destroy the
connection and removes the channel. -/
theorem LifeStep.destroys {s s' : StateE} {obs : List Obs} {calls : List ConnCall}
    (h : LifeStep k s s' obs calls) :
    .connectDestroyed ∉ calls ∧ (.channelRemove ∈ calls → k = .connectDestroyed) ∧
      (.destroying ∈ obs → k = .connectDestroyed) := by
  cases h <;> simp

theorem isToken_of_inFlight {m : Sender × Bytes} (h : k.inFlight = some m) :
    k.isToken = false := by
  cases k <;> simp_all [ConnCall.inFlight, ConnCall.isToken]

theorem tokens_handleEvent (ch : Channel) (lock : Bool) (revents : Events) :
    tokens (ch.handleEvent lock revents) = [] := by
  rw [tokens, List.filter_eq_nil_iff]
  intro k hk
  rcases mem_handleEvent hk with rfl | rfl | rfl | rfl | rfl <;> simp [ConnCall.isToken]

theorem CallSpec.life (h : CallSpec v o k v' out) :
    LifeStep k v.conn.state v'.conn.state (life out.obs) (tokens out.calls) := by
  cases h with
  | send m hs =>
      cases m <;> exact .other rfl
  | shutdown hs =>
      rw [hs]
      have hnone : life (.shutdown :: v.shutdownInLoop) = [] := by
        unfold ConnView.shutdownInLoop
        split <;> rfl
      rw [hnone]
      exact .shutdown rfl
  | userCode =>
      rw [tokens_user]
      exact .other rfl
  | gaveUp hk => exact .other (isToken_of_inFlight hk)
  | tookNothing hk => exact .other (isToken_of_inFlight hk)
  | took hk => exact .other (isToken_of_inFlight hk)
  | handleEvent =>
      rw [tokens_handleEvent]
      exact .other rfl
  | readData =>
      rw [tokens_user]
      exact .other rfl
  | writeAll =>
      split <;> exact .other rfl
  | handleClose hs =>
      rw [tokens_append, tokens_user]
      exact .handleClose hs
  | connectEstablished hs =>
      rw [tokens_user, hs]
      exact .connectEstablished
  | disconnect hs =>
      rw [tokens_append, tokens_user, hs]
      exact .disconnect
  | connectDestroyed hs => exact .connectDestroyed hs
  | closeCallback => exact .closeCallback
  | channelRemove => exact .channelRemove
  | _ => exact .other rfl

/-- Only a dispatch observes an event. -/
theorem CallSpec.event_mem (h : CallSpec v o k v' out) {revents : Events}
    (hmem : .event revents ∈ out.obs) : k = .handleEvent revents := by
  cases h with
  | handleEvent =>
      cases List.mem_singleton.mp hmem
      rfl
  | shutdown =>
      unfold ConnView.shutdownInLoop at hmem
      split at hmem <;> simp at hmem
  | writeAll => split at hmem <;> simp at hmem
  | _ => simp at hmem

/-- No call makes another dispatch. -/
theorem CallSpec.calls_dispatch (h : CallSpec v o k v' out) (revents : Events) :
    .handleEvent revents ∉ out.calls := by
  cases h with
  | send m => cases m <;> simp [Message.loopCall]
  | handleEvent =>
      intro hk
      rcases mem_handleEvent hk with h | h | h | h | h <;> cases h
  | _ => simp

/-- A message in flight on the loop's thread has the loop as its sender. -/
theorem CallSpec.calls_sender (h : CallSpec v o k v' out) (t : Nat) (message : StringPiece) :
    .sendInLoop (.thread t) message ∉ out.calls := by
  cases h with
  | send m => cases m <;> simp [Message.loopCall]
  | handleEvent =>
      intro hk
      rcases mem_handleEvent hk with h | h | h | h | h <;> cases h
  | _ => simp

/-- What a call enters into the poller is the connection's own channel, and the connection
is established then. -/
theorem CallSpec.interest (h : CallSpec v o k v' out) (hinv : v.conn.Inv)
    (htime : k.Timely v.conn.state) {fd : Int} {e : EpollEvent C}
    (he : v'.poller.interest fd = some e) :
    v.poller.interest fd = some e ∨ e.ptr = v.self ∧ v'.conn.state ≠ .kConnecting := by
  cases h with
  | @took k sender data b cp hk hs hdata hwf hcontent hcp =>
      rcases hcp with ⟨-, rfl⟩ | ⟨-, hset⟩
      · exact Or.inl he
      · exact (setEvents_interest hset he).imp id fun h => ⟨h, htime (by simp [hk])⟩
  | writeAll hw _ _ hwf hsplit hempty hset =>
      exact (setEvents_interest hset he).imp id fun h => ⟨h, (hinv.open_of_isWriting hw).ne_connecting⟩
  | handleClose hs hset =>
      exact (setEvents_interest hset he).imp id fun h => ⟨h, StateE.noConfusion⟩
  | connectEstablished hs hset =>
      exact (setEvents_interest hset he).imp id fun h => ⟨h, StateE.noConfusion⟩
  | disconnect hs hset =>
      exact (setEvents_interest hset he).imp id fun h => ⟨h, StateE.noConfusion⟩
  | channelRemove hrem => exact Or.inl (remove_interest hrem he)
  | _ => exact Or.inl he

end Calls

theorem tokens_cons_of {k : ConnCall} (h : k.isToken = true) (ks : List ConnCall) :
    tokens (k :: ks) = k :: tokens ks := List.filter_cons_of_pos h

theorem tokens_cons_none {k : ConnCall} (h : k.isToken = false) (ks : List ConnCall) :
    tokens (k :: ks) = tokens ks := List.filter_cons_of_neg (by simp [h])

/-- Each stage has at most one token, and each token belongs to one stage. -/
theorem Stage.of_tokens {g : Stage} {k : ConnCall} {ks : List ConnCall} (h : k :: ks = g.tokens) :
    ks = [] ∧ (k = .connectEstablished ∧ g = .announced ∨ k = .closeCallback ∧ g = .closed ∨
      k = .connectDestroyed ∧ g = .erased ∨ k = .channelRemove ∧ g = .destroying) := by
  cases g <;> simp_all [Stage.tokens]

theorem Stage.Allows.opened {g : Stage} {s : StateE} (h : g.Allows s) (hs : s.Open) :
    g = .opened := by
  cases g <;> rcases hs with rfl | rfl <;> simp_all [Stage.Allows]

/-- A call moves the connection to the next stage or leaves it in its stage. -/
theorem LifeStep.stage {k : ConnCall} {s s' : StateE} {obs : List Obs}
    {calls tail : List ConnCall} {g : Stage} (h : LifeStep k s s' obs calls)
    (htokens : tokens (k :: tail) = g.tokens) (hs : g.Allows s) :
    ∃ g' : Stage, g.life ++ obs = g'.life ∧ calls ++ tokens tail = g'.tokens ∧
      g.removals + k.removals = g'.removals ∧ g'.Allows s' := by
  cases h with
  | connectEstablished =>
      rw [tokens_cons_of rfl] at htokens
      obtain ⟨htail, ⟨-, rfl⟩ | ⟨hk, -⟩ | ⟨hk, -⟩ | ⟨hk, -⟩⟩ := Stage.of_tokens htokens
      · exact ⟨.opened, rfl, by rw [htail]; rfl, rfl, Or.inl rfl⟩
      all_goals cases hk
  | handleClose hopen =>
      obtain rfl := hs.opened hopen
      rw [tokens_cons_none rfl] at htokens
      exact ⟨.closed, rfl, by rw [htokens]; rfl, rfl, rfl⟩
  | closeCallback =>
      rw [tokens_cons_of rfl] at htokens
      obtain ⟨htail, ⟨hk, -⟩ | ⟨-, rfl⟩ | ⟨hk, -⟩ | ⟨hk, -⟩⟩ := Stage.of_tokens htokens
      · cases hk
      · exact ⟨.leaving, rfl, by rw [htail]; rfl, rfl, hs⟩
      all_goals cases hk
  | disconnect =>
      -- nothing calls `connectDestroyed` on a connection that is in use
      obtain rfl := hs.opened (Or.inl rfl)
      rw [tokens_cons_of rfl] at htokens
      cases htokens
  | connectDestroyed hne =>
      rw [tokens_cons_of rfl] at htokens
      obtain ⟨htail, ⟨hk, -⟩ | ⟨hk, -⟩ | ⟨-, rfl⟩ | ⟨hk, -⟩⟩ := Stage.of_tokens htokens
      · cases hk
      · cases hk
      · exact ⟨.destroying, rfl, by rw [htail]; rfl, rfl, hs⟩
      · cases hk
  | channelRemove =>
      rw [tokens_cons_of rfl] at htokens
      obtain ⟨htail, ⟨hk, -⟩ | ⟨hk, -⟩ | ⟨hk, -⟩ | ⟨-, rfl⟩⟩ := Stage.of_tokens htokens
      · cases hk
      · cases hk
      · cases hk
      · exact ⟨.destroyed, rfl, by rw [htail]; rfl, rfl, hs⟩
  | shutdown hk =>
      obtain rfl := hs.opened (Or.inl rfl)
      rw [tokens_cons_none hk] at htokens
      refine ⟨.opened, rfl, htokens, ?_, Or.inr rfl⟩
      cases k <;> simp_all [ConnCall.isToken, ConnCall.removals]
  | other hk =>
      rw [tokens_cons_none hk] at htokens
      refine ⟨g, List.append_nil _, htokens, ?_, hs⟩
      cases k <;> simp_all [ConnCall.isToken, ConnCall.removals]

/-- What a call queues contains no tokens. -/
theorem CallSpec.queued_tokens {C : Type} [DecidableEq C] {v v' : ConnView C} {o : Oracle}
    {k : ConnCall} {out : Out} (h : CallSpec v o k v' out) :
    tokens (out.queued.flatMap ConnFunctor.body) = [] := by
  rw [tokens, List.filter_eq_nil_iff]
  intro k' hk'
  rw [h.queued_body k' hk']
  exact Bool.false_ne_true

theorem tokens_dispatch (rs : List Events) : tokens (rs.map .handleEvent) = [] := by
  simp [tokens, ConnCall.isToken]

/-! ### The share of a connection -/

/-- Every event in the trace stands after `established`. -/
def EventsLater (tr : List Obs) : Prop :=
  ∀ pre revents post, tr = pre ++ .event revents :: post → .established ∈ pre

theorem EventsLater.append {tr obs : List Obs} (h : EventsLater tr)
    (hobs : .established ∈ tr ∨ ∀ revents, .event revents ∉ obs) : EventsLater (tr ++ obs) := by
  intro pre revents post heq
  rcases List.append_eq_append_iff.mp heq with ⟨mid, rfl, hmid⟩ | ⟨mid, htr, hmid⟩
  · rcases hobs with hobs | hobs
    · exact List.mem_append_left _ hobs
    · exact absurd (by simp [hmid]) (hobs revents)
  · cases mid with
    | nil =>
        rw [List.append_nil] at htr
        rcases hobs with hobs | hobs
        · exact htr ▸ hobs
        · rw [List.nil_append] at hmid
          exact absurd (by simp [← hmid]) (hobs revents)
    | cons x rest =>
        rw [List.cons_append, List.cons.injEq] at hmid
        obtain ⟨rfl, -⟩ := hmid
        exact h pre revents rest htr

/-- What holds of an accepted connection in every stage, and whatever becomes of the server:
its fields agree, its calls to come are on its own loop, and no message and no event concerns
it before it is established. -/
structure Share.Sound (p : Share n) : Prop where
  inv : p.record.conn.Inv
  sized : ∀ l, ∀ k ∈ p.calls l, k.Sized
  held : ∀ t s, p.sending t = some s → s.length ≤ maxSize
  here : ∀ l, l ≠ p.record.loop → p.calls l = []
  early : p.record.conn.state = .kConnecting →
    (∀ k ∈ p.calls p.record.loop, k.inFlight = none ∧ ∀ revents, k ≠ .handleEvent revents) ∧
      ∀ t, p.sending t = none

/-- The connection is in one of the stages, with its removal on the base loop. -/
structure Share.Staged (p : Share n) : Prop where
  base : ∀ l, l ≠ 0 → p.removals l = 0
  stage : ∃ g : Stage, life p.record.trace = g.life ∧ tokens (p.calls p.record.loop) = g.tokens ∧
    p.removals 0 = g.removals ∧ g.Allows p.record.conn.state
  ordered : EventsLater p.record.trace

/-- An accepted connection is in one of the stages, with its calls to come on its own loop
and its removal on the base loop, and nothing but `connectEstablished` and user code
concerns it before it is established. -/
structure Share.Life (p : Share n) : Prop where
  inv : p.record.conn.Inv
  sized : ∀ l, ∀ k ∈ p.calls l, k.Sized
  held : ∀ t s, p.sending t = some s → s.length ≤ maxSize
  here : ∀ l, l ≠ p.record.loop → p.calls l = []
  base : ∀ l, l ≠ 0 → p.removals l = 0
  early : p.record.conn.state = .kConnecting →
    (∀ k ∈ p.calls p.record.loop, k.inFlight = none ∧ ∀ revents, k ≠ .handleEvent revents) ∧
      ∀ t, p.sending t = none
  stage : ∃ g : Stage, life p.record.trace = g.life ∧ tokens (p.calls p.record.loop) = g.tokens ∧
    p.removals 0 = g.removals ∧ g.Allows p.record.conn.state
  ordered : EventsLater p.record.trace

theorem Share.life_iff {p : Share n} : p.Life ↔ p.Sound ∧ p.Staged := by
  constructor
  · intro h
    exact ⟨⟨h.inv, h.sized, h.held, h.here, h.early⟩, ⟨h.base, h.stage, h.ordered⟩⟩
  · rintro ⟨h, hs⟩
    exact ⟨h.inv, h.sized, h.held, h.here, hs.base, h.early, hs.stage, hs.ordered⟩

/-- A connection that was not accepted is blank, an accepted one is in its life. -/
structure Share.Ok (p : Share n) : Prop where
  blank : p.born = false → p.Blank
  life : p.born = true → p.Life

section Turns

variable {p p' : Share n} {label : ServerLabel n}

/-- After `connectEstablished` the trace says so. -/
theorem Share.Staged.established (h : p.Staged) (hs : p.record.conn.state ≠ .kConnecting) :
    .established ∈ p.record.trace := by
  obtain ⟨g, hlife, -, -, hg⟩ := h.stage
  rw [← mem_life rfl, hlife]
  cases g with
  | announced => exact absurd hg hs
  | _ => simp [Stage.life]

/-- A call queued behind the others. -/
theorem Share.Sound.queue {k : ConnCall} (h : p.Sound) (hsize : k.Sized)
    (hearly : p.record.conn.state = .kConnecting →
      k.inFlight = none ∧ ∀ revents, k ≠ .handleEvent revents) :
    Share.Sound { p with
      calls := Function.update p.calls p.record.loop (p.calls p.record.loop ++ [k]) } where
  inv := h.inv
  held := h.held
  sized := by
    intro l k' hk'
    simp only [Function.update_apply] at hk'
    split at hk'
    · rcases List.mem_append.mp hk' with hk' | hk'
      · exact h.sized _ k' hk'
      · rw [List.mem_singleton.mp hk']
        exact hsize
    · exact h.sized l k' hk'
  here := by
    intro l hl
    simp only [Function.update_of_ne hl]
    exact h.here l hl
  early := by
    intro hs
    refine ⟨fun k' hk' => ?_, (h.early hs).2⟩
    simp only [Function.update_self] at hk'
    rcases List.mem_append.mp hk' with hk' | hk'
    · exact (h.early hs).1 k' hk'
    · rw [List.mem_singleton.mp hk']
      exact hearly hs

theorem Share.Sound.called {o : ServerOracle} {k : ConnCall} {tail : List ConnCall}
    {v v' : ConnView ChannelPtr} {out : Out} (h : p.Sound)
    (hcalls : p.calls p.record.loop = k :: tail) (hv : v.conn = p.record.conn)
    (hspec : CallSpec v o.toOracle k v' out) :
    Share.Sound { p with
      record := { p.record with conn := v'.conn, trace := p.record.trace ++ out.obs }
      calls := Function.update p.calls p.record.loop
        (out.calls ++ tail ++ out.queued.flatMap ConnFunctor.body)
      removals := fun l => p.removals l + if l = 0 then k.removals else 0 } where
  inv := by
    apply hspec.inv (hv ▸ h.inv)
    intro hk hs
    rw [hv] at hs
    exact hk ((h.early hs).1 k (by simp [hcalls])).1
  held := h.held
  sized := by
    intro l k' hk'
    simp only [Function.update_apply] at hk'
    split at hk'
    · simp only [List.mem_append] at hk'
      rcases hk' with (hk' | hk') | hk'
      · exact hspec.calls_sized k' hk'
      · exact h.sized p.record.loop k' (by simp [hcalls, hk'])
      · rw [hspec.queued_body k' hk']
        exact trivial
    · exact h.sized l k' hk'
  here := by
    intro l hl
    simp only [Function.update_of_ne hl]
    exact h.here l hl
  early := by
    intro hs'
    have hs : v.conn.state = .kConnecting := hspec.moves.connecting hs'
    obtain ⟨hnone, hsending⟩ := h.early (hv ▸ hs)
    have hk := hnone k (by simp [hcalls])
    have hflight : out.calls.filterMap ConnCall.inFlight = [] := by
      rcases hspec.sends with ⟨-, -, -, hc⟩ | ⟨m, -, hc, -⟩ | ⟨m, hm, -⟩ | ⟨m, hm, -⟩
      · exact hc
      · cases hs.symm.trans hc
      · cases hk.1.symm.trans hm
      · cases hk.1.symm.trans hm
    refine ⟨fun k' hk' => ?_, hsending⟩
    simp only [Function.update_self, List.mem_append] at hk'
    rcases hk' with (hk' | hk') | hk'
    · refine ⟨List.filterMap_eq_nil_iff.mp hflight k' hk', ?_⟩
      rintro revents rfl
      exact hspec.calls_dispatch revents hk'
    · exact hnone k' (by simp [hcalls, hk'])
    · rw [hspec.queued_body k' hk']
      exact ⟨rfl, by simp⟩

/-- A connection that has just been accepted. -/
theorem newborn_sound (l : LoopId n) (sockfd : Int) (name : List Char) :
    Share.Sound ⟨true, ⟨.create sockfd true, l, name, []⟩,
      Function.update (fun _ => []) l [.connectEstablished], fun _ => 0, fun _ => none⟩ where
  inv := TcpConnection.create_inv _ _
  sized := by
    intro l' k hk
    simp only [Function.update_apply] at hk
    split at hk
    · rw [List.mem_singleton.mp hk]
      exact trivial
    · cases hk
  held := by simp
  here := by
    intro l' hl'
    simp only [Function.update_of_ne hl']
  early := by simp [ConnCall.inFlight]

/-- An established connection gets its events on its own loop. -/
theorem Share.Sound.dispatched {l : LoopId n} {rs : List Events} (h : p.Sound)
    (hrs : rs ≠ [] → l = p.record.loop ∧ p.record.conn.state ≠ .kConnecting) :
    Share.Sound { p with
      calls := Function.update p.calls l (rs.map .handleEvent ++ p.calls l) } := by
  by_cases hnil : rs = []
  · simpa [hnil, Function.update_eq_self] using h
  obtain ⟨rfl, hs⟩ := hrs hnil
  refine ⟨h.inv, ?_, h.held, ?_, fun hc => absurd hc hs⟩
  · intro l k hk
    simp only [Function.update_apply] at hk
    split at hk
    · rcases List.mem_append.mp hk with hk | hk
      · obtain ⟨r, -, rfl⟩ := List.mem_map.mp hk
        exact trivial
      · exact h.sized _ k hk
    · exact h.sized l k hk
  · intro l hl
    simp only [Function.update_of_ne hl]
    exact h.here l hl

/-- What a turn that makes a call has made of the connection. -/
theorem Share.Sound.callSpec {o : ServerOracle} {k : ConnCall} {tail : List ConnCall}
    {v v' : ConnView ChannelPtr} {out : Out} (h : p.Sound)
    (hcalls : p.calls p.record.loop = k :: tail) (hv : v.conn = p.record.conn)
    (hcall : v.call k o.toOracle = .ok (v', out)) :
    k.Timely v.conn.state ∧ CallSpec v o.toOracle k v' out := by
  have hk : k ∈ p.calls p.record.loop := by
    rw [hcalls]
    exact List.mem_cons_self
  constructor
  · intro hflight hs
    rw [hv] at hs
    exact hflight ((h.early hs).1 k hk).1
  · exact call_spec (hv ▸ h.inv) (h.sized _ k hk) hcall

/-- Every turn keeps the connection sound. -/
theorem Turn.sound (hturn : Turn label p p') (hblank : p.born = false → p.Blank)
    (h : p.born = true → p.Sound) :
    (p'.born = false → p'.Blank) ∧ (p'.born = true → p'.Sound) := by
  cases hturn with
  | idle => exact ⟨hblank, h⟩
  | accepted l sockfd name => exact ⟨fun hc => (by cases hc), fun _ => newborn_sound l sockfd name⟩
  | dispatched rs hrs =>
      constructor
      · intro hb
        -- nothing is dispatched to a connection that was not accepted
        have hnil : rs = [] := by
          by_contra hne
          cases hb.symm.trans (hrs hne).1
        simpa [hnil, Function.update_eq_self] using hblank hb
      · intro hb
        exact (h hb).dispatched fun hne => (hrs hne).2
  | called hcalls hv hcall =>
      constructor
      · intro hb
        cases ((hblank hb).calls _).symm.trans hcalls
      · intro hb
        exact (h hb).called hcalls hv ((h hb).callSpec hcalls hv hcall).2
  | removed hm =>
      constructor
      · intro hb
        cases ((hblank hb).removals 0).symm.trans hm
      · intro hb
        have hq := (h hb).queue (k := .connectDestroyed) trivial fun _ => ⟨rfl, by simp⟩
        exact ⟨hq.inv, hq.sized, hq.held, hq.here, hq.early⟩
  | @sendPassed _ t m s hs hm =>
      constructor
      · intro hb
        cases ((hblank hb).state).symm.trans hs
      · intro hb
        refine ⟨(h hb).inv, (h hb).sized, ?_, (h hb).here, ?_⟩
        · intro t' s' hs'
          simp only [Function.update_apply] at hs'
          split at hs'
          · cases hs'
            exact Message.length_boundString_le hm
          · exact (h hb).held t' s' hs'
        · intro hc
          cases hs.symm.trans hc
  | @sendQueued _ t s hsend =>
      constructor
      · intro hb
        cases ((hblank hb).sending t).symm.trans hsend
      · intro hb
        have hq := (h hb).queue (k := .sendInLoop (.thread t) (.ofString s))
          ((h hb).held t s hsend) (fun hs => by
            cases (((h hb).early hs).2 t).symm.trans hsend)
        refine ⟨hq.inv, hq.sized, ?_, hq.here, ?_⟩
        · intro t' s' hs'
          simp only [Function.update_apply] at hs'
          split at hs'
          · cases hs'
          · exact hq.held t' s' hs'
        · intro hs
          cases ((hq.early hs).2 t).symm.trans hsend
  | userQueued hb =>
      refine ⟨fun hb' => ?_, fun _ => ?_⟩
      · cases hb.symm.trans hb'
      · exact (h hb).queue (k := .userCode) trivial fun _ => ⟨rfl, by simp⟩

/-- Calls queued behind the others that are no tokens leave the connection in its stage. -/
theorem Share.Staged.queue {k : ConnCall} (h : p.Staged) (hk : k.isToken = false) :
    Share.Staged { p with
      calls := Function.update p.calls p.record.loop (p.calls p.record.loop ++ [k]) } where
  base := h.base
  ordered := h.ordered
  stage := by
    obtain ⟨g, hlife, htokens, hrest⟩ := h.stage
    refine ⟨g, hlife, ?_, hrest⟩
    simp only [Function.update_self, tokens_append, htokens]
    rw [tokens_cons_none hk]
    exact List.append_nil _

theorem Share.Staged.called {o : ServerOracle} {k : ConnCall} {tail : List ConnCall}
    {v v' : ConnView ChannelPtr} {out : Out} (h : p.Staged) (hsound : p.Sound)
    (hcalls : p.calls p.record.loop = k :: tail) (hv : v.conn = p.record.conn)
    (hspec : CallSpec v o.toOracle k v' out) :
    Share.Staged { p with
      record := { p.record with conn := v'.conn, trace := p.record.trace ++ out.obs }
      calls := Function.update p.calls p.record.loop
        (out.calls ++ tail ++ out.queued.flatMap ConnFunctor.body)
      removals := fun l => p.removals l + if l = 0 then k.removals else 0 } where
  base := by
    intro l hl
    simp [hl, h.base l hl]
  stage := by
    obtain ⟨g, hlife, htokens, hremovals, hs⟩ := h.stage
    rw [hcalls] at htokens
    have hstep := hspec.life
    rw [hv] at hstep
    obtain ⟨g', hlife', htokens', hremovals', hs'⟩ := hstep.stage htokens hs
    refine ⟨g', ?_, ?_, ?_, hs'⟩
    · simp only [life_append, hlife, hlife']
    · simp only [Function.update_self, tokens_append, hspec.queued_tokens, List.append_nil,
        htokens']
    · simp only [if_true, hremovals, hremovals']
  ordered := by
    apply h.ordered.append
    by_cases hs : p.record.conn.state = .kConnecting
    · right
      intro revents hmem
      exact ((hsound.early hs).1 k (by simp [hcalls])).2 revents (hspec.event_mem hmem)
    · exact Or.inl (h.established hs)

theorem Share.Staged.removed {m : Nat} (h : p.Staged) (hm : p.removals 0 = m + 1) :
    Share.Staged { p with
      record := { p.record with trace := p.record.trace ++ [.erased] }
      calls := Function.update p.calls p.record.loop
        (p.calls p.record.loop ++ [.connectDestroyed])
      removals := Function.update p.removals 0 m } := by
  obtain ⟨g, hlife, htokens, hremovals, hs⟩ := h.stage
  have hg : g = .leaving ∧ m = 0 := by
    rw [hm] at hremovals
    cases g <;> simp_all [Stage.removals]
  obtain ⟨rfl, rfl⟩ := hg
  refine ⟨?_, ?_, ?_⟩
  · intro l hl
    simp only [Function.update_of_ne hl]
    exact h.base l hl
  · refine ⟨.erased, ?_, ?_, ?_, hs⟩
    · simp only [life_append, hlife]
      rfl
    · simp only [Function.update_self, tokens_append, htokens]
      rfl
    · simp [Stage.removals]
  · exact h.ordered.append (Or.inr (by simp))

theorem newborn_staged (l : LoopId n) (sockfd : Int) (name : List Char) :
    Share.Staged ⟨true, ⟨.create sockfd true, l, name, []⟩,
      Function.update (fun _ => []) l [.connectEstablished], fun _ => 0, fun _ => none⟩ where
  base := by simp
  stage := ⟨.announced, rfl, by simp [tokens, ConnCall.isToken, Stage.tokens], rfl, rfl⟩
  ordered := by simp [EventsLater]

theorem Share.Staged.dispatched {l : LoopId n} {rs : List Events} (h : p.Staged)
    (hrs : rs ≠ [] → l = p.record.loop) :
    Share.Staged { p with
      calls := Function.update p.calls l (rs.map .handleEvent ++ p.calls l) } := by
  by_cases hnil : rs = []
  · simpa [hnil, Function.update_eq_self] using h
  obtain rfl := hrs hnil
  refine ⟨h.base, ?_, h.ordered⟩
  obtain ⟨g, htrace, htokens, hrest⟩ := h.stage
  refine ⟨g, htrace, ?_, hrest⟩
  simp only [Function.update_self]
  rw [tokens_append, tokens_dispatch, List.nil_append, htokens]

/-- Every turn keeps the connection in one of the stages. -/
theorem Turn.staged (hturn : Turn label p p') (hsound : p.born = true → p.Sound)
    (h : p.born = true → p.Staged) (hb' : p'.born = true) : p'.Staged := by
  cases hturn with
  | idle => exact h hb'
  | accepted l sockfd name => exact newborn_staged l sockfd name
  | dispatched rs hrs => exact (h hb').dispatched fun hne => (hrs hne).2.1
  | called hcalls hv hcall =>
      exact (h hb').called (hsound hb') hcalls hv ((hsound hb').callSpec hcalls hv hcall).2
  | removed hm => exact (h hb').removed hm
  | @sendPassed _ t m s hs hm =>
      obtain ⟨g, hlife, hrest⟩ := (h hb').stage
      refine ⟨(h hb').base, ⟨g, ?_, hrest⟩, (h hb').ordered.append (Or.inr (by simp))⟩
      simpa [life, Obs.isLife] using hlife
  | @sendQueued _ t s =>
      have hq := (h hb').queue (k := .sendInLoop (.thread t) (.ofString s)) rfl
      exact ⟨hq.base, hq.stage, hq.ordered⟩
  | userQueued hb => exact (h hb').queue (k := .userCode) rfl

/-- **Every turn keeps the connection in its life.** -/
theorem Turn.ok (hturn : Turn label p p') (h : p.Ok) : p'.Ok := by
  have hsound : p.born = true → p.Sound := fun hb => (Share.life_iff.mp (h.life hb)).1
  have hstaged : p.born = true → p.Staged := fun hb => (Share.life_iff.mp (h.life hb)).2
  obtain ⟨hblank', hsound'⟩ := hturn.sound h.blank hsound
  refine ⟨hblank', fun hb' => ?_⟩
  exact Share.life_iff.mpr ⟨hsound' hb', hturn.staged hsound hstaged hb'⟩

end Turns

/-! ### Every connection of the server -/

/-- Connection `c` has been established on loop `l`. -/
def ServerWorld.Established (w : ServerWorld n) (l : LoopId n) (c : Nat) : Prop :=
  c < w.accepted ∧ l = (w.conns c).loop ∧ (w.conns c).conn.state ≠ .kConnecting

/-- Every connection is in its life, and only established connections are registered with a
poller or wait to be dispatched, on their own loops. -/
structure ServerInv (w : ServerWorld n) (work : LoopId n → List ServerAct) : Prop where
  ok : ∀ c, (share c w work).Ok
  registered : ∀ l fd e c, (w.pollers l).interest fd = some e → e.ptr = some c →
    w.Established l c
  dispatched : ∀ l active c revents, .handleActiveChannels active ∈ work l →
    (some c, revents) ∈ active → w.Established l c

/-- What does not depend on the stages: every accepted connection is sound. -/
structure ServerSound (w : ServerWorld n) (work : LoopId n → List ServerAct) : Prop where
  blank : ∀ c, (share c w work).born = false → (share c w work).Blank
  sound : ∀ c, (share c w work).born = true → (share c w work).Sound
  registered : ∀ l fd e c, (w.pollers l).interest fd = some e → e.ptr = some c →
    w.Established l c
  dispatched : ∀ l active c revents, .handleActiveChannels active ∈ work l →
    (some c, revents) ∈ active → w.Established l c

section Server

variable {cfg : ServerConfig} {w w' : ServerWorld n} {work work' : LoopId n → List ServerAct}
  {label : ServerLabel n} {c : Nat} {l : LoopId n}

theorem ServerInv.life (h : ServerInv w work) (hc : c < w.accepted) : (share c w work).Life :=
  (h.ok c).life (by simpa [share] using hc)

theorem ServerInv.serverSound (h : ServerInv w work) : ServerSound w work where
  blank c := (h.ok c).blank
  sound c hb := (Share.life_iff.mp ((h.ok c).life hb)).1
  registered := h.registered
  dispatched := h.dispatched

theorem ServerSound.of_lt (h : ServerSound w work) (hc : c < w.accepted) :
    (share c w work).Sound :=
  h.sound c (by simpa [share] using hc)

theorem ServerSound.turn (h : ServerSound w work)
    (hprog : Progress (serverApp n cfg) w work label w' work') (c : Nat) :
    Turn label (share c w work) (share c w' work') := by
  apply hprog.turn
  · intro hc
    exact h.blank c (by simpa [share] using hc)
  · intro l active revents
    exact h.dispatched l active c revents

theorem ServerInv.turn (h : ServerInv w work)
    (hprog : Progress (serverApp n cfg) w work label w' work') (c : Nat) :
    Turn label (share c w work) (share c w' work') := h.serverSound.turn hprog c

/-- Only accepted connections have calls to come, on their own loops. -/
theorem ServerSound.of_mem_callsOf {k : ConnCall} (h : ServerSound w work)
    (hk : k ∈ callsOf c (work l)) : c < w.accepted ∧ l = (w.conns c).loop := by
  have hc : c < w.accepted := by
    by_contra hc
    have hnil := (h.blank c (by simpa [share] using hc)).calls l
    simp only [share] at hnil
    simp [hnil] at hk
  refine ⟨hc, ?_⟩
  by_contra hl
  have hnil := (h.of_lt hc).here l hl
  simp only [share] at hnil
  simp [hnil] at hk

theorem ServerInv.of_mem_callsOf {k : ConnCall} (h : ServerInv w work)
    (hk : k ∈ callsOf c (work l)) : c < w.accepted ∧ l = (w.conns c).loop :=
  h.serverSound.of_mem_callsOf hk

/-- What the next call of a connection does. -/
theorem ServerSound.callSpec {k : ConnCall} {tail : List ServerAct} {o : ServerOracle}
    {v : ConnView ChannelPtr} {out : Out} (h : ServerSound w work)
    (hwork : work l = .conn c k :: tail)
    (hcall : ((w.noteCurrent l c k).view c).call k o.toOracle = .ok (v, out)) :
    c < w.accepted ∧ k.Timely (w.conns c).conn.state ∧
      CallSpec ((w.noteCurrent l c k).view c) o.toOracle k v out := by
  have hmem : k ∈ callsOf c (work l) := mem_callsOf.mpr (by simp [hwork])
  obtain ⟨hc, hl⟩ := h.of_mem_callsOf hmem
  have hview : ((w.noteCurrent l c k).view c).conn = (w.conns c).conn := by
    simp [ServerWorld.view]
  have hcalls : (share c w work).calls (share c w work).record.loop = k :: callsOf c tail := by
    simp only [share, ← hl, hwork, callsOf_conn_self]
  obtain ⟨htime, hspec⟩ := (h.of_lt hc).callSpec hcalls hview hcall
  exact ⟨hc, hview ▸ htime, hspec⟩

theorem ServerInv.callSpec {k : ConnCall} {tail : List ServerAct} {o : ServerOracle}
    {v : ConnView ChannelPtr} {out : Out} (h : ServerInv w work)
    (hwork : work l = .conn c k :: tail)
    (hcall : ((w.noteCurrent l c k).view c).call k o.toOracle = .ok (v, out)) :
    c < w.accepted ∧ k.Timely (w.conns c).conn.state ∧
      CallSpec ((w.noteCurrent l c k).view c) o.toOracle k v out :=
  h.serverSound.callSpec hwork hcall

/-- An established connection stays so. -/
theorem ServerWorld.Established.progress (he : w.Established l c) (h : ServerSound w work)
    (hprog : Progress (serverApp n cfg) w work label w' work') : w'.Established l c := by
  obtain ⟨hc, hl, hs⟩ := he
  have hlife := h.of_lt hc
  have hturn := h.turn hprog c
  have hborn : (share c w work).born = true := by simpa [share] using hc
  suffices hshare : (share c w' work').born = true ∧ l = (share c w' work').record.loop ∧
      (share c w' work').record.conn.state ≠ .kConnecting by
    exact ⟨by simpa [share] using hshare.1, hshare.2⟩
  have hbefore : (share c w work).born = true ∧ l = (share c w work).record.loop ∧
      (share c w work).record.conn.state ≠ .kConnecting := ⟨hborn, hl, hs⟩
  generalize share c w work = p at hlife hturn hbefore
  generalize share c w' work' = p' at hturn
  cases hturn with
  | accepted _ _ _ hnot => cases hbefore.1.symm.trans hnot
  | called hcalls hv hcall =>
      obtain ⟨-, hspec⟩ := hlife.callSpec hcalls hv hcall
      refine ⟨hbefore.1, hbefore.2.1, fun hs' => hbefore.2.2 ?_⟩
      rw [← hv]
      exact hspec.moves.connecting hs'
  | _ => exact hbefore

theorem handleActiveChannels_not_mem_body {active : List (ChannelPtr × Events)}
    (fs : List ServerFunctor) : .handleActiveChannels active ∉ fs.flatMap ServerFunctor.body := by
  intro hmem
  obtain ⟨f, -, hf⟩ := List.mem_flatMap.mp hmem
  cases f <;> simp [ServerFunctor.body] at hf

/-- No call makes `loop()` dispatch. -/
theorem ServerCall.not_dispatch {o : ServerOracle} {a : ServerAct} {e : ServerEffect n}
    (h : ServerCall cfg w l o a e) (active : List (ChannelPtr × Events)) :
    .handleActiveChannels active ∉ e.calls := by
  intro hmem
  rcases h.calls_mem hmem with hserver | ⟨d, k, v, out, -, -, k', -, heq⟩
  · cases hserver
  · cases heq

/-- A channel that a call registers belongs to an established connection. -/
theorem ServerCall.registered {o : ServerOracle} {a : ServerAct} {e : ServerEffect n}
    {tail : List ServerAct} (h : ServerCall cfg w l o a e) (hinv : ServerSound w work)
    (hwork : work l = a :: tail) {l' : LoopId n} {fd : Int} {ev : EpollEvent ChannelPtr}
    (hev : (e.world.pollers l').interest fd = some ev) (hptr : ev.ptr = some c) :
    w.Established l' c ∨ e.world.Established l' c := by
  cases h with
  | @listen cp hl hset =>
      left
      by_cases hl' : l' = 0
      · subst hl'
        simp only [Function.update_self] at hev
        rcases setEvents_interest hset hev with hold | hnone
        · exact hinv.registered 0 fd ev c hold hptr
        · cases hnone.symm.trans hptr
      · simp only [Function.update_of_ne hl'] at hev
        exact hinv.registered l' fd ev c hev hptr
  | @conn d k v out hl hcall =>
      obtain ⟨hd, htime, hspec⟩ := hinv.callSpec hwork hcall
      by_cases hl' : l' = (w.conns d).loop
      · subst hl'
        simp only [ServerWorld.setView, noteCurrent_conns, Function.update_self] at hev
        have hview : ((w.noteCurrent l d k).view d).conn = (w.conns d).conn := by
          simp [ServerWorld.view]
        rcases hspec.interest (hview ▸ (hinv.of_lt hd).inv) (hview ▸ htime) hev with hold | hnew
        · left
          refine hinv.registered _ fd ev c ?_ hptr
          simpa [ServerWorld.view] using hold
        · right
          have hcd : c = d := by
            have hself : ev.ptr = some d := hnew.1
            rw [hptr] at hself
            exact Option.some.inj hself
          subst hcd
          refine ⟨by simpa [ServerWorld.setView] using hd, by simp [ServerWorld.setView], ?_⟩
          simpa [ServerWorld.setView] using hnew.2
      · simp only [ServerWorld.setView, noteCurrent_conns, noteCurrent_pollers,
          Function.update_of_ne hl'] at hev
        exact Or.inl (hinv.registered l' fd ev c hev hptr)
  | _ => exact Or.inl (hinv.registered l' fd ev c hev hptr)

/-- Every step of the server keeps every connection sound. -/
theorem Progress.serverSound (hprog : Progress (serverApp n cfg) w work label w' work')
    (h : ServerSound w work) : ServerSound w' work' := by
  have hkeep : ∀ {l c}, w.Established l c → w'.Established l c := fun he => he.progress h hprog
  have hturn := fun c => (h.turn hprog c).sound (h.blank c) (h.sound c)
  refine ⟨fun c => (hturn c).1, fun c => (hturn c).2, ?_, ?_⟩
  · intro l fd ev c hev hptr
    cases hprog with
    | silent => exact h.registered l fd ev c hev hptr
    | poll => exact h.registered l fd ev c hev hptr
    | call hwork hcall =>
        rcases (serverCall hcall).registered h hwork hev hptr with hold | hnew
        · exact hkeep hold
        · exact hnew
    | @thread t out _ hthread =>
        rw [(threadSpec hthread).frame.1] at hev
        exact hkeep (h.registered l fd ev c hev hptr)
  · intro l active c revents hmem hr
    apply hkeep
    cases hprog with
    | silent => exact h.dispatched l active c revents hmem hr
    | @poll l₀ evs cbs _ hready _ hwork hother =>
        by_cases hl : l = l₀
        · subst hl
          rw [hwork] at hmem
          rcases List.mem_append.mp hmem with hmem | hmem
          · obtain ⟨active', rfl, hreported⟩ := ready_cases hready
            cases List.mem_singleton.mp hmem
            have hrep := hreported _ hr
            unfold ServerWorld.reported at hrep
            split at hrep
            · rename_i ev hev
              simp only [Bool.and_eq_true, decide_eq_true_eq] at hrep
              exact h.registered l _ ev c hev hrep.1
            · cases hrep
          · exact h.dispatched l active c revents hmem hr
        · rw [hother l hl] at hmem
          exact h.dispatched l active c revents hmem hr
    | @call l₀ o a tail e _ hhead hcall hwork hother =>
        by_cases hl : l = l₀
        · subst hl
          rw [hwork, List.mem_append, List.mem_append] at hmem
          rcases hmem with (hmem | hmem) | hmem
          · exact absurd hmem ((serverCall hcall).not_dispatch active)
          · exact h.dispatched l active c revents (by simp [hhead, hmem]) hr
          · exact absurd hmem (handleActiveChannels_not_mem_body _)
        · rw [hother l hl, List.mem_append] at hmem
          rcases hmem with hmem | hmem
          · exact h.dispatched l active c revents hmem hr
          · exact absurd hmem (handleActiveChannels_not_mem_body _)
    | thread hthread hwork =>
        rw [hwork, List.mem_append] at hmem
        rcases hmem with hmem | hmem
        · exact h.dispatched l active c revents hmem hr
        · exact absurd hmem (handleActiveChannels_not_mem_body _)

/-- **Every step of the server keeps every connection in its life.** -/
theorem Progress.serverInv (hprog : Progress (serverApp n cfg) w work label w' work')
    (h : ServerInv w work) : ServerInv w' work' := by
  have hsound := hprog.serverSound h.serverSound
  exact ⟨fun c => (h.turn hprog c).ok (h.ok c), hsound.registered, hsound.dispatched⟩

theorem create_serverInv (fd : Int) (hwork : ∀ l, work l = [] ∨ work l = [.listen]) :
    ServerInv (.create n fd) work := by
  refine ⟨fun c => ⟨fun _ => ⟨rfl, fun l => ?_, fun l => ?_, fun _ => rfl⟩, fun hb => ?_⟩, ?_, ?_⟩
  · rcases hwork l with h | h <;> simp [share, h, callsOf, ServerAct.callOf]
  · rcases hwork l with h | h <;> simp [share, h, removalsOf, ServerAct.removes]
  · simp [share, ServerWorld.create] at hb
  · intro l fd e c hev
    cases hev
  · intro l active c revents hmem
    rcases hwork l with h | h <;> simp [h] at hmem

/-- The calls to come before any loop starts. -/
theorem init_work {s : ServerProcess n} (h : (serverApp n cfg).system.init s) (l : LoopId n) :
    s.work (serverApp n cfg) l = [] ∨ s.work (serverApp n cfg) l = [.listen] := by
  obtain ⟨⟨-, hbase, hothers⟩, -⟩ := h
  by_cases hl : l = 0
  · subst hl
    exact Or.inr (by simp [Process.work, hbase, EventLoop.work, EventLoop.create])
  · exact Or.inl (by simp [Process.work, hothers l hl, EventLoop.work, EventLoop.create])

theorem reachable_serverInv {s : ServerProcess n} {ok : ServerProcess n → ServerLabel n → Prop}
    (h : (serverApp n cfg).system.ReachableBy ok s) :
    ServerInv s.world (s.work (serverApp n cfg)) := by
  apply progress_invariant h
  · intro s hinit
    obtain ⟨fd, hw⟩ := hinit.1.1
    rw [hw]
    exact create_serverInv fd (init_work hinit)
  · intro s label w' work' _ _ hinv hprog
    exact hprog.serverInv hinv

end Server

end Reactor
