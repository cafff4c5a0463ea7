import Reactor.ServerHost

/-!
# The channel of a connection

* `ChannelMove`, `CallSpec.channelMove` - what a call does to the connection's channel and to
  the poller: nothing, a new mask, or the removal at the end of `connectDestroyed`.
* `ConnRecord.Indexed` - the channel is in the poller's map from `connectEstablished` until
  `connectDestroyed` has finished, and `_addedToLoop` says so.
* `call_ofRegistry` - on a channel whose views agree, the only assertions about channels that
  a call can violate are those of the removal.
-/

namespace Reactor

open Reactor.Lib

section Moves

variable {C : Type} [DecidableEq C] {v v' : ConnView C} {o : Oracle} {k : ConnCall} {out : Out}
  {obs : List Obs}

/-- What a call does to the channel. -/
inductive ChannelMove (v v' : ConnView C) (obs : List Obs) : Prop where
  | kept : v'.conn.channel = v.conn.channel → v'.poller = v.poller →
      (v'.conn.state = .kConnecting ↔ v.conn.state = .kConnecting) → .destroyed ∉ obs →
      ChannelMove v v' obs
  | set {tied : Bool} {events : Events} :
      Channel.setEvents { v.conn.channel with tied := tied } events v.self v.poller =
        .ok (v'.conn.channel, v'.poller) →
      v.conn.state ≠ .kDisconnected → .destroyed ∉ obs → ChannelMove v v' obs
  | removed : v.conn.channel.remove v.self v.dispatching v.poller =
        .ok (v'.conn.channel, v'.poller) →
      v'.conn.state = v.conn.state → .destroyed ∈ obs → ChannelMove v v' obs

theorem StateE.Open.ne_disconnected {s : StateE} (h : s.Open) : s ≠ .kDisconnected := by
  rcases h with rfl | rfl <;> decide

theorem CallSpec.channelMove (h : CallSpec v o k v' out) (hinv : v.conn.Inv) :
    ChannelMove v v' out.obs := by
  cases h with
  | took hk hs hdata hwf hcontent hcp =>
      rcases hcp with ⟨-, rfl⟩ | ⟨-, hset⟩
      · exact .kept rfl rfl Iff.rfl (by simp)
      · exact .set hset hs (by simp)
  | writeAll hw _ _ hwf hsplit hempty hset =>
      exact .set hset (hinv.open_of_isWriting hw).ne_disconnected (by split <;> simp)
  | handleClose hs hset => exact .set hset hs.ne_disconnected (by simp)
  | connectEstablished hs hset => exact .set hset (by simp [hs]) (by simp)
  | disconnect hs hset => exact .set hset (by simp [hs]) (by simp)
  | channelRemove hrem => exact .removed hrem rfl (by simp)
  | shutdown hs =>
      refine .kept rfl rfl ?_ ?_
      · simp [ConnView.setState, hs]
      · unfold ConnView.shutdownInLoop
        split <;> simp
  | _ => exact .kept rfl rfl Iff.rfl (by simp)

/-- A removal that returns changes nothing under other descriptors. -/
theorem remove_elsewhere {p : EPollPoller C} {self : C} {ch : Channel} {d : Dispatching C}
    {cp : Channel × EPollPoller C} (hreg : Registered p self ch)
    (h : ch.remove self d p = .ok cp) : SameElsewhere ch.fd p cp.2 := by
  have hok := h
  unfold Channel.remove EPollPoller.removeChannel at hok
  simp only [bind_eq_ok, check_eq_ok] at hok
  obtain ⟨-, hnone, -, hactive, -, -, -, hfound, -⟩ := hok
  obtain ⟨p', heq, -, hsame⟩ := remove_ok hreg hnone hfound hactive
  rw [heq] at h
  cases h
  exact hsame

/-- No call changes the descriptor, or anything the poller has for other descriptors. -/
theorem ChannelMove.elsewhere (h : ChannelMove v v' obs)
    (hreg : Registered v.poller v.self v.conn.channel) :
    v'.conn.channel.fd = v.conn.channel.fd ∧ Registered v'.poller v.self v'.conn.channel ∧
      SameElsewhere v.conn.channel.fd v.poller v'.poller := by
  cases h with
  | kept hch hp =>
      rw [hch, hp]
      exact ⟨rfl, hreg, ⟨fun _ _ => rfl, fun _ _ => rfl, rfl⟩⟩
  | @set tied events hset =>
      have htied : Registered v.poller v.self { v.conn.channel with tied := tied } := hreg
      obtain ⟨p', heq, hreg', hsame⟩ := setEvents_ok htied events
      rw [hset, Except.ok.injEq, Prod.mk.injEq] at heq
      rw [heq.1, heq.2]
      exact ⟨rfl, hreg', hsame⟩
  | removed hrem =>
      refine ⟨?_, remove_registered hreg hrem, remove_elsewhere hreg hrem⟩
      obtain ⟨-, -, hch⟩ := remove_channel hrem
      simp only at hch
      rw [hch]

end Moves

/-! ### The index of the channel -/

section Indexed

variable {n : Nat} {r : ConnRecord n} {v v' : ConnView ChannelPtr} {obs : List Obs}

/-- The channel is new before `connectEstablished` and after `connectDestroyed`, and the
connection is closed then. -/
structure ConnRecord.Indexed (r : ConnRecord n) : Prop where
  added : r.conn.channel.addedToLoop = true ↔ r.conn.channel.index ≠ .kNew
  kept : .destroyed ∉ r.trace → r.conn.channel.index = .kNew → r.conn.state = .kConnecting
  gone : .destroyed ∈ r.trace → r.conn.state = .kDisconnected ∧ r.conn.channel.index = .kNew

theorem afterUpdate_ne_new (events : Events) (i : Index) : i.afterUpdate events ≠ .kNew := by
  cases i with
  | kAdded =>
      simp only [Index.afterUpdate]
      split <;> simp
  | _ => simp [Index.afterUpdate]

theorem ConnRecord.Indexed.call (h : r.Indexed) (hinv : r.conn.Inv) (hv : v.conn = r.conn)
    (hmove : ChannelMove v v' obs) (hstate : v.conn.state.Moves v'.conn.state) :
    ConnRecord.Indexed { r with conn := v'.conn, trace := r.trace ++ obs } := by
  cases hmove with
  | kept hch hp hs hobs =>
      rw [hv] at hch hs hstate
      refine ⟨?_, ?_, ?_⟩
      · simpa only [hch] using h.added
      · intro hnot hnew
        rw [List.mem_append, not_or] at hnot
        exact hs.mpr (h.kept hnot.1 (hch ▸ hnew))
      · intro hmem
        obtain ⟨hclosed, hnew⟩ := h.gone ((List.mem_append.mp hmem).resolve_right hobs)
        exact ⟨hstate.disconnected hclosed, by simpa only [hch] using hnew⟩
  | set hset hopen hobs =>
      have hch := setEvents_channel hset
      simp only at hch
      refine ⟨?_, ?_, ?_⟩
      · simp only [hch, afterUpdate_ne_new, ne_eq, not_false_eq_true]
      · intro _ hnew
        rw [hch] at hnew
        exact absurd hnew (afterUpdate_ne_new _ _)
      · intro hmem
        have hclosed := (h.gone ((List.mem_append.mp hmem).resolve_right hobs)).1
        exact absurd (hv ▸ hclosed) hopen
  | removed hrem hs hobs =>
      obtain ⟨hnone, hold, hch⟩ := remove_channel hrem
      simp only at hch
      rw [hv] at hnone hold hs
      refine ⟨?_, ?_, ?_⟩
      · simp [hch]
      · intro hnot
        exact absurd (List.mem_append_right _ hobs) hnot
      · intro _
        exact ⟨hs.trans (hinv.closed_of_removable hnone hold), by simp [hch]⟩

/-- Observations that do not end the connection change nothing. -/
theorem ConnRecord.Indexed.observe {x : Obs} (h : r.Indexed) (hx : x ≠ .destroyed) :
    ConnRecord.Indexed { r with trace := r.trace ++ [x] } := by
  have hmem : .destroyed ∈ r.trace ++ [x] ↔ .destroyed ∈ r.trace := by
    simp [Ne.symm hx]
  refine ⟨h.added, ?_, ?_⟩
  · rw [hmem]
    exact h.kept
  · rw [hmem]
    exact h.gone

theorem ConnRecord.newborn_indexed (l : LoopId n) (sockfd : Int) (name : List Char) :
    ConnRecord.Indexed ⟨.create sockfd true, l, name, []⟩ := by
  refine ⟨?_, ?_, ?_⟩ <;> simp [TcpConnection.create, Channel.create]

/-- Every turn of a connection keeps its index right. -/
theorem Turn.indexed {p p' : Share n} {label : ServerLabel n} (hturn : Turn label p p')
    (hsound : p.born = true → p.Sound) (h : p.born = true → p.record.Indexed)
    (hb' : p'.born = true) : p'.record.Indexed := by
  cases hturn with
  | accepted l sockfd name => exact ConnRecord.newborn_indexed l sockfd name
  | called hcalls hv hcall =>
      have hinv := (hsound hb').inv
      obtain ⟨-, hspec⟩ := (hsound hb').callSpec hcalls hv hcall
      exact (h hb').call hinv hv (hspec.channelMove (hv ▸ hinv)) hspec.moves
  | removed => exact (h hb').observe (by simp)
  | sendPassed => exact (h hb').observe (by simp)
  | _ => exact h hb'

end Indexed

/-! ### Failing calls -/

/-- The assertions of `Channel::remove`, `EventLoop::removeChannel`,
`EPollPoller::updateChannel`, `EPollPoller::removeChannel` and
`EPollPoller::fillActiveChannels`. -/
def Assertion.ofRegistry : Assertion → Bool
  | .channelRemove_noneEvent => true
  | .updateChannel_absent => true
  | .updateChannel_found => true
  | .updateChannel_same => true
  | .updateChannel_added => true
  | .removeChannel_inactive => true
  | .removeChannel_found => true
  | .removeChannel_same => true
  | .removeChannel_noneEvent => true
  | .removeChannel_index => true
  | .removeChannel_erased => true
  | .fillActiveChannels_size => true
  | .fillActiveChannels_found => true
  | .fillActiveChannels_same => true
  | _ => false

/-- One of these assertions, or a failed `epoll_ctl`. -/
def Fault.ofRegistry : Fault → Bool
  | .assertion a => a.ofRegistry
  | .sysFatal _ _ => true
  | _ => false

section Faults

variable {f : Fault} {b : Buffer}

theorem append_ofRegistry {data : Bytes} (h : b.append data = .error f) : f.ofRegistry = false := by
  unfold Buffer.append Buffer.ensureWritableBytes Buffer.makeSpace Buffer.hasWritten at h
  simp only [bind_eq_error, check_eq_error, reduceCtorEq, and_false, exists_false, or_false] at h
  rcases h with (h | ⟨_, -, -, rfl⟩) | ⟨_, -, -, rfl⟩
  · split at h
    · split at h
      · split at h <;> cases h
        rfl
      · simp only [bind_eq_error, check_eq_error, reduceCtorEq, and_false, exists_false,
          or_false] at h
        rcases h with ⟨-, rfl⟩ | ⟨_, -, -, rfl⟩ <;> rfl
    · cases h
  · rfl
  · rfl

theorem retrieve_ofRegistry {len : Nat} (h : b.retrieve len = .error f) : f.ofRegistry = false := by
  unfold Buffer.retrieve at h
  simp only [bind_eq_error, check_eq_error] at h
  rcases h with ⟨-, rfl⟩ | ⟨-, -, h⟩
  · rfl
  · split at h <;> cases h

theorem readFd_ofRegistry {r : ReadResult} (h : b.readFd r = .error f) : f.ofRegistry = false := by
  cases r with
  | fail err => cases h
  | deliver d =>
      simp only [Buffer.readFd] at h
      split at h
      · cases h
      · simp only [bind_eq_error, reduceCtorEq, and_false, exists_false, or_false] at h
        exact append_ofRegistry h

variable {C : Type} [DecidableEq C] {v : ConnView C} {o : Oracle} {k : ConnCall}

/-- Every enable and disable operation on a channel whose views agree returns. -/
theorem setEvents_ne_error {p : EPollPoller C} {self : C} {ch : Channel} {events : Events}
    (h : Registered p self ch) : ch.setEvents events self p ≠ .error f := by
  obtain ⟨p', heq, -⟩ := setEvents_ok h events
  rw [heq]
  intro hok
  cases hok

theorem sendInLoopEX_ofRegistry {sender : Sender} {data : Bytes} {w : WriteResult}
    (hreg : Registered v.poller v.self v.conn.channel)
    (h : v.sendInLoopEX sender data w = .error f) : f.ofRegistry = false := by
  unfold ConnView.sendInLoopEX at h
  split at h
  · cases h
  · extract_lets a out at h
    simp only [bind_eq_error, check_eq_error] at h
    rcases h with ⟨-, rfl⟩ | ⟨-, -, h⟩
    · rfl
    · split at h
      · rw [bind_eq_error] at h
        rcases h with h | ⟨b, -, h⟩
        · exact append_ofRegistry h
        · split at h
          · rw [bind_eq_error] at h
            rcases h with h | ⟨cp, -, h⟩
            · exact absurd h (setEvents_ne_error hreg)
            · cases h
          · cases h
      · cases h

theorem handleWrite_ofRegistry {w : WriteResult}
    (hreg : Registered v.poller v.self v.conn.channel)
    (h : v.handleWrite w = .error f) : f.ofRegistry = false := by
  unfold ConnView.handleWrite at h
  split at h
  · cases w with
    | fail err => cases h
    | accept n =>
        simp only at h
        split at h
        · rw [bind_eq_error] at h
          rcases h with h | ⟨b, -, h⟩
          · exact retrieve_ofRegistry h
          · split at h
            · rw [bind_eq_error] at h
              rcases h with h | ⟨cp, -, h⟩
              · exact absurd h (setEvents_ne_error hreg)
              · cases h
            · cases h
        · cases h
  · cases h

/-- On a channel whose views agree, the assertions about channels fail in the removal alone,
unless the user's message callback itself ends with one. -/
theorem call_ofRegistry (hreg : Registered v.poller v.self v.conn.channel)
    (hf : f.ofRegistry = true) (h : v.call k o = .error f) :
    (k = .handleRead ∧ ∃ b, o.onMessage b = .error f) ∨
      (k = .channelRemove ∧
        v.conn.channel.remove v.self v.dispatching v.poller = .error f) := by
  have hnot : f.ofRegistry ≠ false := by simp [hf]
  cases k with
  | user u => cases u <;> cases h
  | sendInLoop sender message =>
      simp only [ConnView.call] at h
      split at h
      · cases h
      · rw [bind_eq_error] at h
        rcases h with h | ⟨data, -, h⟩
        · unfold StringPiece.bytes at h
          split at h <;> cases h
          cases hf
        · exact absurd (sendInLoopEX_ofRegistry hreg h) hnot
  | sendInLoopEX sender data => exact absurd (sendInLoopEX_ofRegistry hreg h) hnot
  | handleRead =>
      simp only [ConnView.call, ConnView.handleRead, bind_eq_error] at h
      rcases h with h | ⟨⟨b, r⟩, -, h⟩
      · exact absurd (readFd_ofRegistry h) hnot
      · simp only at h
        split at h
        · rw [bind_eq_error] at h
          rcases h with h | ⟨⟨b', calls⟩, -, h⟩
          · exact Or.inl ⟨rfl, b, h⟩
          · cases h
        · split at h <;> cases h
  | handleWrite => exact absurd (handleWrite_ofRegistry hreg h) hnot
  | handleClose =>
      simp only [ConnView.call, ConnView.handleClose, bind_eq_error, check_eq_error] at h
      rcases h with ⟨-, rfl⟩ | ⟨-, -, h | ⟨cp, -, h⟩⟩
      · cases hf
      · exact absurd h (setEvents_ne_error hreg)
      · cases h
  | connectEstablished =>
      simp only [ConnView.call, ConnView.connectEstablished, bind_eq_error, check_eq_error] at h
      rcases h with ⟨-, rfl⟩ | ⟨-, -, h | ⟨cp, -, h⟩⟩
      · cases hf
      · have htied : Registered v.poller v.self v.conn.channel.tie := hreg
        exact absurd h (setEvents_ne_error htied)
      · cases h
  | connectDestroyed =>
      simp only [ConnView.call, ConnView.connectDestroyed] at h
      split at h
      · rw [bind_eq_error] at h
        rcases h with h | ⟨cp, -, h⟩
        · exact absurd h (setEvents_ne_error hreg)
        · cases h
      · cases h
  | channelRemove =>
      simp only [ConnView.call, ConnView.channelRemove, bind_eq_error, reduceCtorEq, and_false,
        exists_false, or_false] at h
      exact Or.inr ⟨rfl, h⟩
  | _ => cases h

end Faults

end Reactor
