import Reactor.Basic

/-!
# Channels and the epoll poller (`Channel.h`, `Channel.cpp`, `EPollPoller.cpp`)

A `Channel` carries the events it asks for and the poller's index for it. The
poller keeps a map from descriptors to channels; the kernel keeps the interest set
of the epoll instance. Channels are named by their address, a value of a type `C`.

* `EPollPoller.updateChannel`, `EPollPoller.removeChannel` - as in the source, with
  the assertions and with a failed `epoll_ctl` recorded (and fatal unless it is a
  deletion).
* `Registered` - the three views of one channel's registration agree.
* `setEvents_ok`, `remove_ok` - every enable, disable and remove call on a channel
  whose views agree returns, keeps them in agreement, and touches nothing that
  belongs to another descriptor.
-/

namespace Reactor

open Reactor.Lib

/-- A word of poll events; `POLLxxx` and `EPOLLxxx` are the same bits. -/
abbrev Events := BitVec 32

def POLLIN : Events := 0x1
def POLLPRI : Events := 0x2
def POLLOUT : Events := 0x4
def POLLERR : Events := 0x8
def POLLHUP : Events := 0x10
def POLLNVAL : Events := 0x20
def POLLRDHUP : Events := 0x2000

/-- `Channel::kNoneEvent`. -/
def kNoneEvent : Events := 0

/-- `Channel::kReadEvent`. -/
def kReadEvent : Events := POLLIN ||| POLLPRI

/-- `Channel::kWriteEvent`. -/
def kWriteEvent : Events := POLLOUT

/-- `kNew`, `kAdded` and `kDeleted` of `EPollPoller.cpp`. -/
inductive Index where
  | kNew
  | kAdded
  | kDeleted
deriving DecidableEq, Repr

structure Channel where
  fd : Int
  events : Events
  index : Index
  addedToLoop : Bool
  tied : Bool
deriving DecidableEq, Repr

namespace Channel

/-- The constructor. -/
def create (fd : Int) : Channel :=
  { fd := fd, events := 0, index := .kNew, addedToLoop := false, tied := false }

def isNoneEvent (ch : Channel) : Bool := ch.events = kNoneEvent

def isWriting (ch : Channel) : Bool := ch.events &&& kWriteEvent ≠ 0

def isReading (ch : Channel) : Bool := ch.events &&& kReadEvent ≠ 0

/-- `Channel::tie`; the object tied to is the channel's owner. -/
def tie (ch : Channel) : Channel := { ch with tied := true }

end Channel

/-- The kernel's record for a descriptor: the mask and `data.ptr`. -/
structure EpollEvent (C : Type) where
  events : Events
  ptr : C
deriving DecidableEq, Repr

/-- The poller's `_channels` and the interest set of its epoll instance. `failed`
lists the `epoll_ctl` calls that returned a negative value. -/
structure EPollPoller (C : Type) where
  channels : Int → Option C
  interest : Int → Option (EpollEvent C)
  failed : List (CtlOp × Int)

/-- `_eventHandling`, `_activeChannels` and `_currentActiveChannel` of the loop. -/
structure Dispatching (C : Type) where
  eventHandling : Bool
  activeChannels : List C
  currentActiveChannel : Option C

namespace EPollPoller

variable {C : Type}

/-- The constructor: no channel, an empty interest set. -/
def create : EPollPoller C := ⟨fun _ => none, fun _ => none, []⟩

/-- `epoll_ctl`: adding needs an absent descriptor, modifying and deleting a present
one. -/
def epollCtl (interest : Int → Option (EpollEvent C)) (op : CtlOp) (fd : Int)
    (event : EpollEvent C) : Option (Int → Option (EpollEvent C)) :=
  match op, interest fd with
  | .EPOLL_CTL_ADD, none => some (Function.update interest fd (some event))
  | .EPOLL_CTL_MOD, some _ => some (Function.update interest fd (some event))
  | .EPOLL_CTL_DEL, some _ => some (Function.update interest fd none)
  | _, _ => none

def update (p : EPollPoller C) (op : CtlOp) (self : C) (ch : Channel) : Exec (EPollPoller C) :=
  match epollCtl p.interest op ch.fd ⟨ch.events, self⟩ with
  | some interest => .ok { p with interest := interest }
  | none =>
      if op = .EPOLL_CTL_DEL then .ok { p with failed := p.failed ++ [(op, ch.fd)] }
      else .error (.sysFatal op ch.fd)

variable [DecidableEq C]

def updateChannel (p : EPollPoller C) (self : C) (ch : Channel) :
    Exec (Channel × EPollPoller C) :=
  match ch.index with
  | .kNew => do
      check (p.channels ch.fd = none) .updateChannel_absent
      let ch' := { ch with index := .kAdded }
      let p' ← update { p with channels := Function.update p.channels ch.fd (some self) }
        .EPOLL_CTL_ADD self ch'
      .ok (ch', p')
  | .kDeleted => do
      check (p.channels ch.fd ≠ none) .updateChannel_found
      check (p.channels ch.fd = some self) .updateChannel_same
      let ch' := { ch with index := .kAdded }
      let p' ← p.update .EPOLL_CTL_ADD self ch'
      .ok (ch', p')
  | .kAdded => do
      check (p.channels ch.fd ≠ none) .updateChannel_found
      check (p.channels ch.fd = some self) .updateChannel_same
      check (ch.index = .kAdded) .updateChannel_added
      if ch.isNoneEvent then
        let p' ← p.update .EPOLL_CTL_DEL self ch
        .ok ({ ch with index := .kDeleted }, p')
      else
        let p' ← p.update .EPOLL_CTL_MOD self ch
        .ok (ch, p')

def removeChannel (p : EPollPoller C) (self : C) (ch : Channel) :
    Exec (Channel × EPollPoller C) := do
  check (p.channels ch.fd ≠ none) .removeChannel_found
  check (p.channels ch.fd = some self) .removeChannel_same
  check (ch.isNoneEvent = true) .removeChannel_noneEvent
  check (ch.index = .kAdded ∨ ch.index = .kDeleted) .removeChannel_index
  let n := if (p.channels ch.fd).isSome then 1 else 0
  check (n = 1) .removeChannel_erased
  let p₁ := { p with channels := Function.update p.channels ch.fd none }
  let p₂ ← (if ch.index = .kAdded then p₁.update .EPOLL_CTL_DEL self ch else .ok p₁)
  .ok ({ ch with index := .kNew }, p₂)

/-- `Poller::hasChannel`. -/
def hasChannel (p : EPollPoller C) (self : C) (ch : Channel) : Bool :=
  p.channels ch.fd = some self

end EPollPoller

namespace Channel

variable {C : Type} [DecidableEq C]

/-- A new event mask followed by `Channel::update`, which every enable and disable
operation is. -/
def setEvents (ch : Channel) (events : Events) (self : C) (p : EPollPoller C) :
    Exec (Channel × EPollPoller C) :=
  p.updateChannel self { ch with events := events, addedToLoop := true }

def enableReading (ch : Channel) (self : C) (p : EPollPoller C) : Exec (Channel × EPollPoller C) :=
  ch.setEvents (ch.events ||| kReadEvent) self p

def disableReading (ch : Channel) (self : C) (p : EPollPoller C) : Exec (Channel × EPollPoller C) :=
  ch.setEvents (ch.events &&& ~~~kReadEvent) self p

def enableWriting (ch : Channel) (self : C) (p : EPollPoller C) : Exec (Channel × EPollPoller C) :=
  ch.setEvents (ch.events ||| kWriteEvent) self p

def disableWriting (ch : Channel) (self : C) (p : EPollPoller C) : Exec (Channel × EPollPoller C) :=
  ch.setEvents (ch.events &&& ~~~kWriteEvent) self p

def disableAll (ch : Channel) (self : C) (p : EPollPoller C) : Exec (Channel × EPollPoller C) :=
  ch.setEvents kNoneEvent self p

/-- `Channel::remove` and `EventLoop::removeChannel`. -/
def remove (ch : Channel) (self : C) (d : Dispatching C) (p : EPollPoller C) :
    Exec (Channel × EPollPoller C) := do
  check (ch.isNoneEvent = true) .channelRemove_noneEvent
  check (d.eventHandling = true →
    d.currentActiveChannel = some self ∨ self ∉ d.activeChannels) .removeChannel_inactive
  p.removeChannel self { ch with addedToLoop := false }

end Channel

/-! ### The registration of one channel -/

section Registration

variable {C : Type} [DecidableEq C] {p p' : EPollPoller C} {self : C} {ch ch' : Channel}

/-- The poller's map and the kernel's interest set agree with the channel's index:
a new channel is in neither, an added one is in both with its own mask, a deleted one
is in the map only. -/
def Registered (p : EPollPoller C) (self : C) (ch : Channel) : Prop :=
  match ch.index with
  | .kNew => p.channels ch.fd = none ∧ p.interest ch.fd = none
  | .kAdded => p.channels ch.fd = some self ∧ p.interest ch.fd = some ⟨ch.events, self⟩
  | .kDeleted => p.channels ch.fd = some self ∧ p.interest ch.fd = none

/-- The two pollers differ at most in what they hold for the descriptor `fd`. -/
structure SameElsewhere (fd : Int) (p p' : EPollPoller C) : Prop where
  channels : ∀ x, x ≠ fd → p'.channels x = p.channels x
  interest : ∀ x, x ≠ fd → p'.interest x = p.interest x
  failed : p'.failed = p.failed

omit [DecidableEq C] in
theorem SameElsewhere.trans {fd : Int} {p₁ p₂ p₃ : EPollPoller C} (h : SameElsewhere fd p₁ p₂)
    (h' : SameElsewhere fd p₂ p₃) : SameElsewhere fd p₁ p₃ where
  channels x hx := (h'.channels x hx).trans (h.channels x hx)
  interest x hx := (h'.interest x hx).trans (h.interest x hx)
  failed := h'.failed.trans h.failed

omit [DecidableEq C] in
/-- A registration does not see what happens under other descriptors. -/
theorem Registered.elsewhere {fd : Int} (h : Registered p self ch) (hsame : SameElsewhere fd p p')
    (hne : ch.fd ≠ fd) : Registered p' self ch := by
  unfold Registered at h ⊢
  rw [hsame.channels _ hne, hsame.interest _ hne]
  exact h

/-- The index after an update with the mask `events`. -/
def Index.afterUpdate (events : Events) : Index → Index
  | .kNew => .kAdded
  | .kDeleted => .kAdded
  | .kAdded => if events = kNoneEvent then .kDeleted else .kAdded

/-- Every enable and disable operation on a channel whose views agree returns, with
the new mask and with the views in agreement again. -/
theorem setEvents_ok (h : Registered p self ch) (events : Events) :
    ∃ p', ch.setEvents events self p =
        .ok ({ ch with events := events, addedToLoop := true,
                       index := ch.index.afterUpdate events }, p') ∧
      Registered p' self { ch with events := events, addedToLoop := true,
                                   index := ch.index.afterUpdate events } ∧
      SameElsewhere ch.fd p p' := by
  unfold Registered at h
  unfold Channel.setEvents EPollPoller.updateChannel
  cases hidx : ch.index with
  | kNew =>
      simp only [hidx] at h
      refine ⟨{ p with channels := Function.update p.channels ch.fd (some self)
                       interest := Function.update p.interest ch.fd (some ⟨events, self⟩) },
        ?_, ?_, ?_, ?_, rfl⟩
      · simp [check_of, h, EPollPoller.update, EPollPoller.epollCtl, Index.afterUpdate]
      · simp [Registered, Index.afterUpdate]
      · intro x hx
        simp [hx]
      · intro x hx
        simp [hx]
  | kDeleted =>
      simp only [hidx] at h
      refine ⟨{ p with interest := Function.update p.interest ch.fd (some ⟨events, self⟩) },
        ?_, ?_, fun _ _ => rfl, ?_, rfl⟩
      · simp [check_of, h, EPollPoller.update, EPollPoller.epollCtl, Index.afterUpdate]
      · simp [Registered, Index.afterUpdate, h]
      · intro x hx
        simp [hx]
  | kAdded =>
      simp only [hidx] at h
      by_cases hnone : events = kNoneEvent
      · refine ⟨{ p with interest := Function.update p.interest ch.fd none },
          ?_, ?_, fun _ _ => rfl, ?_, rfl⟩
        · simp [check_of, h, EPollPoller.update, EPollPoller.epollCtl, Index.afterUpdate,
            Channel.isNoneEvent, hnone]
        · simp [Registered, Index.afterUpdate, h, hnone]
        · intro x hx
          simp [hx]
      · refine ⟨{ p with interest := Function.update p.interest ch.fd (some ⟨events, self⟩) },
          ?_, ?_, fun _ _ => rfl, ?_, rfl⟩
        · simp [check_of, h, EPollPoller.update, EPollPoller.epollCtl, Index.afterUpdate,
            Channel.isNoneEvent, hnone]
        · simp [Registered, Index.afterUpdate, h, hnone]
        · intro x hx
          simp [hx]

/-- Removing a channel without events that is in the map, outside the dispatch of
another channel's events, returns and leaves the channel new. -/
theorem remove_ok (h : Registered p self ch) {d : Dispatching C} (hnone : ch.isNoneEvent = true)
    (hfound : p.channels ch.fd = some self)
    (hactive : d.eventHandling = true →
      d.currentActiveChannel = some self ∨ self ∉ d.activeChannels) :
    ∃ p', ch.remove self d p = .ok ({ ch with addedToLoop := false, index := .kNew }, p') ∧
      Registered p' self { ch with addedToLoop := false, index := .kNew } ∧
      SameElsewhere ch.fd p p' := by
  unfold Registered at h
  have hevents : ch.events = kNoneEvent := by simpa [Channel.isNoneEvent] using hnone
  cases hidx : ch.index with
  | kNew =>
      simp only [hidx, hfound, reduceCtorEq, false_and] at h
  | kDeleted =>
      simp only [hidx] at h
      refine ⟨{ p with channels := Function.update p.channels ch.fd none },
        ?_, ?_, ?_, fun _ _ => rfl, rfl⟩
      · simp [Channel.remove, EPollPoller.removeChannel, check_of hactive, check_of, h, hidx,
          Channel.isNoneEvent, hevents]
      · simp [Registered, h]
      · intro x hx
        simp [hx]
  | kAdded =>
      simp only [hidx] at h
      refine ⟨{ p with channels := Function.update p.channels ch.fd none
                       interest := Function.update p.interest ch.fd none },
        ?_, ?_, ?_, ?_, rfl⟩
      · simp [Channel.remove, EPollPoller.removeChannel, check_of hactive, check_of, h, hidx,
          Channel.isNoneEvent, hevents, EPollPoller.update, EPollPoller.epollCtl]
      · simp [Registered]
      · intro x hx
        simp [hx]
      · intro x hx
        simp [hx]

/-- What an enable or disable operation that returns has made of the channel. -/
theorem setEvents_channel {events : Events} {cp : Channel × EPollPoller C}
    (h : ch.setEvents events self p = .ok cp) :
    cp.1 = { ch with events := events, addedToLoop := true,
                     index := ch.index.afterUpdate events } := by
  unfold Channel.setEvents EPollPoller.updateChannel at h
  cases hidx : ch.index with
  | kNew =>
      simp only [hidx, bind_eq_ok, check_eq_ok, Except.ok.injEq] at h
      obtain ⟨-, -, p', -, rfl⟩ := h
      rfl
  | kDeleted =>
      simp only [hidx, bind_eq_ok, check_eq_ok, Except.ok.injEq] at h
      obtain ⟨-, -, -, -, p', -, rfl⟩ := h
      rfl
  | kAdded =>
      simp only [hidx, bind_eq_ok, check_eq_ok] at h
      obtain ⟨-, -, -, -, -, -, h⟩ := h
      by_cases hnone : events = kNoneEvent
      · simp only [Channel.isNoneEvent, hnone, decide_true, if_true, bind_eq_ok,
          Except.ok.injEq] at h
        obtain ⟨p', -, rfl⟩ := h
        simp [Index.afterUpdate, hnone]
      · simp only [Channel.isNoneEvent, hnone, decide_false, Bool.false_eq_true, if_false,
          bind_eq_ok, Except.ok.injEq] at h
        obtain ⟨p', -, rfl⟩ := h
        simp [Index.afterUpdate, hnone]

/-- An enable or disable operation that returns keeps the views in agreement. -/
theorem setEvents_registered {events : Events} {cp : Channel × EPollPoller C}
    (hreg : Registered p self ch) (h : ch.setEvents events self p = .ok cp) :
    Registered cp.2 self cp.1 := by
  obtain ⟨p', heq, hreg', -⟩ := setEvents_ok hreg events
  rw [heq] at h
  cases h
  exact hreg'

omit [DecidableEq C] in
/-- `epoll_ctl` calls enter nothing but the channel itself. -/
theorem update_interest {op : CtlOp} {fd : Int} {e : EpollEvent C}
    (h : p.update op self ch = .ok p') (he : p'.interest fd = some e) :
    p.interest fd = some e ∨ e.ptr = self := by
  unfold EPollPoller.update at h
  split at h
  · rename_i interest hctl
    cases h
    have hset : ∀ x : Option (EpollEvent C), interest = Function.update p.interest ch.fd x →
        x = some ⟨ch.events, self⟩ ∨ x = none → p.interest fd = some e ∨ e.ptr = self := by
      rintro x rfl hx
      simp only [Function.update_apply] at he
      split at he
      · rcases hx with rfl | rfl
        · cases he
          exact Or.inr rfl
        · cases he
      · exact Or.inl he
    unfold EPollPoller.epollCtl at hctl
    split at hctl <;> cases hctl
    · exact hset _ rfl (Or.inl rfl)
    · exact hset _ rfl (Or.inl rfl)
    · exact hset _ rfl (Or.inr rfl)
  · split at h
    · cases h
      exact Or.inl he
    · cases h

theorem setEvents_interest {events : Events} {cp : Channel × EPollPoller C} {fd : Int}
    {e : EpollEvent C} (h : ch.setEvents events self p = .ok cp)
    (he : cp.2.interest fd = some e) : p.interest fd = some e ∨ e.ptr = self := by
  unfold Channel.setEvents EPollPoller.updateChannel at h
  cases hidx : ch.index with
  | kNew =>
      simp only [hidx, bind_eq_ok, check_eq_ok, Except.ok.injEq] at h
      obtain ⟨-, -, p', hup, rfl⟩ := h
      have hsame := update_interest hup he
      exact hsame
  | kDeleted =>
      simp only [hidx, bind_eq_ok, check_eq_ok, Except.ok.injEq] at h
      obtain ⟨-, -, -, -, p', hup, rfl⟩ := h
      exact update_interest hup he
  | kAdded =>
      simp only [hidx, bind_eq_ok, check_eq_ok] at h
      obtain ⟨-, -, -, -, -, -, h⟩ := h
      split at h
      · simp only [bind_eq_ok, Except.ok.injEq] at h
        obtain ⟨p', hup, rfl⟩ := h
        exact update_interest hup he
      · simp only [bind_eq_ok, Except.ok.injEq] at h
        obtain ⟨p', hup, rfl⟩ := h
        exact update_interest hup he

/-- A removal enters nothing. -/
theorem remove_interest {d : Dispatching C} {cp : Channel × EPollPoller C} {fd : Int}
    {e : EpollEvent C} (h : ch.remove self d p = .ok cp) (he : cp.2.interest fd = some e) :
    p.interest fd = some e := by
  unfold Channel.remove EPollPoller.removeChannel at h
  simp only [bind_eq_ok, check_eq_ok, Except.ok.injEq] at h
  obtain ⟨-, -, -, -, -, -, -, -, -, -, -, -, -, -, p₂, hup, rfl⟩ := h
  split at hup
  · cases hint : p.interest ch.fd with
    | none =>
        simp only [EPollPoller.update, EPollPoller.epollCtl, hint, if_true] at hup
        cases hup
        exact he
    | some e' =>
        simp only [EPollPoller.update, EPollPoller.epollCtl, hint] at hup
        cases hup
        simp only [Function.update_apply] at he
        split at he
        · cases he
        · exact he
  · cases hup
    exact he

/-- What a removal that returns has found and made of the channel. -/
theorem remove_channel {d : Dispatching C} {cp : Channel × EPollPoller C}
    (h : ch.remove self d p = .ok cp) :
    ch.events = kNoneEvent ∧ ch.index ≠ .kNew ∧
      cp.1 = { ch with addedToLoop := false, index := .kNew } := by
  unfold Channel.remove EPollPoller.removeChannel at h
  simp only [bind_eq_ok, check_eq_ok, Except.ok.injEq] at h
  obtain ⟨-, hnone, -, -, -, -, -, -, -, -, -, hidx, -, -, p₂, -, rfl⟩ := h
  refine ⟨by simpa [Channel.isNoneEvent] using hnone, ?_, rfl⟩
  intro hnew
  simp [hnew] at hidx

/-- A removal that returns keeps the views in agreement. -/
theorem remove_registered {d : Dispatching C} {cp : Channel × EPollPoller C}
    (hreg : Registered p self ch) (h : ch.remove self d p = .ok cp) :
    Registered cp.2 self cp.1 := by
  have hok := h
  unfold Channel.remove EPollPoller.removeChannel at hok
  simp only [bind_eq_ok, check_eq_ok] at hok
  obtain ⟨-, hnone, -, hactive, -, -, -, hfound, -⟩ := hok
  obtain ⟨p', heq, hreg', -⟩ := remove_ok hreg hnone hfound hactive
  rw [heq] at h
  cases h
  exact hreg'

/-- The loop refuses to remove a channel that waits to be dispatched. -/
theorem remove_inactive {d : Dispatching C} (hnone : ch.isNoneEvent = true)
    (hactive : ¬ (d.eventHandling = true →
      d.currentActiveChannel = some self ∨ self ∉ d.activeChannels)) :
    ch.remove self d p = .error (.assertion .removeChannel_inactive) := by
  rw [Channel.remove, check_of hnone, ok_bind, check, require, if_neg hactive]
  rfl

end Registration

end Reactor
