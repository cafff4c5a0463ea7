import Reactor.Connection

/-!
# Write interest and the two ways to write

What ties the backlog of a connection to the mask in the kernel and to the write-complete
callback, and the two paths a message can take to `write(2)`: at once in `sendInLoopEX`, or
through the output buffer and `handleWrite`.

* `write_interest_matches_backlog` - in every run the kernel's mask asks for `POLLOUT`
  exactly while there is a backlog, and the write-complete callback is queued exactly when
  the backlog runs out.
* `direct_write_never_taken` - the guard of the first path is the wrong way round: on an idle
  connection `sendInLoopEX` never writes, so the paths agree only where `write(2)` takes
  nothing.
-/

namespace Reactor

open Reactor.Lib

/-! ### The write-complete callback -/

def ConnFunctor.isWriteComplete : ConnFunctor → Bool
  | .writeComplete => true
  | _ => false

/-- The write-complete callbacks queued so far. -/
def writeCompletes (s : ConnProcess) : Nat :=
  (s.loops ()).pushed.countP ConnFunctor.isWriteComplete

/-- The output buffer runs empty between `w` and `w'`. -/
def Connection.Drains (w w' : Connection) : Prop :=
  w.view.conn.outputBuffer.content ≠ [] ∧ w'.view.conn.outputBuffer.content = []

instance (w w' : Connection) : Decidable (w.Drains w') :=
  inferInstanceAs (Decidable (_ ∧ _))

section Calls

variable {C : Type} [DecidableEq C] {v v' : ConnView C} {o : Oracle} {k : ConnCall} {out : Out}

/-- A call queues the write-complete callback exactly when it writes the last of the
backlog. -/
theorem CallSpec.writeComplete (h : CallSpec v o k v' out) (hinv : v.conn.Inv) :
    out.queued.countP ConnFunctor.isWriteComplete =
      if v.conn.writecompleteCB = true ∧ v.conn.outputBuffer.content ≠ [] ∧
        v'.conn.outputBuffer.content = [] then 1 else 0 := by
  cases h with
  | @took k sender data b cp hk hs hdata hwf hcontent hcp =>
      have hne : b.content ≠ [] := by simp [hcontent, hdata]
      rw [if_neg fun hc => hne hc.2.2]
      rfl
  | @writePart data b hw hwf hsplit hne =>
      rw [if_neg fun hc => hne hc.2.2]
      rfl
  | @writeAll n data b cp hw _ _ hwf hsplit hempty hset =>
      have hopen := hinv.open_of_isWriting hw
      have hbacklog := (hinv.isWriting_iff (by rcases hopen with h | h <;> simp [h])).mp hw
      have hempty' : ((v.setOutput b).setChannel cp).conn.outputBuffer.content = [] := hempty
      cases hcb : v.conn.writecompleteCB with
      | false => simp
      | true => simp [hbacklog, hempty', ConnFunctor.isWriteComplete]
  | queueInLoop =>
      rw [if_neg fun hc => hc.2.1 hc.2.2]
      rfl
  | _ =>
      rw [if_neg fun hc => hc.2.1 hc.2.2]
      rfl

/-- `handleClose` is observed on a connection that is closed from then on. -/
theorem CallSpec.closing (h : CallSpec v o k v' out) (hobs : .closing ∈ out.obs) :
    v'.conn.state = .kDisconnected := by
  cases h with
  | handleClose => rfl
  | shutdown =>
      unfold ConnView.shutdownInLoop at hobs
      split at hobs <;> simp at hobs
  | writeAll => split at hobs <;> simp at hobs
  | _ => simp at hobs

end Calls

/-! ### Runs of one connection -/

section Runs

variable {s s' : ConnProcess} {label : ConnLabel}

/-- After `handleClose` the connection stays closed. -/
theorem reachable_closing (h : connApp.system.Reachable s) (hobs : .closing ∈ s.world.trace) :
    s.world.view.conn.state = .kDisconnected := by
  refine (conn_invariant (P := fun w _ => .closing ∈ w.trace → w.view.conn.state = .kDisconnected)
    h (by simp [Connection.create]) ?_).2 hobs
  intro s label w' work' _ hinv hP hstep hmem
  cases hstep with
  | call hwork hcall =>
      rw [hwork] at hinv
      have hspec := hinv.callSpec hcall
      rcases List.mem_append.mp hmem with hmem | hmem
      · exact hspec.moves.disconnected (hP hmem)
      · exact hspec.closing hmem
  | sendPassed => exact hP (by simpa using hmem)
  | _ => exact hP hmem

/-- Outside calls, actions of foreign threads queue no write-complete callback and leave the
view alone. -/
theorem Connection.thread_view {w : Connection} {t : ConnThread}
    {out : Connection × List (Unit × ConnFunctor)} (h : w.thread t = some (.ok out)) :
    out.1.view = w.view ∧ (queuedTo () out.2).countP ConnFunctor.isWriteComplete = 0 := by
  cases t with
  | newConnection =>
      simp only [Connection.thread] at h
      split at h <;> cases h
      exact ⟨rfl, rfl⟩
  | sendCheck t m =>
      simp only [Connection.thread] at h
      split at h
      · cases h
      · split at h
        · cases hm : m.boundString with
          | error f => simp [hm, Except.map] at h
          | ok s =>
              simp only [hm, Except.map, Option.some.injEq, Except.ok.injEq] at h
              subst h
              exact ⟨rfl, rfl⟩
        · cases h
          exact ⟨rfl, rfl⟩
  | sendQueue t =>
      simp only [Connection.thread, Option.map_eq_some_iff] at h
      obtain ⟨s, -, hout⟩ := h
      cases hout
      exact ⟨rfl, rfl⟩
  | connectDestroyed =>
      simp only [Connection.thread] at h
      split at h <;> cases h
      exact ⟨rfl, rfl⟩
  | queueInLoop =>
      cases h
      exact ⟨rfl, rfl⟩

/-- One step queues the write-complete callback exactly when the backlog runs out in it. -/
theorem step_writeCompletes (h : connApp.system.Reachable s)
    (hnext : connApp.system.Next label s s') :
    writeCompletes s' = writeCompletes s +
      if s.world.view.conn.writecompleteCB = true ∧ s.world.Drains s'.world then 1 else 0 := by
  have hsame : ∀ w : Connection, w.view = s.world.view →
      ¬ (s.world.view.conn.writecompleteCB = true ∧ s.world.Drains w) := by
    rintro w hw ⟨-, hne, hnil⟩
    rw [hw] at hnil
    exact hne hnil
  rcases (next_iff_steps.mp hnext).pushed () with ⟨hw, hpush⟩ | ⟨l', o, a, rest, e, htodo, hcall,
    hw, hpush⟩ | ⟨t, out, hout, hw, hpush⟩
  · rw [if_neg (hsame _ (congrArg _ hw)), writeCompletes, hpush]
    rfl
  · rw [writeCompletes, hpush, List.countP_append, hw]
    congr 1
    change s.world.call o a = .ok e at hcall
    cases a with
    | newConnection =>
        simp only [Connection.call] at hcall
        split at hcall
        · cases hcall
          exact (if_neg (hsame _ rfl)).symm
        · cases hcall
          exact (if_neg (hsame { s.world with announced := true } rfl)).symm
    | conn k =>
        obtain ⟨tail, hwork⟩ := s.work_of_todo connApp htodo
        have hinv := reachable_connInv h
        rw [hwork] at hinv
        simp only [Connection.call, bind_eq_ok, Except.ok.injEq] at hcall
        obtain ⟨⟨v, out⟩, hv, rfl⟩ := hcall
        rw [queuedTo_unit]
        exact (hinv.callSpec hv).writeComplete hinv.inv
  · obtain ⟨hview, hnone⟩ := Connection.thread_view hout
    rw [if_neg (hsame _ (hw ▸ hview)), writeCompletes, hpush, List.countP_append, hnone]
    rfl

/-- **Write interest matches the backlog.** In every state of every run: while the connection
is in use, the kernel's mask for its descriptor is `POLLIN | POLLPRI`, with `POLLOUT` exactly
while there is a backlog, and `isWriting()` says the same; after `handleClose` the descriptor
is not in the interest set. A step queues the write-complete callback, where the user has set
one, exactly when the backlog runs out in it, and then `write(2)` has accepted every byte that
`sendInLoopEX` took. -/
theorem write_interest_matches_backlog (h : connApp.system.Reachable s) :
    (s.world.view.conn.state.Open →
      s.world.view.poller.interest s.world.view.conn.channel.fd =
        some ⟨POLLIN ||| POLLPRI |||
          (if s.world.view.conn.outputBuffer.content = [] then 0 else POLLOUT), ()⟩ ∧
      (s.world.view.conn.channel.isWriting = true ↔
        s.world.view.conn.outputBuffer.content ≠ [])) ∧
    (.closing ∈ s.world.trace →
      s.world.view.poller.interest s.world.view.conn.channel.fd = none) ∧
    ∀ label s', connApp.system.Next label s s' →
      writeCompletes s' = writeCompletes s +
        (if s.world.view.conn.writecompleteCB = true ∧ s.world.Drains s'.world then 1 else 0) ∧
      (writeCompletes s' ≠ writeCompletes s →
        written s'.world.trace = concat (taken s'.world.trace)) := by
  have hinv := reachable_connInv h
  have hreg := hinv.registered
  refine ⟨fun hopen => ⟨?_, ?_⟩, fun hobs => ?_, fun label s' hnext => ⟨?_, ?_⟩⟩
  · have hindex := hopen.indexed_iff.mp hinv.inv.index
    have hevents := hinv.inv.events
    rw [hopen.mask] at hevents
    simp only [Registered, hindex] at hreg
    rw [hreg.2, hevents]
    split <;> rfl
  · exact hinv.inv.isWriting_iff (by rcases hopen with h | h <;> simp [h])
  · have hclosed := reachable_closing h hobs
    have hindex := hinv.inv.index
    rw [hclosed] at hindex
    unfold Registered at hreg
    split at hreg
    · exact hreg.2
    · rename_i hadded
      exact absurd hadded hindex
    · exact hreg.2
  · exact step_writeCompletes h hnext
  · intro hmore
    have hstream := (reachable_connInv (.step h trivial hnext)).stream
    rw [step_writeCompletes h hnext] at hmore
    split at hmore
    · rename_i hdrains
      rw [hdrains.2.2, List.append_nil] at hstream
      exact hstream
    · simp at hmore

end Runs

/-- Five bytes are sent and the socket takes two of them. -/
def twoOfFive : List ConnLabel :=
  establishing ++
  [.poll () [.conn .userCode],
    .call () { Oracle.quiet with calls := [.send (.piece ⟨[1, 2, 3, 4, 5], by decide⟩)] },
    .call () .quiet, .call () .quiet, .handled (), .swap (), .passed (), .test (),
    .poll () [.conn (.handleEvent POLLOUT)], .call () .quiet,
    .call () { Oracle.quiet with write := .accept 2 }, .call () .quiet, .handled (), .swap (),
    .passed (), .test (), .poll () [.conn (.handleEvent POLLOUT)], .call () .quiet]

/-- The socket takes the other three: the callback is queued once, with all five written. -/
theorem write_interest_partial_write :
    ∃ s s', connApp.system.Reachable s ∧
      connApp.system.Next (.call () { Oracle.quiet with write := .accept 3 }) s s' ∧
      s.world.view.poller.interest s.world.view.conn.channel.fd =
        some ⟨POLLIN ||| POLLPRI ||| POLLOUT, ()⟩ ∧
      writeCompletes s' = writeCompletes s + 1 ∧
      written s'.world.trace = concat (taken s'.world.trace) := by
  obtain ⟨s, hs, hp⟩ := System.exists_reachable_of_replay connApp.system twoOfFive connStart
    (fun s => s.world.view.conn.state == .kConnected && s.world.view.conn.writecompleteCB &&
      s.world.view.conn.outputBuffer.content == [3, 4, 5] &&
      (connApp.system.after (.call () { Oracle.quiet with write := .accept 3 }) s).any
        fun s' => s'.world.view.conn.outputBuffer.content == [])
    connStart_init (by decide +kernel)
  simp only [Bool.and_eq_true, beq_iff_eq, Option.any_eq_true] at hp
  obtain ⟨⟨⟨hstate, hcb⟩, hcontent⟩, s', hafter, hempty⟩ := hp
  have hnext := System.next_of_after hafter
  obtain ⟨hopen, -, hstep⟩ := write_interest_matches_backlog hs
  obtain ⟨hcount, hwritten⟩ := hstep _ s' hnext
  rw [if_pos ⟨hcb, by simp [hcontent], hempty⟩] at hcount
  refine ⟨s, s', hs, hnext, ?_, hcount, hwritten (by omega)⟩
  rw [(hopen (Or.inl hstate)).1, if_neg (by simp [hcontent])]

/-! ### Two ways to write -/

section Paths

variable {C : Type} [DecidableEq C]

def Obs.isAttempt : Obs → Bool
  | .wrote _ => true
  | .writeFailed _ => true
  | _ => false

/-- The calls of `write(2)`, each with what it made of the bytes. -/
def attempts (tr : List Obs) : List Obs := tr.filter Obs.isAttempt

/-- A call of `write(2)` that is offered `data`. -/
def WriteResult.attempt (data : Bytes) : WriteResult → Obs
  | .accept n => .wrote (data.take n)
  | .fail err => .writeFailed err

/-- What is left of `data` after such a call. -/
def WriteResult.rest (data : Bytes) : WriteResult → Bytes
  | .accept n => data.drop n
  | .fail _ => data

namespace ConnView

/-- The message put behind the backlog, with write interest on. -/
def bufferMessage (v : ConnView C) (data : Bytes) : Exec (ConnView C) := do
  let b ← v.conn.outputBuffer.append data
  let cp ← v.conn.channel.enableWriting v.self v.poller
  .ok ((v.setOutput b).setChannel cp)

/-- The backlog path: the message is buffered, then `handleWrite` runs. -/
def backlogPath (v : ConnView C) (data : Bytes) (w : WriteResult) : Exec (ConnView C × Out) := do
  let v' ← v.bufferMessage data
  v'.handleWrite w

/-- The two ends agree in the output buffer, the mask, its registration and the queued
functors. -/
structure SameEnd (end₁ end₂ : ConnView C × Out) : Prop where
  output : end₁.1.conn.outputBuffer.content = end₂.1.conn.outputBuffer.content
  events : end₁.1.conn.channel.events = end₂.1.conn.channel.events
  interest : end₁.1.poller.interest = end₂.1.poller.interest
  queued : end₁.2.queued = end₂.2.queued

/-- `sendInLoopEX` offers the whole message to `write(2)` once and ends as the backlog path
does with the same outcome. -/
def DirectWrite (v : ConnView C) (sender : Sender) (data : Bytes) (w : WriteResult) : Prop :=
  ∃ end₁ end₂, v.sendInLoopEX sender data w = .ok end₁ ∧ v.backlogPath data w = .ok end₂ ∧
    attempts end₁.2.obs = [w.attempt data] ∧ SameEnd end₁ end₂

end ConnView

section Idle

variable {v : ConnView C} {sender : Sender} {data : Bytes} {w : WriteResult}

/-- On an idle connection `sendInLoopEX` buffers the message and calls no `write(2)`. -/
theorem sendInLoopEX_idle (hopen : v.conn.state ≠ .kDisconnected)
    (hidle : v.conn.channel.isWriting = false) (hempty : v.conn.outputBuffer.readableBytes = 0)
    (hdata : data ≠ []) :
    v.sendInLoopEX sender data w =
      (v.bufferMessage data).map fun v' => (v', { obs := [.took sender data] }) := by
  have hlen : 0 < data.length := List.length_pos_iff.mpr hdata
  unfold ConnView.sendInLoopEX ConnView.bufferMessage
  rw [if_neg hopen]
  simp only [hidle, hempty, check_of, Bool.not_false, ne_eq, not_true_eq_false, and_false,
    if_false, Nat.le_refl, ok_bind, hlen, true_and, if_true, List.drop_zero, List.take_length]
  cases v.conn.outputBuffer.append data with
  | error f => rfl
  | ok b =>
      simp only [ok_bind]
      cases v.conn.channel.enableWriting v.self v.poller <;> rfl

/-- What `handleWrite` makes of a backlog: it keeps what `write(2)` left, and changes nothing
when that is everything. -/
theorem handleWrite_output {out : Out} {v' : ConnView C} (hwf : v.conn.outputBuffer.WF)
    (hw : v.conn.channel.isWriting = true) (h : v.handleWrite w = .ok (v', out)) :
    v'.conn.outputBuffer.content = w.rest v.conn.outputBuffer.content ∧
      (w.rest v.conn.outputBuffer.content = v.conn.outputBuffer.content →
        v.conn.outputBuffer.content ≠ [] → v' = v ∧ out.queued = []) := by
  unfold ConnView.handleWrite at h
  rw [if_pos hw] at h
  cases w with
  | fail err =>
      cases h
      exact ⟨rfl, fun _ _ => ⟨rfl, rfl⟩⟩
  | accept n =>
      simp only at h
      by_cases hsome : 0 < (v.conn.outputBuffer.content.take n).length
      · simp only [if_pos hsome, bind_eq_ok] at h
        obtain ⟨b, hret, h⟩ := h
        have hcontent : b.content = v.conn.outputBuffer.content.drop n := by
          rw [(Buffer.retrieve_ok hwf hret).2, List.length_take]
          rcases Nat.le_total n v.conn.outputBuffer.content.length with hle | hle
          · rw [Nat.min_eq_left hle]
          · rw [Nat.min_eq_right hle, List.drop_length, List.drop_of_length_le hle]
        have hshort : v.conn.outputBuffer.content.drop n ≠ v.conn.outputBuffer.content := by
          intro heq
          have := congrArg List.length heq
          rw [List.length_drop] at this
          rw [List.length_take] at hsome
          omega
        have hout : v'.conn.outputBuffer.content = b.content := by
          split at h
          · simp only [bind_eq_ok] at h
            obtain ⟨cp, -, h⟩ := h
            cases h
            rfl
          · cases h
            rfl
        exact ⟨hout.trans hcontent, fun heq => absurd heq hshort⟩
      · rw [if_neg hsome] at h
        cases h
        have hnone : v.conn.outputBuffer.content.drop n = v.conn.outputBuffer.content := by
          rw [List.length_take] at hsome
          rcases Nat.eq_zero_or_pos n with rfl | hn
          · rfl
          · have hnil := List.eq_nil_of_length_eq_zero
              (show v.conn.outputBuffer.content.length = 0 by omega)
            rw [hnil, List.drop_nil]
        exact ⟨hnone.symm, fun _ _ => ⟨rfl, rfl⟩⟩

/-- The message is the whole backlog after it was buffered, with write interest on. -/
theorem bufferMessage_output {v' : ConnView C} (hwf : v.conn.outputBuffer.WF)
    (hempty : v.conn.outputBuffer.content = []) (hlen : data.length ≤ maxSize)
    (h : v.bufferMessage data = .ok v') :
    v'.conn.outputBuffer.WF ∧ v'.conn.outputBuffer.content = data ∧
      v'.conn.channel.isWriting = true := by
  simp only [ConnView.bufferMessage, bind_eq_ok, Except.ok.injEq] at h
  obtain ⟨b, happ, cp, hset, rfl⟩ := h
  obtain ⟨hwf', hcontent, -⟩ := Buffer.append_ok hwf (hwf.fits hlen) happ
  refine ⟨hwf', ?_, ?_⟩
  · rw [hempty, List.nil_append] at hcontent
    exact hcontent
  · have hevents : cp.1.events = v.conn.channel.events ||| kWriteEvent :=
      congrArg Channel.events (setEvents_channel hset)
    show cp.1.isWriting = true
    have habsorb : (v.conn.channel.events ||| kWriteEvent) &&& kWriteEvent = kWriteEvent := by
      rw [BitVec.and_comm, BitVec.and_or_distrib_left, BitVec.and_self]
      ext i
      simp only [BitVec.getElem_or, BitVec.getElem_and]
      cases kWriteEvent[i] <;> simp
    rw [Channel.isWriting, hevents, habsorb]
    decide

end Idle

end Paths

/-- **The direct write is never taken.** On a connection in use and idle, whatever the message
and whatever `write(2)` would do, `sendInLoopEX` does not write at once and end like the backlog
path: it makes no call of `write(2)` at all, and it ends like that path exactly when `write(2)`
takes nothing. -/
theorem direct_write_never_taken {s : ConnProcess} (h : connApp.system.Reachable s)
    (hopen : s.world.view.conn.state.Open) (hidle : s.world.view.conn.channel.isWriting = false)
    (hempty : s.world.view.conn.outputBuffer.content = []) (sender : Sender) (m : Message)
    (hm : m.content ≠ []) (w : WriteResult) :
    ¬ s.world.view.DirectWrite sender m.content w ∧
      ∀ end₁ end₂, s.world.view.sendInLoopEX sender m.content w = .ok end₁ →
        s.world.view.backlogPath m.content w = .ok end₂ →
        attempts end₁.2.obs = [] ∧ (ConnView.SameEnd end₁ end₂ ↔ w.rest m.content = m.content) := by
  have hinv := (reachable_connInv h).inv
  have hsend : s.world.view.sendInLoopEX sender m.content w =
      (s.world.view.bufferMessage m.content).map
        fun v' => (v', { obs := [.took sender m.content] }) := by
    apply sendInLoopEX_idle _ hidle (hinv.wf.readableBytes_eq_zero_iff.mpr hempty) hm
    rcases hopen with h | h <;> simp [h]
  have hends : ∀ end₁ end₂, s.world.view.sendInLoopEX sender m.content w = .ok end₁ →
      s.world.view.backlogPath m.content w = .ok end₂ →
      attempts end₁.2.obs = [] ∧ (ConnView.SameEnd end₁ end₂ ↔ w.rest m.content = m.content) := by
    intro end₁ end₂ h₁ h₂
    simp only [ConnView.backlogPath, bind_eq_ok] at h₂
    obtain ⟨v, hbuf, h₂⟩ := h₂
    rw [hsend, hbuf] at h₁
    cases h₁
    obtain ⟨hwf, hcontent, hw⟩ := bufferMessage_output hinv.wf hempty m.length_content_le hbuf
    obtain ⟨hout, hnone⟩ := handleWrite_output hwf hw h₂
    rw [hcontent] at hout hnone
    refine ⟨rfl, fun hsame => ?_, fun hrest => ?_⟩
    · rw [← hout, ← hsame.output]
      exact hcontent
    · obtain ⟨hv, hq⟩ := hnone hrest hm
      exact ⟨by rw [hv], by rw [hv], by rw [hv], hq.symm⟩
  refine ⟨?_, hends⟩
  rintro ⟨end₁, end₂, h₁, h₂, hatt, -⟩
  rw [(hends end₁ end₂ h₁ h₂).1] at hatt
  cases hatt

/-- A connection that was just established is idle. -/
theorem exists_idle :
    ∃ s : ConnProcess, connApp.system.Reachable s ∧ s.world.view.conn.state = .kConnected ∧
      s.world.view.conn.channel.isWriting = false ∧
      s.world.view.conn.outputBuffer.content = [] ∧
      (match s.world.view.sendInLoopEX .loop [7] (.accept 1) with
        | .ok end₁ => attempts end₁.2.obs = [] ∧ end₁.1.conn.outputBuffer.content = [7]
        | .error _ => False) := by
  obtain ⟨s, hs, hp⟩ := System.exists_reachable_of_replay connApp.system establishing connStart
    (fun s => s.world.view.conn.state == .kConnected && !s.world.view.conn.channel.isWriting &&
      s.world.view.conn.outputBuffer.content == [] &&
      match s.world.view.sendInLoopEX .loop [7] (.accept 1) with
      | .ok end₁ => attempts end₁.2.obs == [] && end₁.1.conn.outputBuffer.content == [7]
      | .error _ => false)
    connStart_init (by decide +kernel)
  simp only [Bool.and_eq_true, beq_iff_eq, Bool.not_eq_true'] at hp
  obtain ⟨⟨⟨hstate, hidle⟩, hempty⟩, hp⟩ := hp
  refine ⟨s, hs, hstate, hidle, hempty, ?_⟩
  split at hp
  · simpa using hp
  · cases hp

/-- One byte on an idle connection whose socket would take it: it stays in the output buffer. -/
theorem idle_send_not_written :
    ∃ s : ConnProcess, connApp.system.Reachable s ∧ s.world.view.conn.state = .kConnected ∧
      s.world.view.conn.channel.isWriting = false ∧
      s.world.view.conn.outputBuffer.content = [] ∧
      ¬ s.world.view.DirectWrite .loop [7] (.accept 1) := by
  obtain ⟨s, hs, hstate, hidle, hempty, hsend⟩ := exists_idle
  refine ⟨s, hs, hstate, hidle, hempty, ?_⟩
  rintro ⟨end₁, end₂, h₁, -, hatt, -⟩
  simp only [h₁] at hsend
  rw [hsend.1] at hatt
  cases hatt

/-- The same byte as an instance of the general statement. -/
theorem direct_write_never_taken_byte :
    ∃ s : ConnProcess, connApp.system.Reachable s ∧
      ¬ s.world.view.DirectWrite .loop [7] (.accept 1) := by
  obtain ⟨s, hs, hstate, hidle, hempty, -⟩ := exists_idle
  exact ⟨s, hs, (direct_write_never_taken hs (Or.inl hstate) hidle hempty .loop
    (.piece ⟨[7], by decide⟩) (by simp [Message.content]) (.accept 1)).1⟩

end Reactor
