import Reactor.ConnectionLife

/-!
# The server of `main.cpp`

One loop, the default callbacks: the message callback takes everything out of the input
buffer and sends it back, the others only write log lines.

* `defaultMessageCallback`, `DefaultCallbacks` - the runs of this server.
* `EchoConn` - the account of one connection: what was written, what waits in the output
  buffer and what is being echoed is what was read.
* `echoes_exactly` - it holds of every connection in every reachable state, with the input
  buffer empty and small.
-/

namespace Reactor

open Reactor.Lib

/-- `defaultMessageCallback`. -/
def defaultMessageCallback (buf : Buffer) : Exec (Buffer × List UserCall) := do
  let (msg, buf) ← buf.retrieveAllAsString
  if h : msg.length ≤ maxSize then .ok (buf, [.send (.piece ⟨msg, h⟩)]) else .error .lengthError

/-- The callbacks are the default ones and no foreign thread acts. -/
def DefaultCallbacks (_ : ServerProcess 0) : ServerLabel 0 → Prop
  | .call _ o => o.onMessage = defaultMessageCallback ∧ o.calls = []
  | .thread _ => False
  | _ => True

def Obs.received : Obs → Bytes
  | .read .kConnected data => data
  | _ => []

/-- The bytes that `readFd` returned to `handleRead` while the connection was
`kConnected`. -/
def received (tr : List Obs) : Bytes := tr.flatMap Obs.received

@[simp] theorem received_append (tr tr' : List Obs) :
    received (tr ++ tr') = received tr ++ received tr' := List.flatMap_append

/-! ### Messages on their way to the output buffer -/

/-- The calls of user code and those of `send`. -/
def ConnCall.isSend : ConnCall → Bool
  | .user _ => true
  | .sendInLoop _ _ => true
  | .sendInLoopEX _ _ => true
  | _ => false

/-- The message a call of `send` brings. -/
def ConnCall.message : ConnCall → Bytes
  | .user (.send m) => m.content
  | .sendInLoop _ message => message.data
  | _ => []

/-- What a connection is about to append to its output buffer when its next call is `k`. -/
def echoing (s : StateE) (k : ConnCall) : Bytes := if s = .kConnected then k.message else []

/-- The calls of `send` in the default server: user code sends a string of one read, and
`sendInLoop` gets it at once. -/
def ConnCall.Echoes (s : StateE) : ConnCall → Prop
  | .user u => ∃ m, u = .send (.piece m) ∧ m.1.length ≤ intMax
  | .sendInLoop sender message => sender = .loop ∧ s = .kConnected ∧
      ∃ m, m.length ≤ intMax ∧ message = .ofString m
  | .sendInLoopEX _ _ => False
  | _ => True

theorem message_of_not_isSend {k : ConnCall} (h : k.isSend = false) : k.message = [] := by
  cases k <;> simp_all [ConnCall.isSend, ConnCall.message]

theorem echoes_of_not_isSend {k : ConnCall} (h : k.isSend = false) (s : StateE) : k.Echoes s := by
  cases k <;> simp_all [ConnCall.isSend, ConnCall.Echoes]

/-! ### One connection -/

/-- The account of one connection, with `owed` on its way to the output buffer. The input
buffer is empty and within the bytes of one read. -/
structure EchoConn (conn : TcpConnection) (tr : List Obs) (owed : Bytes) : Prop where
  stream : written tr ++ conn.outputBuffer.content ++ owed = received tr
  wf : conn.inputBuffer.WF
  reader : conn.inputBuffer.readerIndex = kCheapPrepend
  writer : conn.inputBuffer.writerIndex = kCheapPrepend
  small : conn.inputBuffer.buffer.length ≤ kCheapPrepend + 131071

section Conn

variable {C : Type} [DecidableEq C] {v v' : ConnView C} {o : Oracle} {k : ConnCall} {out : Out}
  {tr : List Obs}

theorem create_echoConn (sockfd : Int) (writecompleteCB : Bool) :
    EchoConn (.create sockfd writecompleteCB) [] [] where
  stream := by simp [TcpConnection.create, written, received]
  wf := Buffer.create_wf (by decide)
  reader := rfl
  writer := rfl
  small := by
    change (List.replicate (kCheapPrepend + kInitialSize) _).length ≤ _
    rw [List.length_replicate]
    decide

/-- What is to come after a call: either nothing of `send`, or one message at the front. -/
def NextEchoes (s : StateE) : List ConnCall → Prop
  | [] => True
  | k :: ks => k.Echoes s ∧ ∀ k' ∈ ks, k'.isSend = false

/-- What is being echoed when `ks` are the next calls. -/
def echoingNext (s : StateE) : List ConnCall → Bytes
  | [] => []
  | k :: _ => echoing s k

theorem nextEchoes_of {s : StateE} {ks : List ConnCall} (h : ∀ k ∈ ks, k.isSend = false) :
    NextEchoes s ks ∧ echoingNext s ks = [] := by
  cases ks with
  | nil => exact ⟨trivial, rfl⟩
  | cons k ks =>
      refine ⟨⟨echoes_of_not_isSend (h k (by simp)) s, fun k' hk' => h k' (by simp [hk'])⟩, ?_⟩
      simp [echoingNext, echoing, message_of_not_isSend (h k (by simp))]

/-- A call that leaves the input buffer alone, reads nothing and takes what is owed. -/
theorem EchoConn.takes (h : EchoConn v.conn tr (echoing v.conn.state k))
    (hspec : CallSpec v o k v' out)
    (htaken : concat (taken out.obs) = echoing v.conn.state k) (hread : received out.obs = [])
    (hinput : v'.conn.inputBuffer = v.conn.inputBuffer) : EchoConn v'.conn (tr ++ out.obs) [] := by
  refine ⟨?_, hinput ▸ h.wf, hinput ▸ h.reader, hinput ▸ h.writer, hinput ▸ h.small⟩
  rw [List.append_nil, written_append, received_append, hread, List.append_nil,
    List.append_assoc, hspec.stream, htaken, ← List.append_assoc, h.stream]

/-- What `sendInLoop` gets is taken into the output buffer. -/
theorem ConnCall.Echoes.inFlight {s : StateE} {sender : Sender} {data : Bytes} (h : k.Echoes s)
    (hk : k.inFlight = some (sender, data)) : s = .kConnected ∧ echoing s k = data := by
  cases k with
  | sendInLoop sender' message =>
      obtain ⟨-, rfl, m, hm, rfl⟩ := h
      simp only [ConnCall.inFlight, StringPiece.bytes_ofString hm, Except.toOption,
        Option.map_some, Option.some.injEq, Prod.mk.injEq] at hk
      exact ⟨rfl, hk.2⟩
  | sendInLoopEX sender' data' => exact h.elim
  | _ => cases hk

omit [DecidableEq C] in
/-- A read that delivers nothing. -/
theorem EchoConn.nothing {b : Buffer} {r : Buffer.ReadFd} (h : EchoConn v.conn tr [])
    (hread : v.conn.inputBuffer.readFd o.read = .ok (b, r)) (hn : r.n ≤ 0) :
    EchoConn (v.setInput b).conn tr [] := by
  obtain ⟨hreader, hwriter⟩ := Buffer.readFd_nothing h.wf hread hn
  refine ⟨by simpa [ConnView.setInput] using h.stream, (Buffer.readFd_ok h.wf hread).1, ?_, ?_,
    Buffer.readFd_length_le h.wf h.writer h.small hread⟩
  · exact hreader.trans h.reader
  · exact hwriter.trans h.writer

omit [DecidableEq C] in
/-- The default message callback on the bytes of a read: the message is what was read. -/
theorem EchoConn.echo {b b' : Buffer} {r : Buffer.ReadFd} {calls : List UserCall}
    (h : EchoConn v.conn tr []) (hread : v.conn.inputBuffer.readFd o.read = .ok (b, r))
    (hmsg : defaultMessageCallback b = .ok (b', calls)) :
    ∃ m : { s : Bytes // s.length ≤ maxSize }, calls = [.send (.piece m)] ∧
      m.1.length ≤ intMax ∧
      EchoConn (v.setInput b').conn (tr ++ [.read v.conn.state r.data])
        (echoing v.conn.state (.user (.send (.piece m)))) := by
  obtain ⟨hwf, hcontent, -⟩ := Buffer.readFd_ok h.wf hread
  have hsmall := Buffer.readFd_length_le h.wf h.writer h.small hread
  have hempty : v.conn.inputBuffer.content = [] := by
    rw [← h.wf.readableBytes_eq_zero_iff, h.wf.readableBytes_eq, h.reader, h.writer]
    rfl
  rw [hempty, List.nil_append] at hcontent
  have hlen : b.content.length ≤ kCheapPrepend + 131071 := by
    have hread := hwf.readableBytes_eq
    have hw := hwf.writer_le
    rw [hwf.length_content]
    omega
  have hmax : b.content.length ≤ maxSize := hlen.trans (by decide)
  simp only [defaultMessageCallback, Buffer.retrieveAllAsString_ok hwf, ok_bind, dif_pos hmax,
    Except.ok.injEq, Prod.mk.injEq] at hmsg
  obtain ⟨rfl, rfl⟩ := hmsg
  refine ⟨⟨b.content, hmax⟩, rfl, hlen.trans (by decide), ?_, hwf.retrieveAll, rfl, rfl, hsmall⟩
  have hsum := h.stream
  rw [List.append_nil] at hsum
  have hecho : echoing v.conn.state (.user (.send (.piece ⟨b.content, hmax⟩))) =
      received [.read v.conn.state r.data] := by
    unfold echoing received
    split
    · rename_i hs
      simp [hs, ConnCall.message, Message.content, Obs.received, hcontent]
    · rename_i hs
      cases hstate : v.conn.state <;> simp_all [Obs.received]
  rw [hecho, written_append, received_append, ← hsum]
  simp [written, Obs.written, ConnView.setInput]

theorem EchoConn.call (h : EchoConn v.conn tr (echoing v.conn.state k))
    (hk : k.Echoes v.conn.state) (hspec : CallSpec v o k v' out)
    (hmsg : o.onMessage = defaultMessageCallback) (hcalls : o.calls = []) :
    EchoConn v'.conn (tr ++ out.obs) (echoingNext v'.conn.state out.calls) ∧
      NextEchoes v'.conn.state out.calls := by
  have htakes := h.takes hspec
  -- a call that has nothing to do with reading or sending
  have hquiet : k.message = [] → taken out.obs = [] → received out.obs = [] →
      v'.conn.inputBuffer = v.conn.inputBuffer → (∀ k' ∈ out.calls, k'.isSend = false) →
      EchoConn v'.conn (tr ++ out.obs) (echoingNext v'.conn.state out.calls) ∧
        NextEchoes v'.conn.state out.calls := by
    intro hmessage htaken hread hinput hnone
    obtain ⟨hnext, hecho⟩ := nextEchoes_of (s := v'.conn.state) hnone
    rw [hecho]
    exact ⟨htakes (by simp [htaken, concat, echoing, hmessage]) hread hinput, hnext⟩
  cases hspec with
  | send m hs =>
      obtain ⟨m', hm, hlen⟩ := hk
      cases hm
      refine ⟨⟨?_, h.wf, h.reader, h.writer, h.small⟩, ⟨rfl, hs, _, hlen, rfl⟩, by simp⟩
      have hsum := h.stream
      simpa [echoingNext, echoing, hs, ConnCall.message, Message.loopCall, Message.content,
        StringPiece.ofString, written, Obs.written, received, Obs.received] using hsum
  | sendRefused m hs =>
      refine ⟨?_, trivial⟩
      simpa [echoing, hs, echoingNext] using h
  | shutdown hs =>
      obtain ⟨m, hm, -⟩ := hk
      cases hm
  | shutdownRefused hs =>
      obtain ⟨m, hm, -⟩ := hk
      cases hm
  | queueInLoop =>
      obtain ⟨m, hm, -⟩ := hk
      cases hm
  | userCode => exact hquiet rfl rfl rfl rfl (by simp [hcalls])
  | gaveUp hflight hs => cases hs.symm.trans (hk.inFlight hflight).1
  | gaveUpUnread hflight hs => cases hs.symm.trans hk.2.1
  | tookNothing hflight hs =>
      have hecho := (hk.inFlight hflight).2
      exact ⟨htakes (by rw [hecho]; rfl) rfl rfl, trivial⟩
  | took hflight hs hdata hwf hcontent hcp =>
      have hecho := (hk.inFlight hflight).2
      refine ⟨htakes ?_ rfl rfl, trivial⟩
      rw [hecho]
      simp [taken, Obs.taken, concat]
  | handleEvent =>
      refine hquiet rfl rfl rfl rfl fun k' hk' => ?_
      rcases mem_handleEvent hk' with rfl | rfl | rfl | rfl | rfl <;> rfl
  | readData hread hpos hdeliver =>
      rw [hmsg] at hdeliver
      have hnone : EchoConn v.conn tr [] := by simpa [echoing, ConnCall.message] using h
      obtain ⟨m, rfl, hlen, hecho⟩ := hnone.echo hread hdeliver
      exact ⟨hecho, ⟨m, rfl, hlen⟩, by simp⟩
  | readEof hread hn =>
      have hnone : EchoConn v.conn tr [] := by simpa [echoing, ConnCall.message] using h
      have hsame := hnone.nothing hread (Int.le_of_eq hn)
      simpa [echoingNext, echoing, ConnCall.message, NextEchoes, ConnCall.Echoes] using hsame
  | readError hread hn =>
      have hnone : EchoConn v.conn tr [] := by simpa [echoing, ConnCall.message] using h
      have hsame := hnone.nothing hread (Int.le_of_lt hn)
      simpa [echoingNext, echoing, ConnCall.message, NextEchoes, ConnCall.Echoes] using hsame
  | writeIdle => exact hquiet rfl rfl rfl rfl (by simp)
  | writeFailed => exact hquiet rfl rfl rfl rfl (by simp)
  | writeNothing => exact hquiet rfl rfl rfl rfl (by simp)
  | writePart => exact hquiet rfl rfl rfl rfl (by simp)
  | writeAll =>
      refine hquiet rfl ?_ ?_ rfl (by simp)
      · split <;> rfl
      · split <;> rfl
  | handleClose => exact hquiet rfl rfl rfl rfl (by simp [hcalls, ConnCall.isSend])
  | handleError => exact hquiet rfl rfl rfl rfl (by simp)
  | connectEstablished => exact hquiet rfl rfl rfl rfl (by simp [hcalls])
  | disconnect => exact hquiet rfl rfl rfl rfl (by simp [hcalls, ConnCall.isSend])
  | connectDestroyed => exact hquiet rfl rfl rfl rfl (by simp [ConnCall.isSend])
  | closeCallback => exact hquiet rfl rfl rfl rfl (by simp)
  | channelRemove => exact hquiet rfl rfl rfl rfl (by simp)
  | unguard => exact hquiet rfl rfl rfl rfl (by simp)

end Conn

/-! ### The server -/

def ServerAct.isSend : ServerAct → Bool
  | .conn _ k => k.isSend
  | _ => false

/-- What connection `c` is echoing when `acts` are the calls to come: the message callback is
in the middle of `handleRead`. -/
def owed (c : Nat) (s : StateE) : List ServerAct → Bytes
  | .conn c' k :: _ => if c' = c then echoing s k else []
  | _ => []

/-- The account of every connection is right, and only the next call may bring a message. -/
structure EchoInv (w : ServerWorld 0) (acts : List ServerAct) : Prop where
  conns : ∀ c, EchoConn (w.conns c).conn (w.conns c).trace (owed c (w.conns c).conn.state acts)
  calm : ∀ a ∈ acts.tail, a.isSend = false
  head : ∀ c k rest, acts = .conn c k :: rest → k.Echoes (w.conns c).conn.state

section Server

variable {cfg : ServerConfig} {w w' : ServerWorld 0} {work work' : LoopId 0 → List ServerAct}
  {acts tail : List ServerAct} {a : ServerAct}

theorem owed_of_calm {c : Nat} {s : StateE} (h : ∀ a ∈ acts, a.isSend = false) :
    owed c s acts = [] := by
  unfold owed
  split
  · rename_i c' k rest
    have hk : k.isSend = false := h (.conn c' k) (by simp)
    simp [echoing, message_of_not_isSend hk]
  · rfl

theorem echoInv_of_calm (hconns : ∀ c, EchoConn (w.conns c).conn (w.conns c).trace [])
    (hacts : ∀ a ∈ acts, a.isSend = false) : EchoInv w acts := by
  refine ⟨fun c => ?_, fun a ha => hacts a (List.mem_of_mem_tail ha), ?_⟩
  · rw [owed_of_calm hacts]
    exact hconns c
  · rintro c k rest rfl
    exact echoes_of_not_isSend (hacts (.conn c k) (by simp)) _

/-- When the next call brings no message, nothing is under way. -/
theorem EchoInv.settled (h : EchoInv w (a :: tail)) (ha : a.isSend = false) :
    (∀ c, EchoConn (w.conns c).conn (w.conns c).trace []) ∧ ∀ a ∈ tail, a.isSend = false := by
  refine ⟨fun c => ?_, h.calm⟩
  have hacts : ∀ a' ∈ a :: tail, a'.isSend = false := by
    intro a' ha'
    rcases List.mem_cons.mp ha' with rfl | ha'
    · exact ha
    · exact h.calm a' ha'
  have hconn := h.conns c
  rwa [owed_of_calm hacts] at hconn

/-- What is queued are functors, and no thread has queued a send. -/
theorem EchoInv.calm_functors {cbs : List ServerFunctor}
    (h : EchoInv w (cbs.flatMap ServerFunctor.body)) :
    ∀ a ∈ cbs.flatMap ServerFunctor.body, a.isSend = false := by
  intro a ha
  by_cases htail : a ∈ (cbs.flatMap ServerFunctor.body).tail
  · exact h.calm a htail
  · obtain ⟨f, -, hf⟩ := List.mem_flatMap.mp ha
    cases hacts : cbs.flatMap ServerFunctor.body with
    | nil => simp [hacts] at ha
    | cons a' tail =>
        rw [hacts] at ha htail
        obtain rfl : a = a' := (List.mem_cons.mp ha).resolve_right htail
        cases f with
        | conn d f =>
            cases f with
            | sendInLoop t m =>
                cases List.mem_singleton.mp hf
                cases (h.head _ _ _ hacts).1
            | _ =>
                cases List.mem_singleton.mp hf
                rfl
        | removeConnectionInLoop d =>
            cases List.mem_singleton.mp hf
            rfl

/-- The calls of the server bring no message. -/
theorem isSend_of_isServer (h : a.isServer = true) : a.isSend = false := by
  cases a with
  | conn d k => cases k <;> first | rfl | cases h
  | _ => rfl

theorem isSend_of_isServer_body {f : ServerFunctor} (h : f.isServer = true) (ha : a ∈ f.body) :
    a.isSend = false := by
  cases f with
  | conn d f =>
      cases f with
      | sendInLoop => cases h
      | _ =>
          cases List.mem_singleton.mp ha
          rfl
  | removeConnectionInLoop =>
      cases List.mem_singleton.mp ha
      rfl

/-- The functors that calls queue bring no message. -/
theorem ServerCall.queued_calm {l : LoopId 0} {o : ServerOracle} {e : ServerEffect 0}
    (h : ServerCall cfg w l o a e) (hinv : ServerInv w work) (hwork : work l = a :: tail)
    (l' : LoopId 0) :
    ∀ a' ∈ (queuedTo l' e.queued).flatMap ServerFunctor.body, a'.isSend = false := by
  intro a' ha'
  obtain ⟨f, hf, hbody⟩ := List.mem_flatMap.mp ha'
  obtain ⟨q, hq, rfl⟩ := mem_queuedTo hf
  rcases h.queued_mem hq with hserver | ⟨d, k, v, out, rfl, hcall, f, hf, heq⟩
  · exact isSend_of_isServer_body hserver hbody
  · obtain ⟨-, -, hspec⟩ := hinv.callSpec hwork hcall
    rw [heq] at hbody
    obtain ⟨k', hk', rfl⟩ := List.mem_map.mp hbody
    have huser := hspec.queued_body k' (List.mem_flatMap.mpr ⟨f, hf, hk'⟩)
    rw [huser]
    rfl

/-- A call of a connection. -/
theorem EchoInv.call_conn {l : LoopId 0} {o : ServerOracle} {d : Nat} {k : ConnCall}
    {v : ConnView ChannelPtr} {out : Out} {rest : List ServerAct}
    (h : EchoInv w (.conn d k :: tail))
    (hspec : CallSpec ((w.noteCurrent l d k).view d) o.toOracle k v out)
    (hmsg : o.onMessage = defaultMessageCallback) (hcalls : o.calls = [])
    (hrest : ∀ a ∈ rest, a.isSend = false) :
    EchoInv ((w.noteCurrent l d k).setView d v out.obs) (out.calls.map (.conn d) ++ rest) := by
  have hview : ((w.noteCurrent l d k).view d).conn = (w.conns d).conn := by
    simp [ServerWorld.view]
  have hself := h.conns d
  simp only [owed, if_true] at hself
  have hecho := h.head d k tail rfl
  rw [← hview] at hself hecho
  obtain ⟨hconn, hnext⟩ := hself.call hecho hspec hmsg hcalls
  have hrecord : ((w.noteCurrent l d k).setView d v out.obs).conns d =
      { w.conns d with conn := v.conn, trace := (w.conns d).trace ++ out.obs } := by
    simp [ServerWorld.setView]
  have howed : ∀ c s, owed c s (out.calls.map (.conn d) ++ rest) =
      if d = c then echoingNext s out.calls else [] := by
    intro c s
    cases hks : out.calls with
    | nil =>
        rw [List.map_nil, List.nil_append, owed_of_calm hrest]
        split <;> rfl
    | cons k' ks => rfl
  refine ⟨fun c => ?_, ?_, ?_⟩
  · by_cases hc : d = c
    · subst hc
      rw [howed, if_pos rfl, hrecord]
      exact hconn
    · have hother := h.conns c
      simp only [owed, if_neg hc] at hother
      rw [howed, if_neg hc]
      simpa [ServerWorld.setView, Function.update_of_ne (Ne.symm hc)] using hother
  · intro a ha
    cases hks : out.calls with
    | nil =>
        rw [hks] at ha
        exact hrest a (List.mem_of_mem_tail ha)
    | cons k' ks =>
        rw [hks] at ha hnext
        rcases List.mem_append.mp ha with ha | ha
        · obtain ⟨k'', hk'', rfl⟩ := List.mem_map.mp ha
          exact hnext.2 k'' hk''
        · exact hrest a ha
  · intro c k' rest' hacts
    cases hks : out.calls with
    | nil =>
        rw [hks, List.map_nil, List.nil_append] at hacts
        exact echoes_of_not_isSend (hrest (.conn c k') (by simp [hacts])) _
    | cons k'' ks =>
        rw [hks] at hacts hnext
        cases hacts
        rw [hrecord]
        exact hnext.1

/-- **Every step of the default server keeps the account of every connection.** -/
theorem Progress.echoInv {s : ServerProcess 0} {label : ServerLabel 0}
    (hprog : Progress (serverApp 0 cfg) w work label w' work') (hinv : ServerInv w work)
    (hok : DefaultCallbacks s label) (h : EchoInv w (work 0)) : EchoInv w' (work' 0) := by
  cases hprog with
  | silent => exact h
  | @poll l active cbs _ hready hqueue hwork _ =>
      obtain rfl : l = 0 := Fin.fin_one_eq_zero l
      have hcalm : ∀ a ∈ work 0, a.isSend = false := by
        rw [hqueue] at h ⊢
        exact h.calm_functors
      have hact : ∀ a ∈ active, a.isSend = false := by
        obtain ⟨evs, rfl, -⟩ := ready_cases hready
        intro a ha
        cases List.mem_singleton.mp ha
        rfl
      rw [hwork]
      refine echoInv_of_calm (fun c => ?_) fun a ha => (List.mem_append.mp ha).elim (hact a) (hcalm a)
      have hconn := h.conns c
      rwa [owed_of_calm hcalm] at hconn
  | @call l o a tail e _ hhead hcall hwork _ =>
      obtain rfl : l = 0 := Fin.fin_one_eq_zero l
      have hspec := serverCall hcall
      have hqueued : ∀ a' ∈ (queuedTo 0 e.queued).flatMap (serverApp 0 cfg).body,
          a'.isSend = false := hspec.queued_calm hinv hhead 0
      rw [hhead] at h
      rw [hwork]
      -- a call that is none of a connection's
      have hplain : a.isSend = false → (∀ d k, a ≠ .conn d k) →
          (∀ c, EchoConn (w.conns c).conn (w.conns c).trace [] →
            EchoConn (e.world.conns c).conn (e.world.conns c).trace []) →
          EchoInv e.world (e.calls ++ tail ++
            (queuedTo 0 e.queued).flatMap (serverApp 0 cfg).body) := by
        intro ha hnot hconns
        have hcalls : ∀ a' ∈ e.calls, a'.isSend = false := by
          intro a' ha'
          rcases hspec.calls_mem ha' with hserver | ⟨d, k, -, -, heq, -⟩
          · exact isSend_of_isServer hserver
          · exact absurd heq (hnot d k)
        obtain ⟨hsettled, htail⟩ := h.settled ha
        refine echoInv_of_calm (fun c => hconns c (hsettled c)) fun a' ha' => ?_
        simp only [List.mem_append] at ha'
        rcases ha' with (ha' | ha') | ha'
        · exact hcalls a' ha'
        · exact htail a' ha'
        · exact hqueued a' ha'
      cases hspec with
      | newConnection sockfd =>
          refine hplain rfl (by simp) fun c hc => ?_
          simp only [ServerWorld.newConnection, Function.update_apply]
          split
          · exact create_echoConn sockfd true
          · exact hc
      | @conn d k v out hl hconn =>
          obtain ⟨-, -, hconnSpec⟩ := hinv.callSpec hhead hconn
          obtain ⟨hmsg, hcalls⟩ := hok
          rw [List.append_assoc, List.append_assoc]
          refine h.call_conn hconnSpec hmsg hcalls fun a' ha' => ?_
          simp only [List.mem_append] at ha'
          rcases ha' with ha' | ha' | ha'
          · exact isSend_of_isServer (removeConnection_isServer ha')
          · exact h.calm a' ha'
          · exact hqueued a' ha'
      | @removeConnectionInLoop d =>
          refine hplain rfl (by simp) fun c hc => ?_
          by_cases hd : c = d
          · subst hd
            simp only [ServerWorld.observe, Function.update_self]
            refine ⟨?_, hc.wf, hc.reader, hc.writer, hc.small⟩
            simpa [written, Obs.written, received, Obs.received] using hc.stream
          · simpa [ServerWorld.observe, Function.update_of_ne hd] using hc
      | _ => exact hplain rfl (by simp) fun _ hc => hc
  | thread => exact hok.elim

theorem reachable_echoInv {s : ServerProcess 0}
    (h : (serverApp 0 cfg).system.ReachableBy DefaultCallbacks s) :
    EchoInv s.world (s.work (serverApp 0 cfg) 0) := by
  refine progress_invariant (P := fun w work => EchoInv w (work 0)) h ?_ ?_
  · intro s hinit
    obtain ⟨fd, hw⟩ := hinit.1.1
    refine echoInv_of_calm (fun c => ?_) fun a ha => ?_
    · rw [hw]
      exact create_echoConn 0 false
    · rcases init_work hinit 0 with hwork | hwork
      · simp [hwork] at ha
      · rw [hwork] at ha
        cases List.mem_singleton.mp ha
        rfl
  · intro s label w' work' hr hok hecho hprog
    exact hprog.echoInv (reachable_serverInv hr) hok hecho

/-- What is being echoed is the head of the thread's own calls. -/
theorem owed_work {s : ServerProcess 0} {c : Nat} {st : StateE}
    (h : EchoInv s.world (s.work (serverApp 0 cfg) 0)) :
    owed c st (s.work (serverApp 0 cfg) 0) = owed c st (s.loops 0).todo := by
  cases htodo : (s.loops 0).todo with
  | nil =>
      have hwork : s.work (serverApp 0 cfg) 0 = ((s.loops 0).functors.drop (s.loops 0).i ++
          (s.loops 0).pendingFunctors).flatMap ServerFunctor.body := by
        simp [Process.work, EventLoop.work, htodo, serverApp]
      rw [hwork] at h ⊢
      rw [owed_of_calm h.calm_functors]
      rfl
  | cons a rest =>
      rw [Process.work, EventLoop.work, htodo]
      cases a <;> rfl

/-- **The default server echoes exactly.** In every reachable state of the server of
`main.cpp`, for every connection: unless its message callback is in the middle of sending,
the bytes written and those in the output buffer are the bytes read while it was `kConnected`
(and then the message it is sending completes them); so nothing but its own bytes is ever
written to it. The input buffer is empty, its vector has at most `8 + 131071` bytes, and
every message passed to `send` fits an `int` length. -/
theorem echoes_exactly (cfg : ServerConfig) {s : ServerProcess 0}
    (h : (serverApp 0 cfg).system.ReachableBy DefaultCallbacks s) (c : Nat) :
    ((∀ k rest, (s.loops 0).todo = .conn c k :: rest → k.isSend = false) →
      written (s.world.conns c).trace ++ (s.world.conns c).conn.outputBuffer.content =
        received (s.world.conns c).trace) ∧
    written (s.world.conns c).trace ++ (s.world.conns c).conn.outputBuffer.content ++
        owed c (s.world.conns c).conn.state (s.loops 0).todo =
      received (s.world.conns c).trace ∧
    written (s.world.conns c).trace <+: received (s.world.conns c).trace ∧
    (s.world.conns c).conn.inputBuffer.readableBytes = 0 ∧
    (s.world.conns c).conn.inputBuffer.buffer.length ≤ 8 + 131071 ∧
    (∀ m rest, (s.loops 0).todo = .conn c (.user (.send m)) :: rest →
      m.content.length ≤ intMax) := by
  have hecho := reachable_echoInv h
  have hconn := hecho.conns c
  rw [owed_work hecho] at hconn
  refine ⟨fun hsettled => ?_, hconn.stream, ?_, ?_, hconn.small, fun m rest htodo => ?_⟩
  · have hnone : owed c (s.world.conns c).conn.state (s.loops 0).todo = [] := by
      cases htodo : (s.loops 0).todo with
      | nil => rfl
      | cons a rest =>
          cases a with
          | conn c' k =>
              by_cases hc : c' = c
              · subst hc
                have hk := hsettled k rest htodo
                simp [owed, echoing, message_of_not_isSend hk]
              · simp [owed, hc]
          | _ => rfl
    have hstream := hconn.stream
    rwa [hnone, List.append_nil] at hstream
  · rw [← hconn.stream, List.append_assoc]
    exact List.prefix_append _ _
  · rw [hconn.wf.readableBytes_eq, hconn.reader, hconn.writer]
    rfl
  · obtain ⟨tail, hwork⟩ := Process.work_of_todo (serverApp 0 cfg) htodo
    obtain ⟨m', hm', hlen⟩ := hecho.head _ _ _ hwork
    cases hm'
    exact hlen

end Server

/-! ### An echo -/

/-- A call with the default callbacks. -/
def echoCall (accept : Option Int) (read : ReadResult) (write : WriteResult) : ServerLabel 0 :=
  .call 0 { write := write, read := read, lock := true, onMessage := defaultMessageCallback
            calls := [], accept := accept }

def quietCall : ServerLabel 0 := echoCall none (.fail .EWOULDBLOCK) (.fail .EWOULDBLOCK)

/-- A connection is accepted, two bytes come in, and the peer takes one. -/
def echoRun : List (ServerLabel 0) :=
  [quietCall, .start 0, .test 0, .poll 0 [.handleActiveChannels [(none, POLLIN)]], quietCall,
    quietCall, echoCall (some 7) (.fail .EWOULDBLOCK) (.fail .EWOULDBLOCK), quietCall, quietCall,
    quietCall, .handled 0, .swap 0, .passed 0, .test 0,
    .poll 0 [.handleActiveChannels [(some 0, POLLIN)]], quietCall, quietCall,
    echoCall none (.deliver [104, 105]) (.fail .EWOULDBLOCK), quietCall, quietCall, quietCall,
    quietCall, .handled 0, .swap 0, .passed 0, .test 0,
    .poll 0 [.handleActiveChannels [(some 0, POLLOUT)]], quietCall, quietCall,
    echoCall none (.fail .EWOULDBLOCK) (.accept 1), quietCall, quietCall]

theorem echoRun_default : ∀ i ∈ echoRun, ∀ s, DefaultCallbacks s i := by
  simp [echoRun, quietCall, echoCall, DefaultCallbacks]

/-- One byte is out and the other one waits. -/
theorem echoes_exactly_partial_write :
    ∃ s, (serverApp 0 mainConfig).system.ReachableBy DefaultCallbacks s ∧
      written (s.world.conns 0).trace = [104] ∧
      (s.world.conns 0).conn.outputBuffer.content = [105] ∧
      written (s.world.conns 0).trace ++ (s.world.conns 0).conn.outputBuffer.content =
        received (s.world.conns 0).trace := by
  obtain ⟨s, hs, hp⟩ := System.exists_reachableBy_of_replay (serverApp 0 mainConfig).system
    (fun _ _ => true) echoRun (serverStart 0)
    (fun s => decide (written (s.world.conns 0).trace = [104]) &&
      decide ((s.world.conns 0).conn.outputBuffer.content = [105]) && (s.loops 0).todo.isEmpty)
    (serverStart_init 0) (fun i hi s _ _ => echoRun_default i hi s) (by decide +kernel)
  simp only [Bool.and_eq_true, decide_eq_true_eq, List.isEmpty_iff] at hp
  obtain ⟨⟨hwritten, hbacklog⟩, htodo⟩ := hp
  refine ⟨s, hs, hwritten, hbacklog, (echoes_exactly mainConfig hs 0).1 fun k rest hhead => ?_⟩
  rw [htodo] at hhead
  cases hhead

end Reactor
