import Reactor.BufferCodec
import Reactor.BufferLines
import Reactor.TcpConnection
import Reactor.Lib.Decoder
import Reactor.Lib.While

/-!
# Messages with a length header (`examples/asio/chat/codec.h`)

* `LengthHeaderCodec.onMessage`, `send` - as in the source, on the buffers of the library.
* `decoder` - what the codec is for: the messages of a byte stream.
* `onMessage_ok` - one call of `onMessage` always returns, and has decoded what the buffer
  held as far as possible.
* `codec_receives` - any reads, in any pieces.
* `codec_round_trip` - what was sent, over a connection that cuts it anywhere.
-/

namespace Reactor

open Reactor.Lib

/-! ### Message callbacks and the input they see

`TcpConnection::handleRead` appends what it has read to the input buffer and calls the message
callback, which takes out of the buffer what it can use; the rest stays for the next read. -/

/-- A message callback: from the context of the connection and the input buffer, what it
does, the new context and the rest of the input. `none` is a call that never returns. -/
abbrev MessageCallback (σ E φ : Type) := σ → Buffer → Option (Except φ (List E × σ × Buffer))

variable {σ E φ : Type}

/-- Reads that deliver something, with the calls of the callback that follow them and all that
these have done. -/
inductive Reads (onMessage : MessageCallback σ E φ) :
    σ → Buffer → List Bytes → List E → σ → Buffer → Prop where
  | nil (s : σ) (b : Buffer) : Reads onMessage s b [] [] s b
  | cons {s s' t : σ} {b b₁ b₂ b₃ : Buffer} {r : ReadResult} {out : Buffer.ReadFd}
      {events events' : List E} {pieces : List Bytes} :
      b.readFd r = .ok (b₁, out) → 0 < out.n → onMessage s b₁ = some (.ok (events, s', b₂)) →
      Reads onMessage s' b₂ pieces events' t b₃ →
      Reads onMessage s b (out.data :: pieces) (events ++ events') t b₃

/-- Reads that deliver these pieces, evaluated. -/
def readAll (onMessage : MessageCallback σ E φ) :
    σ → Buffer → List Bytes → Option (List E × σ × Buffer)
  | s, b, [] => some ([], s, b)
  | s, b, d :: ds =>
      match b.readFd (.deliver d) with
      | .ok (b₁, out) =>
          match decide (0 < out.n), onMessage s b₁ with
          | true, some (.ok (events, s', b₂)) =>
              (readAll onMessage s' b₂ ds).map fun r => (events ++ r.1, r.2)
          | _, _ => none
      | .error _ => none

/-- Pieces that one read can deliver are delivered as they are. -/
theorem reads_of_readAll {onMessage : MessageCallback σ E φ} {t : σ} {b' : Buffer} :
    ∀ {pieces : List Bytes} {s : σ} {b : Buffer} {events : List E},
    (∀ d ∈ pieces, d.length ≤ extrabufSize) →
    readAll onMessage s b pieces = some (events, t, b') → Reads onMessage s b pieces events t b'
  | [], s, b, events, _, h => by
      cases h
      exact .nil _ _
  | d :: ds, s, b, events, hlen, h => by
      unfold readAll at h
      split at h
      · rename_i b₁ out hread
        split at h
        · rename_i events₁ s' b₂ hpos hmsg
          obtain ⟨⟨events₂, t', b₃⟩, hrest, heq⟩ := Option.map_eq_some_iff.mp h
          cases heq
          have hdata : out.data = d := by
            obtain ⟨rfl, -⟩ := Buffer.readFd_deliver_eq hread
            exact List.take_of_length_le
              ((hlen d List.mem_cons_self).trans (Buffer.extrabufSize_le_iovLength b))
          have htail := reads_of_readAll (fun d' hd' => hlen d' (List.mem_cons_of_mem d hd')) hrest
          have hall := Reads.cons hread (of_decide_eq_true hpos) hmsg htail
          rwa [hdata] at hall
        · cases h
      · cases h

/-! ### The codec -/

/-- What `onMessage` does to the outside. -/
inductive CodecEvent where
  | message (m : Bytes)
  | shutdown
deriving DecidableEq, Repr

namespace LengthHeaderCodec

def kHeaderLen : Nat := 4

/-- One pass of the loop of `onMessage`. -/
def pass (buf : Buffer) : Exec (Bool × List CodecEvent × Buffer) :=
  if kHeaderLen ≤ buf.readableBytes then
    let be32 := ofHostBytes 4 (slice buf.buffer buf.readerIndex (buf.readerIndex + 4))
    let len := (networkToHost 4 be32).toInt
    if 65536 < len ∨ len < 0 then .ok (false, [.shutdown], buf)
    else if sizeAdd (sizeOfInt len) kHeaderLen ≤ buf.readableBytes then do
      let buf' ← buf.retrieve kHeaderLen
      let message :=
        slice buf'.buffer buf'.readerIndex (sizeAdd buf'.readerIndex (sizeOfInt len))
      let rest ← buf'.retrieve (sizeOfInt len)
      .ok (true, [.message message], rest)
    else .ok (false, [], buf)
  else .ok (false, [], buf)

/-- A message takes at least the bytes of its header out of the buffer, so this fuel is more
than the loop needs. -/
def onMessage : MessageCallback Unit CodecEvent Fault := fun _ buf =>
  (whileLoop pass (buf.readableBytes + 1) buf).map fun r => r.map fun p => (p.1, (), p.2)

/-- The bytes that `send` hands to the connection. -/
def send (message : StringPiece) : Exec Bytes := do
  let data ← message.bytes
  let buf ← (Buffer.create kInitialSize).append data
  let be32 := hostToNetwork 4 (BitVec.ofInt 32 message.length)
  let buf' ← buf.prepend (hostBytes 4 be32)
  .ok buf'.content

/-! ### The messages of a stream -/

/-- The length in the first four bytes. -/
def header (xs : Bytes) : Int := (networkToHost 4 (ofHostBytes 4 (xs.take 4))).toInt

/-- The stream goes on with a length that no message has. -/
def Invalid (xs : Bytes) : Prop := 4 ≤ xs.length ∧ (65536 < header xs ∨ header xs < 0)

instance (xs : Bytes) : Decidable (Invalid xs) := inferInstanceAs (Decidable (_ ∧ _))

/-- The first message of a stream, once all of it is there, and the bytes it takes. -/
def decodeOne (xs : Bytes) : Option (Unit × List Bytes × Nat) :=
  if 4 ≤ xs.length ∧ 0 ≤ header xs ∧ header xs ≤ 65536 ∧
      (header xs).toNat + 4 ≤ xs.length then
    some ((), [(xs.drop 4).take (header xs).toNat], (header xs).toNat + 4)
  else none

theorem header_append {xs : Bytes} (h : 4 ≤ xs.length) (more : Bytes) :
    header (xs ++ more) = header xs := by
  rw [header, List.take_append_of_le_length h]
  rfl

theorem decodeOne_consumes {xs : Bytes} {s' : Unit} {out : List Bytes} {k : Nat}
    (h : decodeOne xs = some (s', out, k)) : 0 < k ∧ k ≤ xs.length := by
  unfold decodeOne at h
  split at h
  · rename_i hc
    simp only [Option.some.injEq, Prod.mk.injEq] at h
    omega
  · cases h

theorem decodeOne_extends {xs : Bytes} {r : Unit × List Bytes × Nat}
    (h : decodeOne xs = some r) (more : Bytes) : decodeOne (xs ++ more) = some r := by
  unfold decodeOne at h
  split at h
  · rename_i hc
    obtain ⟨hlen, hpos, hmax, hall⟩ := hc
    have hlonger : xs.length ≤ (xs ++ more).length := by simp
    have hbody : (header xs).toNat ≤ (xs.drop 4).length := by
      rw [List.length_drop]
      omega
    rw [decodeOne, header_append hlen, if_pos ⟨by omega, hpos, hmax, by omega⟩, ← h,
      List.drop_append_of_le_length hlen, List.take_append_of_le_length hbody]
  · cases h

def decoder : Decoder Unit UInt8 Bytes where
  step _ xs := decodeOne xs
  consumes h := decodeOne_consumes h
  extends_step h more := decodeOne_extends h more

/-- A stream that goes on with a bad length is never decoded any further. -/
theorem Invalid.append {xs : Bytes} (h : Invalid xs) (more : Bytes) : Invalid (xs ++ more) := by
  refine ⟨?_, ?_⟩
  · rw [List.length_append]
    exact h.1.trans (Nat.le_add_right _ _)
  · rw [header_append h.1]
    exact h.2

theorem Invalid.waiting {xs : Bytes} (h : Invalid xs) : decoder.Waiting () xs := by
  refine if_neg ?_
  rintro ⟨-, hpos, hmax, -⟩
  rcases h.2 with hbig | hneg <;> omega

/-- A decoder that waits for the rest of a message has little to keep. -/
theorem length_of_waiting {xs : Bytes} (hw : decoder.Waiting () xs) (hvalid : ¬ Invalid xs) :
    xs.length < 65540 := by
  by_contra hlong
  have hlen : 4 ≤ xs.length := by omega
  have hrange : ¬ (65536 < header xs ∨ header xs < 0) := fun hbad => hvalid ⟨hlen, hbad⟩
  have hstep : decodeOne xs = none := hw
  unfold decodeOne at hstep
  split at hstep
  · cases hstep
  · rename_i hnot
    exact hnot ⟨hlen, by omega, by omega, by omega⟩

/-! ### The loop of `onMessage` -/

section Loop

variable {b b' : Buffer}

theorem sizeOfInt_toNat {i : Int} (hpos : 0 ≤ i) (hmax : i ≤ 65536) : sizeOfInt i = i.toNat := by
  obtain ⟨n, rfl⟩ := Int.eq_ofNat_of_zero_le hpos
  exact sizeOfInt_ofNat (by unfold intMax; omega)

theorem header_content (h : b.WF) (hlen : 4 ≤ b.content.length) :
    (networkToHost 4 (ofHostBytes 4 (slice b.buffer b.readerIndex (b.readerIndex + 4)))).toInt =
      header b.content := by
  rw [Buffer.slice_content h hlen, header]

/-- Taking out a header and the message behind it. -/
theorem retrieve_message (h : b.WF) {n : Nat} (hall : n + 4 ≤ b.content.length) :
    ∃ b₁ b₂, b.retrieve kHeaderLen = .ok b₁ ∧
      slice b₁.buffer b₁.readerIndex (sizeAdd b₁.readerIndex n) = (b.content.drop 4).take n ∧
      b₁.retrieve n = .ok b₂ ∧ b₂.WF ∧ b₂.content = b.content.drop (n + 4) := by
  obtain ⟨b₁, hret₁, hwf₁, hcontent₁⟩ :=
    Buffer.retrieve_content h (show kHeaderLen ≤ _ by unfold kHeaderLen; omega)
  have hfits : n ≤ b₁.content.length := by
    rw [hcontent₁, List.length_drop]
    unfold kHeaderLen
    omega
  obtain ⟨b₂, hret₂, hwf₂, hcontent₂⟩ := Buffer.retrieve_content hwf₁ hfits
  refine ⟨b₁, b₂, hret₁, ?_, hret₂, hwf₂, ?_⟩
  · rw [Buffer.sizeAdd_readerIndex hwf₁ hfits, Buffer.slice_content hwf₁ hfits, hcontent₁]
    rfl
  · rw [hcontent₂, hcontent₁, List.drop_drop, kHeaderLen, Nat.add_comm]

/-- A pass of the loop is one step of the decoder, or the loop is left: before a bad length
with a call of `shutdown`, else without one. -/
theorem pass_eq (h : b.WF) :
    (∃ m k rest, decodeOne b.content = some ((), [m], k) ∧ rest.WF ∧
      rest.content = b.content.drop k ∧ pass b = .ok (true, [.message m], rest)) ∨
    (decodeOne b.content = none ∧
      pass b = .ok (false, if Invalid b.content then [.shutdown] else [], b)) := by
  have hread := h.length_content
  by_cases hlen : 4 ≤ b.content.length
  · have hheader := header_content h hlen
    have hhead : kHeaderLen ≤ b.readableBytes := hread ▸ hlen
    by_cases hbad : 65536 < header b.content ∨ header b.content < 0
    · right
      have hinv : Invalid b.content := ⟨hlen, hbad⟩
      refine ⟨hinv.waiting, ?_⟩
      rw [pass, if_pos hhead, if_pos hinv]
      simp only [hheader]
      rw [if_pos hbad]
    · have hvalid : ¬ Invalid b.content := fun hinv => hbad hinv.2
      have hsize : sizeOfInt (header b.content) = (header b.content).toNat :=
        sizeOfInt_toNat (by omega) (by omega)
      have hsum : sizeAdd (sizeOfInt (header b.content)) kHeaderLen =
          (header b.content).toNat + 4 := by
        rw [hsize]
        exact sizeAdd_eq (by unfold sizeMod kHeaderLen; omega)
      by_cases hall : (header b.content).toNat + 4 ≤ b.content.length
      · left
        obtain ⟨b₁, b₂, hret₁, hmessage, hret₂, hwf₂, hcontent₂⟩ := retrieve_message h hall
        refine ⟨_, _, b₂, if_pos ⟨hlen, by omega, by omega, hall⟩, hwf₂, hcontent₂, ?_⟩
        rw [pass, if_pos hhead]
        simp only [hheader]
        rw [if_neg hbad, hsum, if_pos (hread ▸ hall), hret₁, ok_bind, hsize, hmessage,
          hret₂, ok_bind]
      · right
        refine ⟨if_neg fun hc => hall hc.2.2.2, ?_⟩
        rw [pass, if_pos hhead, if_neg hvalid]
        simp only [hheader]
        rw [if_neg hbad, hsum, if_neg (hread ▸ hall)]
  · right
    have hvalid : ¬ Invalid b.content := fun hinv => hlen hinv.1
    refine ⟨if_neg fun hc => hlen hc.1, ?_⟩
    rw [pass, if_neg (hread ▸ hlen), if_neg hvalid]

/-- What a call of `onMessage` has done: it has run the decoder as far as possible. -/
structure Processed (b : Buffer) (events : List CodecEvent) (b' : Buffer) : Prop where
  wf : b'.WF
  messages : ∃ ms, decoder.Run () b.content ms () b'.content ∧
    events = ms.map .message ++ if Invalid b'.content then [.shutdown] else []
  waiting : decoder.Waiting () b'.content

/-- `onMessage` always returns, without a fault. -/
theorem onMessage_ok (h : b.WF) :
    ∃ events b', onMessage () b = some (.ok (events, (), b')) ∧ Processed b events b' := by
  have hpass : ∀ b, b.WF → PassSpec pass Buffer.WF Buffer.readableBytes
      (fun b r => ∃ events b', r = .ok (events, b') ∧ Processed b events b') b := by
    intro b h
    rcases pass_eq h with ⟨m, k, rest, hstep, hwf, hcontent, heq⟩ | ⟨hstep, heq⟩
    · obtain ⟨hpos, hle⟩ := decodeOne_consumes hstep
      rw [h.length_content] at hle
      refine ⟨by simp [heq], by simp [heq], fun out s' hgo => ?_⟩
      rw [heq] at hgo
      cases hgo
      refine ⟨hwf, ?_, ?_⟩
      · rw [← hwf.length_content, hcontent, List.length_drop, h.length_content]
        omega
      · rintro r ⟨events, b', rfl, hp⟩
        obtain ⟨ms, hrun, rfl⟩ := hp.messages
        rw [hcontent] at hrun
        refine ⟨_, b', rfl, hp.wf, ⟨m :: ms, ?_, rfl⟩, hp.waiting⟩
        exact Decoder.Run.step (d := decoder) hstep hrun
    · refine ⟨by simp [heq], fun out s' hgo => ?_, by simp [heq]⟩
      rw [heq] at hgo
      cases hgo
      exact ⟨_, b, rfl, h, ⟨[], .refl _ _, rfl⟩, hstep⟩
  obtain ⟨r, hloop, events, b', rfl, hp⟩ := whileLoop_total hpass h (Nat.lt_succ_self _)
  exact ⟨events, b', by rw [onMessage, hloop]; rfl, hp⟩

end Loop

/-! ### Any reads -/

section Receive

variable {b b' : Buffer} {pieces : List Bytes} {events : List CodecEvent}

/-- After how many of the reads that deliver these pieces, behind the undecoded `xs`, the stream
goes on with a bad length. -/
def badReads (xs : Bytes) (pieces : List Bytes) : Nat :=
  (List.range pieces.length).countP fun i =>
    Invalid (decoder.decode () (xs ++ (pieces.take (i + 1)).flatten)).rest

/-- The first read and the others. -/
theorem badReads_cons (pieces : List Bytes) {xs ys piece : Bytes} {ms : List Bytes}
    (h : decoder.Run () (xs ++ piece) ms () ys) :
    badReads xs (piece :: pieces) =
      (if Invalid (decoder.decode () (xs ++ piece)).rest then 1 else 0) + badReads ys pieces := by
  have hrest : ∀ i, (decoder.decode () (xs ++ ((piece :: pieces).take (i + 1 + 1)).flatten)).rest =
      (decoder.decode () (ys ++ (pieces.take (i + 1)).flatten)).rest := by
    intro i
    rw [List.take_succ_cons, List.flatten_cons, ← List.append_assoc, h.decode_rest]
  have hfirst : xs ++ ((piece :: pieces).take (0 + 1)).flatten = xs ++ piece := by simp
  rw [badReads, List.length_cons, List.range_succ_eq_map, List.countP_cons, List.countP_map,
    hfirst, Nat.add_comm, badReads]
  congr 1
  · simp only [decide_eq_true_eq]
  · exact List.countP_congr fun i _ => by simp only [Function.comp_apply, hrest]

/-- The calls of the callback after any reads: the decoded messages, and `shutdown` once for
every read since the stream went bad. -/
structure Received (b : Buffer) (pieces : List Bytes) (events : List CodecEvent) (b' : Buffer) :
    Prop where
  wf : b'.WF
  waiting : decoder.Waiting () b'.content
  decoded : ∃ ms, events = ms.map .message ++ List.replicate (badReads b.content pieces) .shutdown ∧
    decoder.Run () (b.content ++ pieces.flatten) ms () b'.content
  bad : badReads b.content pieces ≠ 0 → Invalid b'.content
  invalid : Invalid b'.content → badReads b.content pieces ≠ 0 ∨ Invalid b.content

theorem reads_received {s t : Unit} (h : Reads onMessage s b pieces events t b') (hwf : b.WF)
    (hw : decoder.Waiting () b.content) : Received b pieces events b' := by
  induction h with
  | nil s b =>
      refine ⟨hwf, hw, ⟨[], rfl, ?_⟩, fun h => absurd rfl h, Or.inr⟩
      simpa using Decoder.Run.refl () b.content
  | @cons s s' t b b₁ b₂ b₃ r out events₁ events₂ pieces hread hpos hmsg htail ih =>
      obtain ⟨hwf₁, hcontent₁, -⟩ := Buffer.readFd_ok hwf hread
      obtain ⟨events', b', heq, hp⟩ := onMessage_ok hwf₁
      have hsame := hmsg.symm.trans heq
      cases hsame
      obtain ⟨ms₁, hrun₁, hevents₁⟩ := hp.messages
      obtain ⟨hwf₃, hw₃, ⟨ms₂, hevents₂, hrun₂⟩, hbad, hinv⟩ := ih hp.wf hp.waiting
      rw [hcontent₁] at hrun₁
      have hcount := badReads_cons pieces hrun₁
      have hrest : (decoder.decode () (b.content ++ out.data)).rest = b₂.content := by
        rw [hrun₁.eq_decode hp.waiting]
      rw [hrest] at hcount
      have hrun := (hrun₁.append pieces.flatten).trans hrun₂
      rw [List.append_assoc, ← List.flatten_cons] at hrun
      by_cases hb₂ : Invalid b₂.content
      · -- nothing is decoded behind a bad length
        obtain ⟨hnone, -, hrest⟩ := hrun₂.of_waiting (hb₂.append pieces.flatten).waiting
        subst hnone
        have hbad₃ : Invalid b₃.content := hrest ▸ hb₂.append pieces.flatten
        rw [if_pos hb₂, Nat.add_comm] at hcount
        refine ⟨hwf₃, hw₃, ⟨ms₁ ++ [], ?_, hrun⟩, fun _ => hbad₃, fun _ => Or.inl ?_⟩
        · rw [hevents₁, hevents₂, if_pos hb₂, hcount, List.replicate_succ]
          simp
        · rw [hcount]
          exact Nat.succ_ne_zero _
      · rw [if_neg hb₂, Nat.zero_add] at hcount
        refine ⟨hwf₃, hw₃, ⟨ms₁ ++ ms₂, ?_, hrun⟩, hcount ▸ hbad, fun hb₃ => ?_⟩
        · rw [hevents₁, hevents₂, hcount, if_neg hb₂, List.append_nil, List.map_append,
            List.append_assoc]
        · exact hcount ▸ (hinv hb₃).imp id fun h => absurd h hb₂

end Receive

/-- **Any stream, cut into reads anywhere.** The codec's callback gets exactly the messages of
the stream, in order, and `shutdown` is called once for every read after which the stream goes on
with a bad length. As long as none came fewer than 65540 bytes are kept; from the read that
completes it on, every read calls `shutdown` and adds to the buffer. No call of `onMessage` ever
fails or hangs. -/
theorem codec_receives {n : Nat} (hn : kCheapPrepend + n ≤ maxSize)
    {pieces : List Bytes} {events : List CodecEvent} {b : Buffer}
    (h : Reads onMessage () (.create n) pieces events () b) :
    events = (decoder.decode () pieces.flatten).items.map .message ++
      List.replicate (badReads [] pieces) .shutdown ∧
    (badReads [] pieces ≠ 0 ↔ Invalid b.content) ∧
    (badReads [] pieces = 0 → b.content.length < 65540) ∧
    b.content = (decoder.decode () pieces.flatten).rest ∧
    ∀ r b₁ out, b.readFd r = .ok (b₁, out) →
      ∃ events' b₂, onMessage () b₁ = some (.ok (events', (), b₂)) ∧
        (Invalid b.content → events' = [.shutdown] ∧ b₂.content = b.content ++ out.data) := by
  have hempty : (Buffer.create n).content = [] := Buffer.create_content n
  have hstart : decoder.Waiting () (Buffer.create n).content := by
    rw [hempty]
    exact Decoder.waiting_nil ()
  obtain ⟨hwf, hw, ⟨ms, hevents, hrun⟩, hbad, hinv⟩ :=
    reads_received h (Buffer.create_wf hn) hstart
  rw [hempty] at hevents hrun hbad hinv
  rw [List.nil_append] at hrun
  have hdec := hrun.eq_decode hw
  have hiff : badReads [] pieces ≠ 0 ↔ Invalid b.content := by
    refine ⟨hbad, fun hb => (hinv hb).resolve_right fun h0 => ?_⟩
    exact absurd h0.1 (by decide)
  refine ⟨by rw [hdec]; exact hevents, hiff, fun hk => ?_, by rw [hdec], ?_⟩
  · exact length_of_waiting hw fun hb => hiff.mpr hb hk
  · intro r b₁ out hread
    obtain ⟨hwf₁, hcontent₁, -⟩ := Buffer.readFd_ok hwf hread
    obtain ⟨events', b₂, heq, hp⟩ := onMessage_ok hwf₁
    refine ⟨events', b₂, heq, fun hb => ?_⟩
    obtain ⟨ms', hrun', hevents'⟩ := hp.messages
    rw [hcontent₁] at hrun'
    obtain ⟨rfl, -, hrest⟩ := hrun'.of_waiting (hb.append out.data).waiting
    rw [hrest, if_pos (hb.append out.data)] at hevents'
    exact ⟨hevents', hrest⟩

/-- A length of 65537: nothing is received, and every read calls `shutdown`. -/
theorem codec_receives_bad_length :
    ∃ b, Reads onMessage () (.create 4) [[0, 1, 0, 1], [5]] [.shutdown, .shutdown] () b ∧
      Invalid b.content := by
  obtain ⟨⟨events, t, b⟩, hrun, hevents⟩ : ∃ r,
      readAll onMessage () (.create 4) [[0, 1, 0, 1], [5]] = some r ∧
        r.1 = [.shutdown, .shutdown] :=
    Option.map_eq_some_iff.mp (by decide +kernel)
  cases hevents
  have hreads := reads_of_readAll (by decide) hrun
  obtain ⟨-, hiff, -⟩ := codec_receives (by decide) hreads
  exact ⟨b, hreads, hiff.mp (by decide +kernel)⟩

/-! ### What was sent -/

/-- A message on the wire. -/
def encode (m : Bytes) : Bytes :=
  hostBytes 4 (hostToNetwork 4 (BitVec.ofInt 32 m.length)) ++ m

section Sent

variable {m : Bytes} {ms : List Bytes}

/-- `send` puts the header in front of any string whose length is an `int`. -/
theorem send_eq (hm : m.length ≤ intMax) : send (.ofString m) = .ok (encode m) := by
  have hcreate : Refines (Buffer.create kInitialSize) .empty := create_refines (by decide)
  have hlen : (StringPiece.ofString m).length = (m.length : Int) := intOfSize_of_le hm
  have hroom : (Buffer.create kInitialSize).writerIndex + m.length + kCheapPrepend < sizeMod := by
    have hmax : kCheapPrepend + intMax + kCheapPrepend < sizeMod := by decide
    change kCheapPrepend + m.length + kCheapPrepend < sizeMod
    omega
  rw [send, StringPiece.bytes_ofString hm, ok_bind, hlen]
  rcases hcreate.append hroom with ⟨b, happ, href⟩ | ⟨-, hlong⟩
  · have hprep : (hostBytes 4 (hostToNetwork 4 (BitVec.ofInt 32 m.length))).length ≤
        b.prependableBytes := by
      rw [length_hostBytes]
      exact (show 4 ≤ kCheapPrepend by decide).trans (href.prefixed rfl)
    obtain ⟨b', hpre, href'⟩ := href.prepend hprep
    simp only [happ, ok_bind, hpre, href'.content]
    rfl
  · have hmax : kCheapPrepend + intMax ≤ maxSize := by decide
    change maxSize < kCheapPrepend + m.length at hlong
    omega

theorem length_encode (m : Bytes) : (encode m).length = m.length + 4 := by
  rw [encode, List.length_append, length_hostBytes, Nat.add_comm]

theorem header_encode (hm : m.length ≤ intMax) (more : Bytes) :
    header (encode m ++ more) = m.length := by
  have hlen := length_hostBytes 4 (hostToNetwork 4 (BitVec.ofInt 32 m.length))
  rw [header, encode, List.append_assoc, List.take_left' hlen, networkToHost_hostToNetwork]
  unfold intMax at hm
  rw [BitVec.toInt_ofInt, Int.bmod_eq_of_le] <;> omega

/-- A message that is not too long is decoded, whatever follows it. -/
theorem decodeOne_encode (hm : m.length ≤ 65536) (more : Bytes) :
    decodeOne (encode m ++ more) = some ((), [m], (encode m).length) := by
  have hint : m.length ≤ intMax := hm.trans (by decide)
  have hhead := header_encode hint more
  have hlen := length_encode m
  have hdrop : (encode m ++ more).drop 4 = m ++ more := by
    rw [encode, List.append_assoc, List.drop_left' (length_hostBytes 4 _)]
  have hall : (encode m ++ more).length = m.length + 4 + more.length := by
    rw [List.length_append, hlen]
  rw [decodeOne, hhead, Int.toNat_natCast, hdrop, List.take_left, hlen,
    if_pos ⟨by omega, by omega, by omega, by omega⟩]

/-- One that is too long makes the stream bad. -/
theorem invalid_encode (hint : m.length ≤ intMax) (hm : 65536 < m.length) (more : Bytes) :
    Invalid (encode m ++ more) := by
  refine ⟨?_, Or.inl ?_⟩
  · rw [List.length_append, length_encode]
    omega
  · rw [header_encode hint]
    omega

/-- The messages before the first that is too long. -/
def accepted (ms : List Bytes) : List Bytes := ms.takeWhile fun m => m.length ≤ 65536

theorem decode_sent (hms : ∀ m ∈ ms, m.length ≤ intMax) :
    ∃ rest, decoder.Run () (ms.flatMap encode) (accepted ms) () rest ∧
      ((accepted ms = ms ∧ rest = []) ∨ (accepted ms ≠ ms ∧ Invalid rest)) := by
  induction ms with
  | nil => exact ⟨[], .refl () [], Or.inl ⟨rfl, rfl⟩⟩
  | cons m ms ih =>
      obtain ⟨rest, hrun, hrest⟩ := ih fun m' hm' => hms m' (List.mem_cons_of_mem m hm')
      rw [List.flatMap_cons]
      by_cases hm : m.length ≤ 65536
      · have hacc : accepted (m :: ms) = m :: accepted ms := by
          rw [accepted, List.takeWhile_cons_of_pos (by simpa using hm)]
          rfl
        refine ⟨rest, ?_, by simpa [hacc] using hrest⟩
        rw [hacc]
        exact .step (d := decoder) (decodeOne_encode hm _) (by rwa [List.drop_left])
      · have hacc : accepted (m :: ms) = [] :=
          List.takeWhile_cons_of_neg (by simpa using hm)
        rw [hacc]
        exact ⟨_, .refl () _, Or.inr ⟨by simp,
          invalid_encode (hms m List.mem_cons_self) (Nat.lt_of_not_le hm) _⟩⟩

end Sent

/-- **What was sent is what is received.** Any strings of at most `INT_MAX` bytes are sent, and the
connection cuts what `send` handed to it anywhere. The messages received are at all times a prefix
of those sent before the first that is longer than 65536 bytes. When everything has arrived they
are all of these; `shutdown` was called exactly if there was such a long one, and else the buffer
is empty. -/
theorem codec_round_trip {n : Nat} (hn : kCheapPrepend + n ≤ maxSize) {ms : List Bytes}
    (hms : ∀ m ∈ ms, m.length ≤ intMax) {pieces : List Bytes} {events : List CodecEvent}
    {b : Buffer} (h : Reads onMessage () (.create n) pieces events () b) :
    (∀ m ∈ ms, send (.ofString m) = .ok (encode m)) ∧
    (pieces.flatten <+: ms.flatMap encode →
      ∃ got k, got <+: accepted ms ∧ events = got.map .message ++ List.replicate k .shutdown) ∧
    (pieces.flatten = ms.flatMap encode →
      ∃ k, events = (accepted ms).map .message ++ List.replicate k .shutdown ∧
        (k ≠ 0 ↔ accepted ms ≠ ms) ∧ (accepted ms = ms → b.content = [])) := by
  have hempty : (Buffer.create n).content = [] := Buffer.create_content n
  have hstart : decoder.Waiting () (Buffer.create n).content := by
    rw [hempty]
    exact Decoder.waiting_nil ()
  obtain ⟨hwf, hw, ⟨got, hevents, hrun⟩, hbad, hinv⟩ :=
    reads_received h (Buffer.create_wf hn) hstart
  rw [hempty] at hevents hrun hbad hinv
  rw [List.nil_append] at hrun
  obtain ⟨rest, hsent, hrest⟩ := decode_sent hms
  have hwait : decoder.Waiting () rest := by
    rcases hrest with ⟨-, rfl⟩ | ⟨-, hb⟩
    · exact Decoder.waiting_nil ()
    · exact hb.waiting
  have hdec := hsent.eq_decode hwait
  refine ⟨fun m hm => send_eq (hms m hm), fun hpart => ?_, fun hall => ?_⟩
  · obtain ⟨more, hmore⟩ := hpart
    have hfirst := (hrun.append more).items_first
    rw [hmore, hdec] at hfirst
    exact ⟨got, _, hfirst, hevents⟩
  · rw [hall] at hrun
    have hsame := (hrun.eq_decode hw).symm.trans hdec
    simp only [Decoded.mk.injEq, true_and] at hsame
    obtain ⟨rfl, rfl⟩ := hsame
    refine ⟨_, hevents, ⟨fun hk => ?_, fun hne => ?_⟩, fun heq => ?_⟩
    · rcases hrest with ⟨-, hnil⟩ | ⟨hne, -⟩
      · exact absurd (hbad hk).1 (by simp [hnil])
      · exact hne
    · have hb := (hrest.resolve_left fun h => hne h.1).2
      exact (hinv hb).resolve_right fun h0 => absurd h0.1 (by decide)
    · exact (hrest.resolve_right fun h => h.1 heq).2

/-- Two messages, of two bytes and of none, that arrive as three bytes, then the rest. -/
theorem codec_round_trip_split :
    ∃ b, Reads onMessage () (.create 4) [[0, 0, 0], [2, 7, 8, 0, 0, 0, 0]]
        [.message [7, 8], .message []] () b ∧ b.content = [] := by
  obtain ⟨⟨events, t, b⟩, hrun, hevents⟩ : ∃ r,
      readAll onMessage () (.create 4) [[0, 0, 0], [2, 7, 8, 0, 0, 0, 0]] = some r ∧
        r.1 = [.message [7, 8], .message []] :=
    Option.map_eq_some_iff.mp (by decide +kernel)
  cases hevents
  have hreads := reads_of_readAll (by decide) hrun
  have hlen : ∀ m ∈ ([[7, 8], []] : List Bytes), m.length ≤ intMax := by decide
  have hsent := (codec_round_trip (by decide) hlen hreads).2.2
    (by decide +kernel)
  obtain ⟨-, -, -, hcontent⟩ := hsent
  exact ⟨b, hreads, hcontent rfl⟩

end LengthHeaderCodec

end Reactor
