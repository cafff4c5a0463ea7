import Reactor.Buffer

/-!
# Buffers as byte sequences (`Buffer.h`, `Endian.h`)

The member functions that `Buffer` leaves out (those that work at the front or take back
what was written, and the typed ones), and any sequence of calls on any number of buffers.
What a buffer stands for is a sequence of bytes that grows and shrinks at both ends.

* `ByteSeq`, `BufferOp.spec` - the sequence and what each operation does to it.
* `Refines` - the buffer's indices are in order, its readable bytes are the sequence, and
  the reserved prefix is there unless something was prepended.
* `BufferOp.refines` - every operation within its precondition keeps that, or asks for more
  bytes than a vector can have, and `vector::resize` throws.
* `buffer_refines_sequence` - the same for every finite sequence of operations.
-/

namespace Reactor

open Reactor.Lib

/-! ### Integers in memory -/

/-- The memory of a `k`-byte integer on the little-endian host. -/
def hostBytes (k : Nat) (x : BitVec (8 * k)) : Bytes :=
  (List.range k).map fun i => UInt8.ofNat (x.toNat / 256 ^ i)

/-- The `k`-byte integer whose memory on the host is `bytes`. -/
def ofHostBytes (k : Nat) (bytes : Bytes) : BitVec (8 * k) :=
  BitVec.ofNat (8 * k) (bytes.foldr (fun byte acc => byte.toNat + 256 * acc) 0)

/-- `htobe16`, `htobe32` and `htobe64`: the bytes are swapped. -/
def hostToNetwork (k : Nat) (x : BitVec (8 * k)) : BitVec (8 * k) :=
  ofHostBytes k (hostBytes k x).reverse

@[simp] theorem length_hostBytes (k : Nat) (x : BitVec (8 * k)) : (hostBytes k x).length = k := by
  simp [hostBytes]

namespace Buffer

/-! ### Operations -/

def unwrite (b : Buffer) (len : Nat) : Exec Buffer := do
  check (len ≤ b.readableBytes) .unwrite_readable
  .ok { b with writerIndex := sizeSub b.writerIndex len }

def prepend (b : Buffer) (data : Bytes) : Exec Buffer := do
  check (data.length ≤ b.prependableBytes) .prepend_prependable
  let readerIndex := sizeSub b.readerIndex data.length
  .ok { b with readerIndex := readerIndex, buffer := overwrite b.buffer readerIndex data }

/-- `retrieveUntil`; the pointer `end` as a position in the vector. -/
def retrieveUntil (b : Buffer) (pos : Nat) : Exec Buffer := do
  check (b.readerIndex ≤ pos) .retrieveUntil_begin
  check (pos ≤ b.writerIndex) .retrieveUntil_end
  b.retrieve (pos - b.readerIndex)

/-- `appendInt16`, `appendInt32` and `appendInt64`. -/
def appendInt (k : Nat) (x : BitVec (8 * k)) (b : Buffer) : Exec Buffer :=
  b.append (hostBytes k (hostToNetwork k x))

def appendInt64 (x : BitVec 64) : Buffer → Exec Buffer := appendInt 8 x

def appendInt32 (x : BitVec 32) : Buffer → Exec Buffer := appendInt 4 x

def appendInt16 (x : BitVec 16) : Buffer → Exec Buffer := appendInt 2 x

/-- One byte has no byte order. -/
def appendInt8 (x : BitVec 8) (b : Buffer) : Exec Buffer := b.append (hostBytes 1 x)

/-- `prependInt16`, `prependInt32` and `prependInt64`. -/
def prependInt (k : Nat) (x : BitVec (8 * k)) (b : Buffer) : Exec Buffer :=
  b.prepend (hostBytes k (hostToNetwork k x))

def prependInt64 (x : BitVec 64) : Buffer → Exec Buffer := prependInt 8 x

def prependInt32 (x : BitVec 32) : Buffer → Exec Buffer := prependInt 4 x

def prependInt16 (x : BitVec 16) : Buffer → Exec Buffer := prependInt 2 x

def prependInt8 (x : BitVec 8) (b : Buffer) : Exec Buffer := b.prepend (hostBytes 1 x)

def retrieveInt64 (b : Buffer) : Exec Buffer := b.retrieve 8

def retrieveInt32 (b : Buffer) : Exec Buffer := b.retrieve 4

def retrieveInt16 (b : Buffer) : Exec Buffer := b.retrieve 2

def retrieveInt8 (b : Buffer) : Exec Buffer := b.retrieve 1

end Buffer

/-- The calls on one buffer. `hasWritten data` is the call after the caller has stored `data`
at `beginWrite()`; `retrieveUntil n` is called with the pointer `peek() + n`. -/
inductive BufferOp where
  | append (data : Bytes)
  | appendInt64 (x : BitVec 64)
  | appendInt32 (x : BitVec 32)
  | appendInt16 (x : BitVec 16)
  | appendInt8 (x : BitVec 8)
  | prepend (data : Bytes)
  | prependInt64 (x : BitVec 64)
  | prependInt32 (x : BitVec 32)
  | prependInt16 (x : BitVec 16)
  | prependInt8 (x : BitVec 8)
  | ensureWritableBytes (len : Nat)
  | hasWritten (data : Bytes)
  | unwrite (len : Nat)
  | retrieve (len : Nat)
  | retrieveUntil (n : Nat)
  | retrieveInt64
  | retrieveInt32
  | retrieveInt16
  | retrieveInt8
  | retrieveAll
  | retrieveAsString (len : Nat)
  | retrieveAllAsString

namespace BufferOp

def run (b : Buffer) : BufferOp → Exec Buffer
  | append data => b.append data
  | appendInt64 x => b.appendInt64 x
  | appendInt32 x => b.appendInt32 x
  | appendInt16 x => b.appendInt16 x
  | appendInt8 x => b.appendInt8 x
  | prepend data => b.prepend data
  | prependInt64 x => b.prependInt64 x
  | prependInt32 x => b.prependInt32 x
  | prependInt16 x => b.prependInt16 x
  | prependInt8 x => b.prependInt8 x
  | ensureWritableBytes len => b.ensureWritableBytes len
  | hasWritten data =>
      Buffer.hasWritten { b with buffer := overwrite b.buffer b.writerIndex data } data.length
  | unwrite len => b.unwrite len
  | retrieve len => b.retrieve len
  | retrieveUntil n => b.retrieveUntil (b.readerIndex + n)
  | retrieveInt64 => b.retrieveInt64
  | retrieveInt32 => b.retrieveInt32
  | retrieveInt16 => b.retrieveInt16
  | retrieveInt8 => b.retrieveInt8
  | retrieveAll => .ok b.retrieveAll
  | retrieveAsString len => (b.retrieveAsString len).map Prod.snd
  | retrieveAllAsString => b.retrieveAllAsString.map Prod.snd

/-- What each call asserts, with the bound on the sums that a request for room computes. -/
def Pre (b : Buffer) : BufferOp → Prop
  | append data => b.writerIndex + data.length + kCheapPrepend < sizeMod
  | appendInt64 _ => b.writerIndex + 8 + kCheapPrepend < sizeMod
  | appendInt32 _ => b.writerIndex + 4 + kCheapPrepend < sizeMod
  | appendInt16 _ => b.writerIndex + 2 + kCheapPrepend < sizeMod
  | appendInt8 _ => b.writerIndex + 1 + kCheapPrepend < sizeMod
  | prepend data => data.length ≤ b.prependableBytes
  | prependInt64 _ => 8 ≤ b.prependableBytes
  | prependInt32 _ => 4 ≤ b.prependableBytes
  | prependInt16 _ => 2 ≤ b.prependableBytes
  | prependInt8 _ => 1 ≤ b.prependableBytes
  | ensureWritableBytes len => b.writerIndex + len + kCheapPrepend < sizeMod
  | hasWritten data => data.length ≤ b.writableBytes
  | unwrite len => len ≤ b.readableBytes
  | retrieve len => len ≤ b.readableBytes
  | retrieveUntil n => b.readerIndex + n ≤ b.writerIndex
  | retrieveInt64 => 8 ≤ b.readableBytes
  | retrieveInt32 => 4 ≤ b.readableBytes
  | retrieveInt16 => 2 ≤ b.readableBytes
  | retrieveInt8 => 1 ≤ b.readableBytes
  | retrieveAll => True
  | retrieveAsString len => len ≤ b.readableBytes
  | retrieveAllAsString => True

/-- The bytes for which a call asks for room. -/
def asks : BufferOp → Nat
  | append data => data.length
  | appendInt64 _ => 8
  | appendInt32 _ => 4
  | appendInt16 _ => 2
  | appendInt8 _ => 1
  | ensureWritableBytes len => len
  | _ => 0

end BufferOp

/-! ### Byte sequences -/

/-- What a buffer is for: a sequence of bytes, and whether something was put in front of it
since it was last cleared. -/
structure ByteSeq where
  bytes : Bytes
  prepended : Bool
deriving DecidableEq, Repr

namespace ByteSeq

def empty : ByteSeq := ⟨[], false⟩

def pushBack (q : ByteSeq) (data : Bytes) : ByteSeq := { q with bytes := q.bytes ++ data }

def pushFront (q : ByteSeq) (data : Bytes) : ByteSeq := ⟨data ++ q.bytes, true⟩

/-- Taking everything from the front clears the sequence. -/
def dropFront (q : ByteSeq) (len : Nat) : ByteSeq :=
  if len < q.bytes.length then { q with bytes := q.bytes.drop len } else empty

def dropBack (q : ByteSeq) (len : Nat) : ByteSeq :=
  { q with bytes := q.bytes.take (q.bytes.length - len) }

end ByteSeq

/-- What a call does to the sequence. -/
def BufferOp.spec (q : ByteSeq) : BufferOp → ByteSeq
  | .append data => q.pushBack data
  | .appendInt64 x => q.pushBack (hostBytes 8 (hostToNetwork 8 x))
  | .appendInt32 x => q.pushBack (hostBytes 4 (hostToNetwork 4 x))
  | .appendInt16 x => q.pushBack (hostBytes 2 (hostToNetwork 2 x))
  | .appendInt8 x => q.pushBack (hostBytes 1 x)
  | .prepend data => q.pushFront data
  | .prependInt64 x => q.pushFront (hostBytes 8 (hostToNetwork 8 x))
  | .prependInt32 x => q.pushFront (hostBytes 4 (hostToNetwork 4 x))
  | .prependInt16 x => q.pushFront (hostBytes 2 (hostToNetwork 2 x))
  | .prependInt8 x => q.pushFront (hostBytes 1 x)
  | .ensureWritableBytes _ => q
  | .hasWritten data => q.pushBack data
  | .unwrite len => q.dropBack len
  | .retrieve len => q.dropFront len
  | .retrieveUntil n => q.dropFront n
  | .retrieveInt64 => q.dropFront 8
  | .retrieveInt32 => q.dropFront 4
  | .retrieveInt16 => q.dropFront 2
  | .retrieveInt8 => q.dropFront 1
  | .retrieveAll => .empty
  | .retrieveAsString len => q.dropFront len
  | .retrieveAllAsString => q.dropFront q.bytes.length

/-- The buffer `b` stands for the sequence `q`. -/
structure Refines (b : Buffer) (q : ByteSeq) : Prop where
  wf : b.WF
  content : b.content = q.bytes
  prefixed : q.prepended = false → kCheapPrepend ≤ b.readerIndex

/-- The call returns a buffer that stands for `q`, or `vector::resize` throws, as no vector has
the `size` bytes it needs. -/
def Returns (r : Exec Buffer) (q : ByteSeq) (size : Nat) : Prop :=
  (∃ b, r = .ok b ∧ Refines b q) ∨ (r = .error .lengthError ∧ maxSize < size)

section Operations

variable {b : Buffer} {q : ByteSeq} {data : Bytes} {len : Nat}

theorem create_refines {initialSize : Nat} (h : kCheapPrepend + initialSize ≤ maxSize) :
    Refines (.create initialSize) .empty :=
  ⟨Buffer.create_wf h, Buffer.create_content _, fun _ => Nat.le_refl _⟩

theorem Refines.length_eq (h : Refines b q) : b.readableBytes = q.bytes.length := by
  rw [← h.wf.length_content, h.content]

theorem Refines.append (h : Refines b q)
    (hlen : b.writerIndex + data.length + kCheapPrepend < sizeMod) :
    Returns (b.append data) (q.pushBack data) (b.writerIndex + data.length) := by
  have hfits : b.Fits data.length := ⟨by omega, by omega⟩
  cases happ : b.append data with
  | error f =>
      obtain rfl := Buffer.append_error h.wf hfits happ
      exact Or.inr ⟨rfl, Buffer.append_lengthError hfits happ⟩
  | ok b' =>
      obtain ⟨hwf, hcontent, -, hcheap⟩ := Buffer.append_ok h.wf hfits happ
      refine Or.inl ⟨b', rfl, hwf, ?_, fun hq => hcheap (h.prefixed hq)⟩
      rw [hcontent, h.content]
      rfl

theorem Refines.ensureWritableBytes (h : Refines b q)
    (hlen : b.writerIndex + len + kCheapPrepend < sizeMod) :
    Returns (b.ensureWritableBytes len) q (b.writerIndex + len) := by
  have hfits : b.Fits len := ⟨by omega, by omega⟩
  cases hens : b.ensureWritableBytes len with
  | error f =>
      obtain rfl := Buffer.ensureWritableBytes_error h.wf hfits hens
      exact Or.inr ⟨rfl, Buffer.ensureWritableBytes_lengthError hfits hens⟩
  | ok b' =>
      obtain ⟨hwf, hcontent, -, -, hcheap⟩ := Buffer.ensureWritableBytes_ok h.wf hfits hens
      exact Or.inl ⟨b', rfl, hwf, hcontent.trans h.content, fun hq => hcheap (h.prefixed hq)⟩

theorem Refines.retrieveAll (h : Refines b q) : Refines b.retrieveAll .empty :=
  ⟨h.wf.retrieveAll, Buffer.retrieveAll_content b, fun _ => Nat.le_refl _⟩

theorem Refines.retrieve (h : Refines b q) (hlen : len ≤ b.readableBytes) :
    ∃ b', b.retrieve len = .ok b' ∧ Refines b' (q.dropFront len) := by
  have hread := h.length_eq
  have hidx : len < b.readableBytes → b.readerIndex ≤ sizeAdd b.readerIndex len := by
    intro hlt
    have hr := h.wf.readableBytes_eq
    have hw := h.wf.writer_le
    have hs := h.wf.size_le
    rw [sizeAdd_eq (by have := Buffer.maxSize_lt_sizeMod; omega)]
    omega
  cases hret : b.retrieve len with
  | error f => exact absurd hret (Buffer.retrieve_ne_error hlen)
  | ok b' =>
      obtain ⟨hwf, hcontent⟩ := Buffer.retrieve_ok h.wf hret
      simp only [Buffer.retrieve, bind_eq_ok, check_eq_ok] at hret
      obtain ⟨-, -, hret⟩ := hret
      refine ⟨b', rfl, ?_⟩
      unfold ByteSeq.dropFront
      by_cases hlt : len < b.readableBytes
      · rw [if_pos hlt] at hret
        rw [if_pos (hread ▸ hlt)]
        cases hret
        exact ⟨hwf, by rw [hcontent, h.content], fun hq => (h.prefixed hq).trans (hidx hlt)⟩
      · rw [if_neg hlt] at hret
        rw [if_neg (hread ▸ hlt)]
        cases hret
        exact h.retrieveAll

theorem Refines.hasWritten (h : Refines b q) (hlen : data.length ≤ b.writableBytes) :
    ∃ b', Buffer.hasWritten { b with buffer := overwrite b.buffer b.writerIndex data } data.length =
      .ok b' ∧ Refines b' (q.pushBack data) := by
  have hr := h.wf.reader_le
  have hw := h.wf.writer_le
  have hs := h.wf.size_le
  rw [h.wf.writableBytes_eq] at hlen
  have hover : (overwrite b.buffer b.writerIndex data).length = b.buffer.length :=
    length_overwrite (by omega)
  have hidx : sizeAdd b.writerIndex data.length = b.writerIndex + data.length :=
    sizeAdd_eq (by have := Buffer.maxSize_lt_sizeMod; omega)
  have hroom : data.length ≤ Buffer.writableBytes
      { b with buffer := overwrite b.buffer b.writerIndex data } := by
    rw [Buffer.writableBytes, hover, ← Buffer.writableBytes, h.wf.writableBytes_eq]
    exact hlen
  rw [Buffer.hasWritten, check_of hroom, ok_bind]
  refine ⟨_, rfl, ⟨?_, ?_, ?_, ?_⟩, ?_, h.prefixed⟩
  · simp only [hidx]
    omega
  · simp only [hidx, hover]
    omega
  · simp only [hover]
    exact h.wf.cheap_le
  · simp only [hover]
    exact hs
  · show slice _ b.readerIndex (sizeAdd b.writerIndex data.length) = _
    rw [hidx, slice_overwrite hr hw, ByteSeq.pushBack, ← h.content]
    rfl

theorem Refines.unwrite (h : Refines b q) (hlen : len ≤ b.readableBytes) :
    ∃ b', b.unwrite len = .ok b' ∧ Refines b' (q.dropBack len) := by
  have hr := h.wf.reader_le
  have hw := h.wf.writer_le
  have hs := h.wf.size_le
  have hread := h.wf.readableBytes_eq
  have hidx : sizeSub b.writerIndex len = b.writerIndex - len :=
    sizeSub_eq (by omega) (by have := Buffer.maxSize_lt_sizeMod; omega)
  rw [Buffer.unwrite, check_of hlen, ok_bind]
  refine ⟨_, rfl, ⟨?_, ?_, h.wf.cheap_le, hs⟩, ?_, h.prefixed⟩
  · simp only [hidx]
    omega
  · simp only [hidx]
    omega
  · show slice b.buffer b.readerIndex (sizeSub b.writerIndex len) = _
    have hend : b.readerIndex + (b.readableBytes - len) = b.writerIndex - len := by omega
    rw [hidx, ByteSeq.dropBack, ← h.length_eq, ← h.content, Buffer.content,
      take_slice _ (by omega), hend]

theorem Refines.prepend (h : Refines b q) (hlen : data.length ≤ b.prependableBytes) :
    ∃ b', b.prepend data = .ok b' ∧ Refines b' (q.pushFront data) := by
  have hr := h.wf.reader_le
  have hw := h.wf.writer_le
  have hs := h.wf.size_le
  have hlen' : data.length ≤ b.readerIndex := hlen
  have hidx : sizeSub b.readerIndex data.length = b.readerIndex - data.length :=
    sizeSub_eq hlen (by have := Buffer.maxSize_lt_sizeMod; omega)
  have hover : (overwrite b.buffer (b.readerIndex - data.length) data).length =
      b.buffer.length := length_overwrite (by omega)
  have hback : b.readerIndex - data.length + data.length = b.readerIndex := by omega
  rw [Buffer.prepend, check_of hlen, ok_bind]
  refine ⟨_, rfl, ⟨?_, ?_, ?_, ?_⟩, ?_, nofun⟩
  · simp only [hidx]
    omega
  · simp only [hidx, hover]
    exact hw
  · simp only [hidx, hover]
    exact h.wf.cheap_le
  · simp only [hidx, hover]
    exact hs
  · show slice (overwrite b.buffer (sizeSub b.readerIndex data.length) data)
      (sizeSub b.readerIndex data.length) b.writerIndex = _
    rw [hidx, slice_overwrite_front (by omega) (by omega), hback, ByteSeq.pushFront, ← h.content]
    rfl

theorem Refines.retrieveUntil (h : Refines b q) (hlen : b.readerIndex + len ≤ b.writerIndex) :
    ∃ b', b.retrieveUntil (b.readerIndex + len) = .ok b' ∧ Refines b' (q.dropFront len) := by
  have hread := h.wf.readableBytes_eq
  rw [Buffer.retrieveUntil, check_of (Nat.le_add_right _ _), ok_bind, check_of hlen, ok_bind,
    Nat.add_sub_cancel_left]
  exact h.retrieve (by omega)

theorem Refines.retrieveAsString (h : Refines b q) (hlen : len ≤ b.readableBytes) :
    ∃ b', (b.retrieveAsString len).map Prod.snd = .ok b' ∧ Refines b' (q.dropFront len) := by
  obtain ⟨b', hret, href⟩ := h.retrieve hlen
  rw [Buffer.retrieveAsString, check_of hlen, ok_bind, hret, ok_bind]
  exact ⟨b', rfl, href⟩

/-- An integer of `k` bytes, in either byte order. -/
theorem Refines.appendBytes {k : Nat} (h : Refines b q) (hk : data.length = k)
    (hlen : b.writerIndex + k + kCheapPrepend < sizeMod) :
    Returns (b.append data) (q.pushBack data) (b.writerIndex + k) := by
  subst hk
  exact h.append hlen

/-- **Every operation within its precondition** does to the sequence what its name says, or
asks for more bytes than a vector can have. -/
theorem BufferOp.refines (op : BufferOp) (h : Refines b q) (hpre : op.Pre b) :
    Returns (op.run b) (op.spec q) (b.writerIndex + op.asks) := by
  cases op with
  | append data => exact h.append hpre
  | appendInt64 x => exact h.appendBytes (length_hostBytes 8 _) hpre
  | appendInt32 x => exact h.appendBytes (length_hostBytes 4 _) hpre
  | appendInt16 x => exact h.appendBytes (length_hostBytes 2 _) hpre
  | appendInt8 x => exact h.appendBytes (length_hostBytes 1 x) hpre
  | prepend data => exact Or.inl (h.prepend hpre)
  | prependInt64 x => exact Or.inl (h.prepend (by rw [length_hostBytes]; exact hpre))
  | prependInt32 x => exact Or.inl (h.prepend (by rw [length_hostBytes]; exact hpre))
  | prependInt16 x => exact Or.inl (h.prepend (by rw [length_hostBytes]; exact hpre))
  | prependInt8 x => exact Or.inl (h.prepend (by rw [length_hostBytes]; exact hpre))
  | ensureWritableBytes len => exact h.ensureWritableBytes hpre
  | hasWritten data => exact Or.inl (h.hasWritten hpre)
  | unwrite len => exact Or.inl (h.unwrite hpre)
  | retrieve len => exact Or.inl (h.retrieve hpre)
  | retrieveUntil n => exact Or.inl (h.retrieveUntil hpre)
  | retrieveInt64 => exact Or.inl (h.retrieve hpre)
  | retrieveInt32 => exact Or.inl (h.retrieve hpre)
  | retrieveInt16 => exact Or.inl (h.retrieve hpre)
  | retrieveInt8 => exact Or.inl (h.retrieve hpre)
  | retrieveAll => exact Or.inl ⟨_, rfl, h.retrieveAll⟩
  | retrieveAsString len => exact Or.inl (h.retrieveAsString hpre)
  | retrieveAllAsString =>
      rw [BufferOp.spec, ← h.length_eq]
      exact Or.inl (h.retrieveAsString (Nat.le_refl _))

end Operations

/-! ### Sequences of calls -/

/-- A call: an operation on buffer `i`, or `swap` of two buffers. -/
inductive BufferCall where
  | op (i : Nat) (op : BufferOp)
  | swap (i j : Nat)

namespace BufferCall

/-- The values at `i` and `j` change places. -/
def exchange {α : Type} (f : Nat → α) (i j : Nat) : Nat → α :=
  Function.update (Function.update f i (f j)) j (f i)

def run (bs : Nat → Buffer) : BufferCall → Exec (Nat → Buffer)
  | op i o => do
      let b ← o.run (bs i)
      .ok (Function.update bs i b)
  | swap i j => .ok (exchange bs i j)

def spec (qs : Nat → ByteSeq) : BufferCall → Nat → ByteSeq
  | op i o => Function.update qs i (o.spec (qs i))
  | swap i j => exchange qs i j

def Pre (bs : Nat → Buffer) : BufferCall → Prop
  | op i o => o.Pre (bs i)
  | swap _ _ => True

/-- The call asks for more bytes than a vector can have. -/
def TooLong (bs : Nat → Buffer) : BufferCall → Prop
  | op i o => maxSize < (bs i).writerIndex + o.asks
  | swap _ _ => False

end BufferCall

def runCalls (bs : Nat → Buffer) : List BufferCall → Exec (Nat → Buffer)
  | [] => .ok bs
  | call :: rest => do
      let bs' ← call.run bs
      runCalls bs' rest

def specCalls (qs : Nat → ByteSeq) : List BufferCall → Nat → ByteSeq
  | [] => qs
  | call :: rest => specCalls (call.spec qs) rest

/-- Each call is made within its precondition, in the state it is made in. -/
def Within (bs : Nat → Buffer) : List BufferCall → Prop
  | [] => True
  | call :: rest => call.Pre bs ∧ ∀ bs', call.run bs = .ok bs' → Within bs' rest

section Calls

variable {bs : Nat → Buffer} {qs : Nat → ByteSeq}

theorem exchange_refines (h : ∀ k, Refines (bs k) (qs k)) (i j k : Nat) :
    Refines (BufferCall.exchange bs i j k) (BufferCall.exchange qs i j k) := by
  simp only [BufferCall.exchange, Function.update_apply]
  split
  · exact h i
  · split
    · exact h j
    · exact h k

theorem update_refines {i : Nat} {b : Buffer} {q : ByteSeq} (h : ∀ k, Refines (bs k) (qs k))
    (hi : Refines b q) (k : Nat) : Refines (Function.update bs i b k) (Function.update qs i q k) := by
  simp only [Function.update_apply]
  split
  · exact hi
  · exact h k

/-- One call keeps every buffer at its sequence. -/
theorem BufferCall.refines (call : BufferCall) (h : ∀ k, Refines (bs k) (qs k))
    (hpre : call.Pre bs) :
    (∃ bs', call.run bs = .ok bs' ∧ ∀ k, Refines (bs' k) (call.spec qs k)) ∨
      (call.run bs = .error .lengthError ∧ call.TooLong bs) := by
  cases call with
  | op i o =>
      rcases o.refines (h i) hpre with ⟨b, hrun, hb⟩ | ⟨hrun, hlong⟩
      · left
        refine ⟨Function.update bs i b, ?_, update_refines h hb⟩
        rw [BufferCall.run, hrun, ok_bind]
      · refine Or.inr ⟨?_, hlong⟩
        rw [BufferCall.run, hrun]
        rfl
  | swap i j => exact Or.inl ⟨_, rfl, exchange_refines h i j⟩

/-- The calls stop in `vector::resize`: the first ones return, and the next asks for more bytes
than a vector can have. -/
def StopsTooLong (bs : Nat → Buffer) (calls : List BufferCall) : Prop :=
  runCalls bs calls = .error .lengthError ∧
    ∃ returned call rest bs', calls = returned ++ call :: rest ∧
      runCalls bs returned = .ok bs' ∧ call.TooLong bs'

theorem StopsTooLong.cons {call : BufferCall} {bs₁ : Nat → Buffer} {calls : List BufferCall}
    (hrun : call.run bs = .ok bs₁) (h : StopsTooLong bs₁ calls) :
    StopsTooLong bs (call :: calls) := by
  obtain ⟨herr, returned, call', rest, bs', rfl, hreturned, hlong⟩ := h
  refine ⟨?_, call :: returned, call', rest, bs', rfl, ?_, hlong⟩
  · rw [runCalls, hrun, ok_bind]
    exact herr
  · rw [runCalls, hrun, ok_bind]
    exact hreturned

/-- Every sequence of calls does. -/
theorem runCalls_refines : ∀ {calls : List BufferCall} {bs : Nat → Buffer} {qs : Nat → ByteSeq},
    (∀ k, Refines (bs k) (qs k)) → Within bs calls →
      (∃ bs', runCalls bs calls = .ok bs' ∧ ∀ k, Refines (bs' k) (specCalls qs calls k)) ∨
        StopsTooLong bs calls
  | [], bs, qs, h, _ => Or.inl ⟨bs, rfl, h⟩
  | call :: rest, bs, qs, h, hwithin => by
      obtain ⟨hpre, hrest⟩ := hwithin
      rcases call.refines h hpre with ⟨bs₁, hrun, h₁⟩ | ⟨hrun, hlong⟩
      · rcases runCalls_refines h₁ (hrest bs₁ hrun) with ⟨bs', hruns, h'⟩ | hstops
        · exact Or.inl ⟨bs', by rw [runCalls, hrun, ok_bind, hruns], h'⟩
        · exact Or.inr (hstops.cons hrun)
      · refine Or.inr ⟨?_, [], call, rest, bs, rfl, rfl, hlong⟩
        rw [runCalls, hrun]
        rfl

/-- Making room on a buffer that stands for a sequence: the assertions of `makeSpace` hold,
the room is there and no byte of the content is changed. -/
theorem Refines.makeSpace {b : Buffer} {q : ByteSeq} {len : Nat} (h : Refines b q)
    (hlen : b.writerIndex + len + kCheapPrepend < sizeMod) (hneed : b.writableBytes < len) :
    (∃ b', b.makeSpace len = .ok b' ∧ len ≤ b'.writableBytes ∧ b'.content = b.content) ∨
      (b.makeSpace len = .error .lengthError ∧ maxSize < b.writerIndex + len) := by
  have hfits : b.Fits len := ⟨by omega, by omega⟩
  cases hspace : b.makeSpace len with
  | error f =>
      obtain rfl := Buffer.makeSpace_error h.wf hneed hfits hspace
      exact Or.inr ⟨rfl, Buffer.makeSpace_lengthError hfits hspace⟩
  | ok b' =>
      obtain ⟨-, hcontent, hroom, -⟩ := Buffer.makeSpace_ok h.wf hneed hfits hspace
      exact Or.inl ⟨b', rfl, hroom, hcontent⟩

end Calls

/-- **A buffer refines a byte sequence.** Whatever is done to any number of buffers, each call
within its precondition, all calls return unless one of them asks for room that would make its
vector longer than `max_size`. Then the indices of every buffer are in order, the bytes between
them are the sequence, the reserved prefix is there unless something was prepended since the
buffer was cleared, and a request for room is met without touching the content, again unless no
vector is as long. -/
theorem buffer_refines_sequence (initialSize : Nat → Nat)
    (hsize : ∀ i, kCheapPrepend + initialSize i ≤ maxSize) (calls : List BufferCall)
    (hwithin : Within (fun i => .create (initialSize i)) calls) :
    (∃ bs, runCalls (fun i => .create (initialSize i)) calls = .ok bs ∧ ∀ i,
      (bs i).readerIndex ≤ (bs i).writerIndex ∧ (bs i).writerIndex ≤ (bs i).buffer.length ∧
      (bs i).content = (specCalls (fun _ => .empty) calls i).bytes ∧
      ((specCalls (fun _ => .empty) calls i).prepended = false →
        kCheapPrepend ≤ (bs i).prependableBytes) ∧
      ∀ len, (bs i).writerIndex + len + kCheapPrepend < sizeMod → (bs i).writableBytes < len →
        (∃ b, (bs i).makeSpace len = .ok b ∧ len ≤ b.writableBytes ∧
          b.content = (bs i).content) ∨
        ((bs i).makeSpace len = .error .lengthError ∧ maxSize < (bs i).writerIndex + len)) ∨
      StopsTooLong (fun i => .create (initialSize i)) calls := by
  have hstart : ∀ i, Refines (.create (initialSize i)) .empty := fun i => create_refines (hsize i)
  rcases runCalls_refines hstart hwithin with ⟨bs, hrun, h⟩ | hstops
  · left
    refine ⟨bs, hrun, fun i => ⟨(h i).wf.reader_le, (h i).wf.writer_le, (h i).content,
      (h i).prefixed, fun len hlen hneed => (h i).makeSpace hlen hneed⟩⟩
  · exact Or.inr hstops

/-- A buffer with room for 16 bytes: 12 bytes in, 10 out, then 8 more, which fit after the
content has moved to the front; two bytes in front, and the buffer changes places with another;
then 7 more, for which the vector grows. -/
theorem growInside_refines_sequence :
    ∃ bs, runCalls (fun _ => .create 16)
        [.op 0 (.append [1, 2, 3, 4, 5, 6, 7, 8, 9, 10, 11, 12]), .op 0 (.retrieve 10),
          .op 0 (.append [13, 14, 15, 16, 17, 18, 19, 20]), .op 0 (.prependInt16 258),
          .swap 0 1, .op 1 (.append [21, 22, 23, 24, 25, 26, 27])] = .ok bs ∧
      (bs 1).content = [1, 2, 11, 12, 13, 14, 15, 16, 17, 18, 19, 20, 21, 22, 23, 24, 25, 26, 27] ∧
      kCheapPrepend + 16 < (bs 1).buffer.length := by
  have hwithin : Within (fun _ => .create 16)
      [.op 0 (.append [1, 2, 3, 4, 5, 6, 7, 8, 9, 10, 11, 12]), .op 0 (.retrieve 10),
        .op 0 (.append [13, 14, 15, 16, 17, 18, 19, 20]), .op 0 (.prependInt16 258),
        .swap 0 1, .op 1 (.append [21, 22, 23, 24, 25, 26, 27])] := by
    refine ⟨Nat.lt_of_sub_ne_zero (by decide), fun bs₁ h₁ => ?_⟩
    cases Except.ok.inj h₁
    refine ⟨Nat.le_of_ble_eq_true (by decide), fun bs₂ h₂ => ?_⟩
    cases Except.ok.inj h₂
    refine ⟨Nat.lt_of_sub_ne_zero (by decide), fun bs₃ h₃ => ?_⟩
    cases Except.ok.inj h₃
    refine ⟨Nat.le_of_ble_eq_true (by decide), fun bs₄ h₄ => ?_⟩
    cases Except.ok.inj h₄
    refine ⟨trivial, fun bs₅ h₅ => ?_⟩
    cases Except.ok.inj h₅
    exact ⟨Nat.lt_of_sub_ne_zero (by decide), fun _ _ => trivial⟩
  rcases buffer_refines_sequence (fun _ => 16) (fun _ => by decide) _ hwithin with
    ⟨bs, hrun, h⟩ | ⟨hrun, -⟩
  · refine ⟨bs, hrun, (h 1).2.2.1.trans (by decide), ?_⟩
    cases Except.ok.inj hrun
    decide
  · cases hrun

end Reactor
