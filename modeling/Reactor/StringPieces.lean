import Reactor.BufferGrowth
import Reactor.TcpConnection

/-!
# Lengths that pass through a `StringPiece` (`StringPiece.h`)

A `StringPiece` holds its length as an `int`, while strings, buffers and `sendInLoopEX` count
in `size_t`. `Buffer::shrink` copies its content through a piece, and so do all paths of
`send` except the one of a buffer on the loop's own thread.

* `sizeOfInt_intOfSize_iff` - the lengths that come through a piece unchanged.
* `shrink_keeps_iff` - when `shrink` keeps the content.
* `send_paths_agree_iff` - when all paths of `send` hand the same bytes to `sendInLoopEX`.
-/

namespace Reactor

open Reactor.Lib

/-! ### The length of a piece -/

theorem sizeOfInt_intOfSize_of_gt {n : Nat} (hneg : intMax < n % 2 ^ 32) :
    maxSize < sizeOfInt (intOfSize n) := by
  have hlt : n % 2 ^ 32 < 2 ^ 32 := Nat.mod_lt _ (by decide)
  have hadd : ((n % 2 ^ 32 : Nat) - 2 ^ 32 : Int) % (sizeMod : Int) =
      (n % 2 ^ 32 : Nat) - 2 ^ 32 + (sizeMod : Int) := by
    rw [← Int.add_emod_right]
    apply Int.emod_eq_of_lt
    · unfold sizeMod
      omega
    · omega
  unfold sizeOfInt intOfSize
  rw [if_neg (by omega), hadd]
  unfold maxSize sizeMod
  unfold intMax at hneg
  omega

theorem sizeOfInt_intOfSize_of_le {n : Nat} (hpos : n % 2 ^ 32 ≤ intMax) :
    sizeOfInt (intOfSize n) = n % 2 ^ 32 := by
  unfold intOfSize
  rw [if_pos hpos]
  exact sizeOfInt_ofNat hpos

/-- A length of something in memory comes back from an `int` unchanged exactly when it is at
most `INT_MAX`. -/
theorem sizeOfInt_intOfSize_iff {n : Nat} (hn : n ≤ maxSize) :
    sizeOfInt (intOfSize n) = n ↔ n ≤ intMax := by
  constructor
  · intro h
    by_cases hpos : n % 2 ^ 32 ≤ intMax
    · rw [sizeOfInt_intOfSize_of_le hpos] at h
      omega
    · have hbig := sizeOfInt_intOfSize_of_gt (Nat.lt_of_not_le hpos)
      omega
  · intro h
    rw [intOfSize_of_le h, sizeOfInt_ofNat h]

namespace Buffer

/-! ### `shrink` -/

def toStringPiece (b : Buffer) : StringPiece :=
  ⟨b.buffer.drop b.readerIndex, intOfSize b.readableBytes⟩

/-- `append(const char*, size_t)`; the pointer as the memory behind it. -/
def appendFrom (b : Buffer) (data : Bytes) (len : Nat) : Exec Buffer := do
  let b' ← b.ensureWritableBytes len
  if len ≤ data.length then
    hasWritten { b' with buffer := overwrite b'.buffer b'.writerIndex (data.take len) } len
  else .error .badAccess

/-- `append(const StringPiece&)`. -/
def appendPiece (b : Buffer) (str : StringPiece) : Exec Buffer :=
  b.appendFrom str.data (sizeOfInt str.length)

def shrink (b : Buffer) (reserve : Nat) : Exec Buffer := do
  let other ← (create kInitialSize).ensureWritableBytes (sizeAdd b.readableBytes reserve)
  other.appendPiece b.toStringPiece

section Shrink

variable {b : Buffer} {data : Bytes} {len reserve : Nat}

theorem appendFrom_eq (hlen : len ≤ data.length) :
    b.appendFrom data len = b.append (data.take len) := by
  have hl : (data.take len).length = len := by
    rw [List.length_take]
    omega
  simp only [appendFrom, append, hl, if_pos hlen]

/-- `append` into room that is there. -/
theorem append_of_room (h : b.WF) (hroom : data.length ≤ b.writableBytes) :
    b.append data = .ok ⟨overwrite b.buffer b.writerIndex data, b.readerIndex,
      b.writerIndex + data.length⟩ := by
  have hw := h.writer_le
  have hs := h.size_le
  have hmax := maxSize_lt_sizeMod
  have hens : b.ensureWritableBytes data.length = .ok b := by
    rw [ensureWritableBytes, if_neg (Nat.not_lt.mpr hroom), ok_bind, check_of hroom]
    rfl
  have hroom' := hroom
  rw [h.writableBytes_eq] at hroom'
  have hover : (overwrite b.buffer b.writerIndex data).length = b.buffer.length :=
    length_overwrite (by omega)
  have hcheck : data.length ≤
      Buffer.writableBytes { b with buffer := overwrite b.buffer b.writerIndex data } := by
    rw [writableBytes, hover]
    exact hroom
  have hidx : sizeAdd b.writerIndex data.length = b.writerIndex + data.length :=
    sizeAdd_eq (by omega)
  rw [append, hens, ok_bind, hasWritten, check_of hcheck, ok_bind]
  simp only [hidx]

/-- The fresh buffer of `shrink`: empty, with room for what was asked. -/
theorem create_ensureWritableBytes (len : Nat) (hlen : kCheapPrepend + len ≤ maxSize) :
    ∃ b', (create kInitialSize).ensureWritableBytes len = .ok b' ∧ b'.WF ∧ b'.content = [] ∧
      len ≤ b'.writableBytes ∧ b'.readerIndex = kCheapPrepend ∧ b'.writerIndex = kCheapPrepend := by
  have hwf : (create kInitialSize).WF := create_wf (by decide)
  have hfits : (create kInitialSize).Fits len := hwf.fits (by omega)
  cases hens : (create kInitialSize).ensureWritableBytes len with
  | error f =>
      have hf := ensureWritableBytes_error hwf hfits hens
      subst hf
      have hlong : maxSize < kCheapPrepend + len := ensureWritableBytes_lengthError hfits hens
      omega
  | ok b' =>
      obtain ⟨hwf', hcontent, hroom, -, hcheap⟩ := ensureWritableBytes_ok hwf hfits hens
      rw [create_content] at hcontent
      have hreader : b'.readerIndex = kCheapPrepend :=
        Nat.le_antisymm (ensureWritableBytes_readerIndex_le hens) (hcheap (Nat.le_refl _))
      have hread := hwf'.readableBytes_eq_zero_iff.mpr hcontent
      rw [hwf'.readableBytes_eq] at hread
      have hle := hwf'.reader_le
      exact ⟨b', rfl, hwf', hcontent, hroom, hreader, by omega⟩

/-- `shrink` appends the piece to a buffer with room for the content and the reserve. -/
theorem shrink_eq (hreserve : b.readableBytes + reserve + kCheapPrepend < 2 ^ 63) :
    ∃ other : Buffer, b.shrink reserve = other.appendPiece b.toStringPiece ∧ other.WF ∧
      other.content = [] ∧ b.readableBytes + reserve ≤ other.writableBytes ∧
      other.readerIndex = kCheapPrepend ∧ other.writerIndex = kCheapPrepend := by
  have hsum : sizeAdd b.readableBytes reserve = b.readableBytes + reserve :=
    sizeAdd_eq (by unfold sizeMod; omega)
  obtain ⟨other, hother, hrest⟩ :=
    create_ensureWritableBytes (b.readableBytes + reserve) (by unfold maxSize; omega)
  refine ⟨other, ?_, hrest⟩
  rw [shrink, hsum, hother, ok_bind]

theorem WF.take_drop_content (h : b.WF) :
    (b.buffer.drop b.readerIndex).take b.readableBytes = b.content := by
  have hr := h.reader_le
  rw [h.readableBytes_eq, content, slice, List.drop_take]

theorem WF.readableBytes_le (h : b.WF) : b.readableBytes ≤ (b.buffer.drop b.readerIndex).length := by
  have hw := h.writer_le
  rw [h.readableBytes_eq, List.length_drop]
  omega

/-- `shrink` keeps the content, leaves room for `reserve` more bytes and the indices in
order. -/
def ShrinkKeeps (b : Buffer) (reserve : Nat) : Prop :=
  ∃ b', b.shrink reserve = .ok b' ∧ b'.content = b.content ∧ reserve ≤ b'.writableBytes ∧
    b'.prependableBytes = kCheapPrepend ∧ b'.WF

theorem shrinkKeeps_of_le (h : b.WF)
    (hreserve : b.readableBytes + reserve + kCheapPrepend < 2 ^ 63)
    (hint : b.readableBytes ≤ intMax) : b.ShrinkKeeps reserve := by
  obtain ⟨other, heq, hwf, hempty, hroom, hreader, hwriter⟩ := shrink_eq hreserve
  have hlen : sizeOfInt b.toStringPiece.length = b.readableBytes := by
    rw [toStringPiece, intOfSize_of_le hint, sizeOfInt_ofNat hint]
  have hcontent := h.length_content
  have happ : other.append b.content = .ok ⟨overwrite other.buffer other.writerIndex b.content,
      other.readerIndex, other.writerIndex + b.content.length⟩ := append_of_room hwf (by omega)
  have hshrink : b.shrink reserve = other.append b.content := by
    rw [heq, appendPiece, hlen]
    show other.appendFrom (b.buffer.drop b.readerIndex) b.readableBytes = _
    rw [appendFrom_eq h.readableBytes_le, h.take_drop_content]
  obtain ⟨hwf', hcontent', -⟩ := append_ok hwf
    (hwf.fits (by rw [hcontent]; unfold maxSize; omega)) happ
  rw [happ] at hshrink
  refine ⟨_, hshrink, by rw [hcontent', hempty, List.nil_append], ?_, hreader, hwf'⟩
  rw [hwf.writableBytes_eq] at hroom
  have hw := hwf.writer_le
  rw [hwf'.writableBytes_eq]
  simp only [length_overwrite (show other.writerIndex + b.content.length ≤ other.buffer.length by
    omega)]
  omega

/-- What `shrink` returns holds as many bytes as the `int` length, widened again, says. -/
theorem shrink_length {b' : Buffer} (h : b.WF)
    (hreserve : b.readableBytes + reserve + kCheapPrepend < 2 ^ 63)
    (hshrink : b.shrink reserve = .ok b') :
    b'.content.length = sizeOfInt (intOfSize b.readableBytes) := by
  obtain ⟨other, heq, hwf, hempty, -⟩ := shrink_eq hreserve
  rw [heq, appendPiece] at hshrink
  by_cases hfit : sizeOfInt b.toStringPiece.length ≤ b.toStringPiece.data.length
  · rw [appendFrom_eq hfit] at hshrink
    have htake : (b.toStringPiece.data.take (sizeOfInt b.toStringPiece.length)).length =
        sizeOfInt b.toStringPiece.length := by
      rw [List.length_take, Nat.min_eq_left hfit]
    have hdata : b.toStringPiece.data.length ≤ maxSize := by
      have hs := h.size_le
      simp only [toStringPiece, List.length_drop]
      omega
    obtain ⟨-, hcontent, -⟩ := append_ok hwf (hwf.fits (by omega)) hshrink
    rw [hcontent, hempty, List.nil_append, htake]
    rfl
  · simp [appendFrom, bind_eq_ok, hfit] at hshrink

/-- **`shrink` keeps the content** exactly when the content is at most `INT_MAX` bytes long. -/
theorem shrink_keeps_iff (h : b.WF)
    (hreserve : b.readableBytes + reserve + kCheapPrepend < 2 ^ 63) :
    b.ShrinkKeeps reserve ↔ b.readableBytes ≤ intMax := by
  constructor
  · rintro ⟨b', hshrink, hcontent, -⟩
    have hlen := shrink_length h hreserve hshrink
    rw [hcontent, h.length_content] at hlen
    exact (sizeOfInt_intOfSize_iff (by unfold maxSize; omega)).mp hlen.symm
  · exact shrinkKeeps_of_le h hreserve

end Shrink

/-- A buffer whose content is `n` zero bytes. -/
def zeros (n : Nat) : Buffer :=
  ⟨List.replicate (kCheapPrepend + n) 0, kCheapPrepend, kCheapPrepend + n⟩

section Zeros

variable {n : Nat}

theorem zeros_wf (hn : kCheapPrepend + n ≤ maxSize) : (zeros n).WF := by
  have hlen : (zeros n).buffer.length = kCheapPrepend + n := List.length_replicate
  constructor
  · exact Nat.le_add_right _ _
  · exact hlen.ge
  · rw [hlen]
    exact Nat.le_add_right _ _
  · rw [hlen]
    exact hn

theorem readableBytes_zeros (hn : kCheapPrepend + n ≤ maxSize) : (zeros n).readableBytes = n := by
  rw [(zeros_wf hn).readableBytes_eq]
  exact Nat.add_sub_cancel_left _ _

end Zeros

/-- Four gigabytes of content: `shrink` returns an empty buffer. -/
theorem shrink_loses_content :
    (zeros (2 ^ 32)).WF ∧ (zeros (2 ^ 32)).readableBytes + 0 + kCheapPrepend < 2 ^ 63 ∧
    (zeros (2 ^ 32)).content.length = 2 ^ 32 ∧
    (∃ b', (zeros (2 ^ 32)).shrink 0 = .ok b' ∧ b'.content = []) ∧
    ¬ (zeros (2 ^ 32)).ShrinkKeeps 0 := by
  have hmax : kCheapPrepend + 2 ^ 32 ≤ maxSize := by decide
  have hwf := zeros_wf hmax
  have hread := readableBytes_zeros hmax
  have hreserve : (zeros (2 ^ 32)).readableBytes + 0 + kCheapPrepend < 2 ^ 63 := by
    rw [hread]
    decide
  have hlen : (zeros (2 ^ 32)).content.length = 2 ^ 32 := hwf.length_content.trans hread
  have hsize : sizeOfInt (zeros (2 ^ 32)).toStringPiece.length = 0 := by
    rw [toStringPiece, hread]
    decide
  refine ⟨hwf, hreserve, hlen, ?_, ?_⟩
  · obtain ⟨other, heq, hother_wf, hempty, -⟩ := shrink_eq hreserve
    have happ : other.append [] = .ok ⟨overwrite other.buffer other.writerIndex [],
        other.readerIndex, other.writerIndex + 0⟩ := append_of_room hother_wf (Nat.zero_le _)
    have hcontent := (append_ok hother_wf (hother_wf.fits (Nat.zero_le _)) happ).2.1
    rw [hempty] at hcontent
    refine ⟨_, ?_, hcontent⟩
    rw [heq, appendPiece, hsize, appendFrom_eq (Nat.zero_le _), List.take_zero, happ]
  · rintro ⟨b', hshrink, hcontent, -⟩
    have hlen' := shrink_length hwf hreserve hshrink
    rw [hcontent, hlen, hread] at hlen'
    exact absurd hlen' (by decide)

/-- A content that an `int` can count. -/
theorem shrink_keeps_small : (zeros 100).readableBytes ≤ intMax ∧ (zeros 100).ShrinkKeeps 50 := by
  have hread : (zeros 100).readableBytes = 100 := readableBytes_zeros (by decide)
  have hint : (zeros 100).readableBytes ≤ intMax := by
    rw [hread]
    decide
  refine ⟨hint, (shrink_keeps_iff (zeros_wf (by decide)) ?_).mpr hint⟩
  rw [hread]
  decide

end Buffer

/-! ### The paths of `send` -/

/-- The arguments of `sendInLoopEX`: a pointer, as the memory behind it, and a `size_t`. -/
structure SendArgs where
  data : Bytes
  len : Nat
deriving DecidableEq, Repr

namespace SendArgs

/-- The bytes the arguments name. -/
def bytes (a : SendArgs) : Exec Bytes :=
  if a.len ≤ a.data.length then .ok (a.data.take a.len) else .error .badAccess

end SendArgs

namespace TcpConnection

/-- `sendInLoop`: what it hands to `sendInLoopEX`. -/
def sendInLoop (message : StringPiece) : SendArgs := ⟨message.data, sizeOfInt message.length⟩

/-- `send(const StringPiece&)`: what reaches `sendInLoopEX`. On another thread that is through
the functor, which holds a string. -/
def sendPiece (conn : TcpConnection) (inLoopThread : Bool) (message : StringPiece) :
    Exec (Option SendArgs) :=
  if conn.state = .kConnected then
    if inLoopThread then .ok (some (sendInLoop message))
    else do
      let s ← message.asString
      .ok (some (sendInLoop (.ofString s)))
  else .ok none

/-- `send(Buffer*)`: what reaches `sendInLoopEX`, and the buffer after the call. -/
def sendBuffer (conn : TcpConnection) (inLoopThread : Bool) (buf : Buffer) :
    Exec (Option SendArgs × Buffer) :=
  if conn.state = .kConnected then
    if inLoopThread then
      .ok (some ⟨buf.buffer.drop buf.readerIndex, buf.readableBytes⟩, buf.retrieveAll)
    else do
      let (s, rest) ← buf.retrieveAllAsString
      .ok (some (sendInLoop (.ofString s)), rest)
  else .ok (none, buf)

end TcpConnection

/-- Unless the connection is closed, the call `sendInLoop` of its model hands on the bytes of
these arguments. -/
theorem call_sendInLoop {C : Type} [DecidableEq C] (v : ConnView C) (o : Oracle) (sender : Sender)
    (message : StringPiece) (hs : v.conn.state ≠ .kDisconnected) :
    v.call (.sendInLoop sender message) o = (do
      let data ← (TcpConnection.sendInLoop message).bytes
      v.sendInLoopEX sender data o.write) := if_neg hs

/-- The buffer, on either thread, and the string, on either thread, reach `sendInLoopEX` with
one length and one byte sequence, and the buffer is left empty. -/
def SendPathsAgree (conn : TcpConnection) (buf : Buffer) (s : Bytes) : Prop :=
  ∃ a₁ a₂ a₃ a₄ b₁ b₂,
    conn.sendBuffer true buf = .ok (some a₁, b₁) ∧ conn.sendBuffer false buf = .ok (some a₂, b₂) ∧
    conn.sendPiece true (.ofString s) = .ok (some a₃) ∧
    conn.sendPiece false (.ofString s) = .ok (some a₄) ∧
    (a₁.len = a₂.len ∧ a₂.len = a₃.len ∧ a₃.len = a₄.len) ∧
    (a₁.bytes = a₂.bytes ∧ a₂.bytes = a₃.bytes ∧ a₃.bytes = a₄.bytes) ∧
    b₁.content = [] ∧ b₂.content = []

section SendPaths

variable {conn : TcpConnection} {buf : Buffer}

theorem sendBuffer_loop (hconn : conn.state = .kConnected) (h : buf.WF) :
    ∃ a, conn.sendBuffer true buf = .ok (some a, buf.retrieveAll) ∧
      a.len = buf.content.length ∧ a.bytes = .ok buf.content := by
  refine ⟨_, by rw [TcpConnection.sendBuffer, if_pos hconn]; rfl, h.length_content.symm, ?_⟩
  rw [SendArgs.bytes, if_pos h.readableBytes_le, h.take_drop_content]

theorem sendBuffer_other (hconn : conn.state = .kConnected) (h : buf.WF) :
    conn.sendBuffer false buf =
      .ok (some (TcpConnection.sendInLoop (.ofString buf.content)), buf.retrieveAll) := by
  rw [TcpConnection.sendBuffer, if_pos hconn, Buffer.retrieveAllAsString_ok h]
  rfl

/-- The lengths that the two threads hand on. -/
theorem sendBuffer_lengths (hconn : conn.state = .kConnected) (h : buf.WF) :
    ∃ a₁ a₂, conn.sendBuffer true buf = .ok (some a₁, buf.retrieveAll) ∧
      conn.sendBuffer false buf = .ok (some a₂, buf.retrieveAll) ∧
      a₁.len = buf.content.length ∧ a₂.len = sizeOfInt (intOfSize buf.content.length) := by
  obtain ⟨a₁, hloop, hlen, -⟩ := sendBuffer_loop hconn h
  exact ⟨a₁, _, hloop, sendBuffer_other hconn h, hlen, rfl⟩

theorem sendInLoop_ofString {s : Bytes} (hs : s.length ≤ intMax) :
    TcpConnection.sendInLoop (.ofString s) = ⟨s, s.length⟩ := by
  rw [TcpConnection.sendInLoop, StringPiece.ofString, intOfSize_of_le hs, sizeOfInt_ofNat hs]

theorem SendArgs.bytes_whole (s : Bytes) : SendArgs.bytes ⟨s, s.length⟩ = .ok s := by
  simp [SendArgs.bytes]

/-- Both threads hand on the same length only if an `int` can hold it. -/
theorem length_le_of_sendPathsAgree {s : Bytes} (hconn : conn.state = .kConnected) (h : buf.WF)
    (hagree : SendPathsAgree conn buf s) : buf.content.length ≤ intMax := by
  obtain ⟨a₁, a₂, a₃, a₄, b₁, b₂, hloop, hother, -, -, ⟨hlen, -⟩, -⟩ := hagree
  obtain ⟨a₁', a₂', hloop', hother', hlen₁, hlen₂⟩ := sendBuffer_lengths hconn h
  rw [hloop'] at hloop
  rw [hother'] at hother
  cases hloop
  cases hother
  rw [hlen₁, hlen₂] at hlen
  have hmax : buf.content.length ≤ maxSize := Message.length_content_le (.buffer ⟨buf, h⟩)
  exact (sizeOfInt_intOfSize_iff hmax).mp hlen.symm

/-- **All paths of `send` carry the same bytes** exactly when the message is at most `INT_MAX`
bytes long. -/
theorem send_paths_agree_iff (hconn : conn.state = .kConnected) (h : buf.WF) :
    SendPathsAgree conn buf buf.content ↔ buf.content.length ≤ intMax := by
  constructor
  · exact length_le_of_sendPathsAgree hconn h
  · intro hint
    obtain ⟨a, ha, halen, habytes⟩ := sendBuffer_loop hconn h
    have hargs := sendInLoop_ofString hint
    have hpiece : conn.sendPiece true (.ofString buf.content) =
        .ok (some ⟨buf.content, buf.content.length⟩) := by
      rw [TcpConnection.sendPiece, if_pos hconn, if_pos rfl, hargs]
    have hpiece' : conn.sendPiece false (.ofString buf.content) =
        .ok (some ⟨buf.content, buf.content.length⟩) := by
      rw [TcpConnection.sendPiece, if_pos hconn, StringPiece.asString_ofString hint, ← hargs]
      rfl
    have hother := sendBuffer_other hconn h
    rw [hargs] at hother
    refine ⟨a, _, _, _, _, _, ha, hother, hpiece, hpiece', ⟨halen, rfl, rfl⟩, ?_,
      Buffer.retrieveAll_content _, Buffer.retrieveAll_content _⟩
    rw [habytes, SendArgs.bytes_whole]
    exact ⟨rfl, rfl, rfl⟩

end SendPaths

/-- A buffer of two gigabytes: on the loop's thread `sendInLoopEX` gets `2^31` as the length,
through the functor it gets `2^64 - 2^31`. -/
theorem send_paths_differ :
    let conn : TcpConnection := { TcpConnection.create 5 false with state := .kConnected }
    let buf := Buffer.zeros (2 ^ 31)
    buf.WF ∧ buf.content.length = 2 ^ 31 ∧
    (∃ a₁ a₂ b₁ b₂, conn.sendBuffer true buf = .ok (some a₁, b₁) ∧
      conn.sendBuffer false buf = .ok (some a₂, b₂) ∧
      a₁.len = 2 ^ 31 ∧ a₂.len = 2 ^ 64 - 2 ^ 31) ∧
    ¬ SendPathsAgree conn buf buf.content := by
  intro conn buf
  have hconn : conn.state = .kConnected := rfl
  have hmax : kCheapPrepend + 2 ^ 31 ≤ maxSize := by decide
  have hwf : buf.WF := Buffer.zeros_wf hmax
  have hlen : buf.content.length = 2 ^ 31 :=
    hwf.length_content.trans (Buffer.readableBytes_zeros hmax)
  refine ⟨hwf, hlen, ?_, ?_⟩
  · obtain ⟨a₁, a₂, hloop, hother, hlen₁, hlen₂⟩ := sendBuffer_lengths hconn hwf
    rw [hlen] at hlen₁ hlen₂
    exact ⟨a₁, a₂, _, _, hloop, hother, hlen₁, hlen₂.trans (by decide)⟩
  · intro hagree
    have hint := length_le_of_sendPathsAgree hconn hwf hagree
    rw [hlen] at hint
    exact absurd hint (by decide)

/-- A message of one hundred bytes. -/
theorem send_paths_agree_small :
    SendPathsAgree { TcpConnection.create 5 false with state := .kConnected }
      (Buffer.zeros 100) (Buffer.zeros 100).content := by
  have hwf : (Buffer.zeros 100).WF := Buffer.zeros_wf (by decide)
  refine (send_paths_agree_iff rfl hwf).mpr ?_
  rw [hwf.length_content, Buffer.readableBytes_zeros (by decide)]
  decide

end Reactor
