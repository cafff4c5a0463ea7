import Reactor.Basic
import Reactor.Lib.Memory

/-!
# The byte buffer (`Buffer.h`, `Buffer.cpp`)

A `Buffer` is a vector of bytes with two indices into it; the bytes between the
indices are its content. The member functions are those of the source, with `size_t`
arithmetic modulo `2^64`, every `assert` a check, and `vector::resize` failing above
`max_size`.

* `Buffer.WF` - the index invariant. `Buffer.content` - the byte sequence a buffer
  stands for.
* `append_ok`, `retrieve_ok`, `readFd_ok` - on a well-formed buffer an operation that
  returns keeps the invariant and does to the content what its name says.
* `append_error` - the only way appending fails is a request above `max_size`.
* `readFd_appends` - what one read does, for every answer of `readv`.
* `readFd_length_le` - how far one read can grow the vector.
-/

namespace Reactor

open Reactor.Lib

/-- `Buffer::kCheapPrepend`. -/
def kCheapPrepend : Nat := 8

/-- `Buffer::kInitialSize`. -/
def kInitialSize : Nat := 1024

/-- `std::vector<char>::max_size()`. -/
def maxSize : Nat := 2 ^ 63 - 1

/-- `sizeof extrabuf` in `Buffer::readFd`. -/
def extrabufSize : Nat := 65536

structure Buffer where
  buffer : Bytes
  readerIndex : Nat
  writerIndex : Nat
deriving DecidableEq, Repr

namespace Buffer

/-- The constructor. -/
def create (initialSize : Nat) : Buffer :=
  { buffer := List.replicate (kCheapPrepend + initialSize) 0
    readerIndex := kCheapPrepend
    writerIndex := kCheapPrepend }

def readableBytes (b : Buffer) : Nat := sizeSub b.writerIndex b.readerIndex

def writableBytes (b : Buffer) : Nat := sizeSub b.buffer.length b.writerIndex

def prependableBytes (b : Buffer) : Nat := b.readerIndex

/-- The readable bytes: `readableBytes()` bytes from `peek()` on. -/
def content (b : Buffer) : Bytes := slice b.buffer b.readerIndex b.writerIndex

/-! ### Operations -/

def retrieveAll (b : Buffer) : Buffer :=
  { b with readerIndex := kCheapPrepend, writerIndex := kCheapPrepend }

def retrieve (b : Buffer) (len : Nat) : Exec Buffer := do
  check (len ≤ b.readableBytes) .retrieve_readable
  if len < b.readableBytes then
    .ok { b with readerIndex := sizeAdd b.readerIndex len }
  else
    .ok b.retrieveAll

def retrieveAsString (b : Buffer) (len : Nat) : Exec (Bytes × Buffer) := do
  check (len ≤ b.readableBytes) .retrieveAsString_readable
  let rest ← b.retrieve len
  .ok (slice b.buffer b.readerIndex (b.readerIndex + len), rest)

def retrieveAllAsString (b : Buffer) : Exec (Bytes × Buffer) := b.retrieveAsString b.readableBytes

def makeSpace (b : Buffer) (len : Nat) : Exec Buffer :=
  if sizeAdd b.writableBytes b.prependableBytes < sizeAdd len kCheapPrepend then
    let size := sizeAdd b.writerIndex len
    if size ≤ maxSize then .ok { b with buffer := resize b.buffer size 0 } else .error .lengthError
  else do
    -- move readable data to the front, make space inside buffer
    check (kCheapPrepend < b.readerIndex) .makeSpace_reader
    let moved : Buffer :=
      { buffer := overwrite b.buffer kCheapPrepend b.content
        readerIndex := kCheapPrepend
        writerIndex := sizeAdd kCheapPrepend b.readableBytes }
    check (b.readableBytes = moved.readableBytes) .makeSpace_readable
    .ok moved

def ensureWritableBytes (b : Buffer) (len : Nat) : Exec Buffer := do
  let b' ← (if b.writableBytes < len then b.makeSpace len else .ok b)
  check (len ≤ b'.writableBytes) .ensureWritableBytes_writable
  .ok b'

def hasWritten (b : Buffer) (len : Nat) : Exec Buffer := do
  check (len ≤ b.writableBytes) .hasWritten_writable
  .ok { b with writerIndex := sizeAdd b.writerIndex len }

def append (b : Buffer) (data : Bytes) : Exec Buffer := do
  let b' ← b.ensureWritableBytes data.length
  hasWritten { b' with buffer := overwrite b'.buffer b'.writerIndex data } data.length

/-- The total length of the iovec array `readFd` offers to `readv`. -/
def iovLength (b : Buffer) : Nat :=
  if b.writableBytes < extrabufSize then b.writableBytes + extrabufSize else b.writableBytes

/-- What `readFd` hands back: its return value, `*savedErrno` where it is set, and
the bytes `readv` delivered. -/
structure ReadFd where
  n : Int
  savedErrno : Option Errno
  data : Bytes
deriving DecidableEq, Repr

def readFd (b : Buffer) : ReadResult → Exec (Buffer × ReadFd)
  | .fail err => .ok (b, ⟨-1, some err, []⟩)
  | .deliver d => do
      let writable := b.writableBytes
      let data := d.take b.iovLength
      -- `readv` fills the tail of the vector first, then `extrabuf`
      let filled := { b with buffer := overwrite b.buffer b.writerIndex (data.take writable) }
      if data.length ≤ writable then
        .ok ({ filled with writerIndex := sizeAdd b.writerIndex data.length },
          ⟨data.length, none, data⟩)
      else
        let b' ← append { filled with writerIndex := b.buffer.length } (data.drop writable)
        .ok (b', ⟨data.length, none, data⟩)

/-! ### The index invariant -/

/-- The index invariant, with the bound every vector meets. -/
structure WF (b : Buffer) : Prop where
  reader_le : b.readerIndex ≤ b.writerIndex
  writer_le : b.writerIndex ≤ b.buffer.length
  cheap_le : kCheapPrepend ≤ b.buffer.length
  size_le : b.buffer.length ≤ maxSize

theorem maxSize_lt_sizeMod : maxSize < sizeMod := by decide

theorem create_wf {initialSize : Nat} (h : kCheapPrepend + initialSize ≤ maxSize) :
    (create initialSize).WF := by
  refine ⟨Nat.le_refl _, ?_, ?_, ?_⟩ <;>
    simp only [create, List.length_replicate] <;> omega

@[simp] theorem create_content (initialSize : Nat) : (create initialSize).content = [] := by
  simp [create, content]

section WellFormed

variable {b b' : Buffer} {data : Bytes} {len : Nat}

theorem WF.readableBytes_eq (h : b.WF) : b.readableBytes = b.writerIndex - b.readerIndex :=
  sizeSub_eq h.reader_le
    (Nat.lt_of_le_of_lt (h.writer_le.trans h.size_le) maxSize_lt_sizeMod)

theorem WF.writableBytes_eq (h : b.WF) : b.writableBytes = b.buffer.length - b.writerIndex :=
  sizeSub_eq h.writer_le (Nat.lt_of_le_of_lt h.size_le maxSize_lt_sizeMod)

theorem WF.length_content (h : b.WF) : b.content.length = b.readableBytes := by
  rw [h.readableBytes_eq, content, length_slice h.writer_le]

theorem WF.readableBytes_eq_zero_iff (h : b.WF) : b.readableBytes = 0 ↔ b.content = [] := by
  rw [← h.length_content, List.length_eq_zero_iff]

theorem WF.retrieveAll (h : b.WF) : b.retrieveAll.WF :=
  ⟨Nat.le_refl _, h.cheap_le, h.cheap_le, h.size_le⟩

@[simp] theorem retrieveAll_content (b : Buffer) : b.retrieveAll.content = [] := by
  simp [Buffer.retrieveAll, content]

/-! ### Taking bytes out -/

/-- `retrieve` drops the first `len` readable bytes. -/
theorem retrieve_ok (h : b.WF) (hret : b.retrieve len = .ok b') :
    b'.WF ∧ b'.content = b.content.drop len := by
  have hread := h.readableBytes_eq
  have hw := h.writer_le
  have hr := h.reader_le
  have hs := h.size_le
  simp only [retrieve, bind_eq_ok, check_eq_ok, exists_and_left] at hret
  obtain ⟨hle, hret⟩ := hret
  split at hret
  · rename_i hlt
    have hidx : sizeAdd b.readerIndex len = b.readerIndex + len :=
      sizeAdd_eq (by have := maxSize_lt_sizeMod; omega)
    obtain ⟨-, hret⟩ := hret
    cases hret
    refine ⟨⟨?_, hw, h.cheap_le, hs⟩, ?_⟩
    · show sizeAdd b.readerIndex len ≤ b.writerIndex
      omega
    · show slice b.buffer (sizeAdd b.readerIndex len) b.writerIndex = _
      rw [hidx, content, drop_slice]
  · rename_i hge
    obtain ⟨-, hret⟩ := hret
    cases hret
    refine ⟨h.retrieveAll, ?_⟩
    rw [retrieveAll_content, List.drop_of_length_le]
    rw [h.length_content]
    omega

/-- A request for readable bytes never fails. -/
theorem retrieve_ne_error {f : Fault} (hlen : len ≤ b.readableBytes) :
    b.retrieve len ≠ .error f := by
  simp only [retrieve, ne_eq, bind_eq_error, check_eq_error, check_eq_ok]
  rintro (⟨hnot, -⟩ | ⟨_, -, h⟩)
  · exact hnot hlen
  · split at h <;> simp at h

/-- `retrieveAllAsString` returns the content and leaves an empty buffer. -/
theorem retrieveAllAsString_ok (h : b.WF) :
    b.retrieveAllAsString = .ok (b.content, b.retrieveAll) := by
  have hend : b.readerIndex + b.readableBytes = b.writerIndex := by
    rw [h.readableBytes_eq]
    have := h.reader_le
    omega
  simp [retrieveAllAsString, retrieveAsString, retrieve, check, require, hend, content, bind,
    Except.bind]

/-! ### Making room -/

/-- The sums that a request for `len` bytes computes do not wrap around. -/
structure Fits (b : Buffer) (len : Nat) : Prop where
  room : len + kCheapPrepend < sizeMod
  size : b.writerIndex + len < sizeMod

/-- A request below `max_size` fits. -/
theorem WF.fits (h : b.WF) (hlen : len ≤ maxSize) : b.Fits len := by
  have hw := h.writer_le
  have hs := h.size_le
  have hmax : 2 * maxSize + 1 < sizeMod := by decide
  have hcheap : kCheapPrepend + maxSize < sizeMod := by decide
  exact ⟨by omega, by omega⟩

theorem makeSpace_ok (h : b.WF) (hneed : b.writableBytes < len) (hfits : b.Fits len)
    (hspace : b.makeSpace len = .ok b') :
    b'.WF ∧ b'.content = b.content ∧ len ≤ b'.writableBytes ∧
      b'.buffer.length ≤ max b.buffer.length (b.writerIndex + len) ∧
      (kCheapPrepend ≤ b.readerIndex → kCheapPrepend ≤ b'.readerIndex) := by
  have hr := h.reader_le
  have hw := h.writer_le
  have hs := h.size_le
  have hc := h.cheap_le
  have hread := h.readableBytes_eq
  have hwrite := h.writableBytes_eq
  have hmax : 2 * maxSize + 1 < sizeMod := by decide
  have hcheap : kCheapPrepend + maxSize < sizeMod := by decide
  have hroom : sizeAdd b.writableBytes b.prependableBytes = b.writableBytes + b.readerIndex :=
    sizeAdd_eq (by show _ + b.readerIndex < _; omega)
  have hask : sizeAdd len kCheapPrepend = len + kCheapPrepend := sizeAdd_eq hfits.room
  have hend : sizeAdd b.writerIndex len = b.writerIndex + len := sizeAdd_eq hfits.size
  simp only [makeSpace, hroom, hask, hend] at hspace
  split at hspace
  · -- the vector grows
    split at hspace
    · rename_i hfit
      cases hspace
      have hlong : (resize b.buffer (b.writerIndex + len) 0).length = b.writerIndex + len :=
        length_resize _ _ _
      have hwf : Buffer.WF { b with buffer := resize b.buffer (b.writerIndex + len) 0 } :=
        ⟨hr, by simp only [hlong]; omega, by simp only [hlong]; omega, by simp only [hlong]; omega⟩
      refine ⟨hwf, slice_resize hw (by omega), ?_, ?_, id⟩
      · rw [hwf.writableBytes_eq, hlong]
        simp only
        omega
      · rw [hlong]
        exact Nat.le_max_right _ _
    · cases hspace
  · -- the content moves down to `kCheapPrepend`
    rename_i hinside
    simp only [bind_eq_ok, check_eq_ok, Except.ok.injEq, exists_and_left] at hspace
    obtain ⟨hreader, -, -, -, rfl⟩ := hspace
    have hcontent := h.length_content
    have hidx : sizeAdd kCheapPrepend b.readableBytes = kCheapPrepend + b.readableBytes :=
      sizeAdd_eq (by omega)
    have hover : (overwrite b.buffer kCheapPrepend b.content).length = b.buffer.length :=
      length_overwrite (by omega)
    have hwf : Buffer.WF ⟨overwrite b.buffer kCheapPrepend b.content, kCheapPrepend,
        sizeAdd kCheapPrepend b.readableBytes⟩ :=
      ⟨by simp only [hidx]; omega, by simp only [hidx, hover]; omega,
        by simp only [hover]; omega, by simp only [hover]; omega⟩
    refine ⟨hwf, ?_, ?_, ?_, fun _ => Nat.le_refl _⟩
    · show slice _ kCheapPrepend (sizeAdd kCheapPrepend b.readableBytes) = b.content
      rw [hidx, ← hcontent, slice_overwrite (Nat.le_refl _) hc, slice_self, List.nil_append]
    · rw [hwf.writableBytes_eq]
      simp only [hidx, hover]
      omega
    · simp only [hover]
      exact Nat.le_max_left _ _

/-- Making room fails only in `vector::resize`. -/
theorem makeSpace_error {f : Fault} (h : b.WF) (hneed : b.writableBytes < len)
    (hfits : b.Fits len) (hspace : b.makeSpace len = .error f) : f = .lengthError := by
  have hr := h.reader_le
  have hw := h.writer_le
  have hs := h.size_le
  have hread := h.readableBytes_eq
  have hwrite := h.writableBytes_eq
  have hmax : 2 * maxSize + 1 < sizeMod := by decide
  have hcheap : kCheapPrepend + maxSize < sizeMod := by decide
  have hroom : sizeAdd b.writableBytes b.prependableBytes = b.writableBytes + b.readerIndex :=
    sizeAdd_eq (by show _ + b.readerIndex < _; omega)
  have hask : sizeAdd len kCheapPrepend = len + kCheapPrepend := sizeAdd_eq hfits.room
  simp only [makeSpace, hroom, hask] at hspace
  split at hspace
  · split at hspace
    · cases hspace
    · cases hspace
      rfl
  · rename_i hinside
    have hreader : kCheapPrepend < b.readerIndex := by omega
    have hidx : sizeAdd kCheapPrepend b.readableBytes = kCheapPrepend + b.readableBytes :=
      sizeAdd_eq (by omega)
    have hsame : sizeSub (sizeAdd kCheapPrepend b.readableBytes) kCheapPrepend =
        b.readableBytes := by
      rw [hidx, sizeSub_eq (Nat.le_add_right _ _) (by omega), Nat.add_sub_cancel_left]
    simp only [bind_eq_error, check_eq_error, check_eq_ok, reduceCtorEq, and_false, exists_false,
      or_false] at hspace
    rcases hspace with ⟨hnot, -⟩ | ⟨_, -, hnot, -⟩
    · exact absurd hreader hnot
    · exact absurd hsame.symm hnot

/-- `vector::resize` throws only when the vector would become longer than `max_size`. -/
theorem makeSpace_lengthError (hfits : b.Fits len) (hspace : b.makeSpace len = .error .lengthError) :
    maxSize < b.writerIndex + len := by
  have hend : sizeAdd b.writerIndex len = b.writerIndex + len := sizeAdd_eq hfits.size
  simp only [makeSpace, hend] at hspace
  split at hspace
  · split at hspace
    · cases hspace
    · omega
  · simp [bind_eq_error] at hspace

theorem ensureWritableBytes_ok (h : b.WF) (hfits : b.Fits len)
    (hens : b.ensureWritableBytes len = .ok b') :
    b'.WF ∧ b'.content = b.content ∧ len ≤ b'.writableBytes ∧
      b'.buffer.length ≤ max b.buffer.length (b.writerIndex + len) ∧
      (kCheapPrepend ≤ b.readerIndex → kCheapPrepend ≤ b'.readerIndex) := by
  simp only [ensureWritableBytes, bind_eq_ok, check_eq_ok, Except.ok.injEq,
    exists_and_left] at hens
  obtain ⟨b₁, hb₁, hroom, -, rfl⟩ := hens
  split at hb₁
  · rename_i hneed
    exact makeSpace_ok h hneed hfits hb₁
  · cases hb₁
    exact ⟨h, rfl, hroom, Nat.le_max_left _ _, id⟩

theorem ensureWritableBytes_error {f : Fault} (h : b.WF) (hfits : b.Fits len)
    (hens : b.ensureWritableBytes len = .error f) : f = .lengthError := by
  simp only [ensureWritableBytes, bind_eq_error, check_eq_error, check_eq_ok, reduceCtorEq,
    and_false, exists_false, or_false] at hens
  rcases hens with hens | ⟨b₁, hb₁, hnot, -⟩
  · split at hens
    · rename_i hneed
      exact makeSpace_error h hneed hfits hens
    · cases hens
  · split at hb₁
    · rename_i hneed
      exact absurd (makeSpace_ok h hneed hfits hb₁).2.2.1 hnot
    · rename_i henough
      cases hb₁
      exact absurd (Nat.le_of_not_lt henough) hnot

/-- Making room moves the content to the front, or not at all. -/
theorem ensureWritableBytes_readerIndex_le (hens : b.ensureWritableBytes len = .ok b') :
    b'.readerIndex ≤ b.readerIndex := by
  simp only [ensureWritableBytes, bind_eq_ok, check_eq_ok, Except.ok.injEq,
    exists_and_left] at hens
  obtain ⟨b₁, hspace, -, -, rfl⟩ := hens
  split at hspace
  · unfold makeSpace at hspace
    split at hspace
    · dsimp only at hspace
      split at hspace <;> cases hspace
      exact Nat.le_refl _
    · simp only [bind_eq_ok, check_eq_ok, Except.ok.injEq, exists_and_left] at hspace
      obtain ⟨hreader, -, -, -, rfl⟩ := hspace
      exact Nat.le_of_lt hreader
  · cases hspace
    exact Nat.le_refl _

theorem ensureWritableBytes_lengthError (hfits : b.Fits len)
    (hens : b.ensureWritableBytes len = .error .lengthError) : maxSize < b.writerIndex + len := by
  simp only [ensureWritableBytes, bind_eq_error, check_eq_error, reduceCtorEq, and_false,
    exists_false, or_false] at hens
  split at hens
  · exact makeSpace_lengthError hfits hens
  · cases hens

/-! ### Putting bytes in -/

/-- `append` puts `data` behind the content. -/
theorem append_ok (h : b.WF) (hfits : b.Fits data.length) (happ : b.append data = .ok b') :
    b'.WF ∧ b'.content = b.content ++ data ∧
      b'.buffer.length ≤ max b.buffer.length (b.writerIndex + data.length) ∧
      (kCheapPrepend ≤ b.readerIndex → kCheapPrepend ≤ b'.readerIndex) := by
  simp only [append, bind_eq_ok] at happ
  obtain ⟨b₁, hb₁, hwr⟩ := happ
  obtain ⟨hwf, hcontent, hroom, hgrow, hcheap⟩ := ensureWritableBytes_ok h hfits hb₁
  have hr := hwf.reader_le
  have hw := hwf.writer_le
  have hs := hwf.size_le
  have hc := hwf.cheap_le
  have hmax : 2 * maxSize + 1 < sizeMod := by decide
  rw [hwf.writableBytes_eq] at hroom
  have hover : (overwrite b₁.buffer b₁.writerIndex data).length = b₁.buffer.length :=
    length_overwrite (by omega)
  have hidx : sizeAdd b₁.writerIndex data.length = b₁.writerIndex + data.length :=
    sizeAdd_eq (by omega)
  simp only [hasWritten, bind_eq_ok, check_eq_ok, Except.ok.injEq, exists_and_left] at hwr
  obtain ⟨-, -, rfl⟩ := hwr
  refine ⟨⟨?_, ?_, ?_, ?_⟩, ?_, ?_, hcheap⟩
  · simp only [hidx]; omega
  · simp only [hidx, hover]; omega
  · simp only [hover]; omega
  · simp only [hover]; omega
  · show slice _ b₁.readerIndex (sizeAdd b₁.writerIndex data.length) = _
    rw [hidx, slice_overwrite hr hw, ← hcontent]
    rfl
  · simp only [hover]
    exact hgrow

/-- Appending fails only in `vector::resize`. -/
theorem append_error {f : Fault} (h : b.WF) (hfits : b.Fits data.length)
    (happ : b.append data = .error f) : f = .lengthError := by
  simp only [append, bind_eq_error] at happ
  rcases happ with happ | ⟨b₁, hb₁, hwr⟩
  · exact ensureWritableBytes_error h hfits happ
  · obtain ⟨hwf, -, hroom, -⟩ := ensureWritableBytes_ok h hfits hb₁
    have hw := hwf.writer_le
    have hover : (overwrite b₁.buffer b₁.writerIndex data).length = b₁.buffer.length := by
      rw [hwf.writableBytes_eq] at hroom
      exact length_overwrite (by omega)
    simp only [hasWritten, bind_eq_error, check_eq_error, reduceCtorEq, and_false, exists_false,
      or_false, writableBytes, hover] at hwr
    exact absurd hroom hwr.1

/-- Appending moves the write index by at most the bytes appended. -/
theorem append_writerIndex_le (h : b.WF) (hfits : b.Fits data.length)
    (happ : b.append data = .ok b') : b'.writerIndex ≤ b.writerIndex + data.length := by
  obtain ⟨hwf, hcontent, -⟩ := append_ok h hfits happ
  have hlen : b'.readableBytes = b.readableBytes + data.length := by
    rw [← hwf.length_content, hcontent, List.length_append, h.length_content]
  have hreader : b'.readerIndex ≤ b.readerIndex := by
    simp only [append, bind_eq_ok, hasWritten, check_eq_ok, Except.ok.injEq,
      exists_and_left] at happ
    obtain ⟨b₁, hens, -, -, rfl⟩ := happ
    show b₁.readerIndex ≤ b.readerIndex
    exact ensureWritableBytes_readerIndex_le hens
  rw [hwf.readableBytes_eq, h.readableBytes_eq] at hlen
  have hr := h.reader_le
  have hr' := hwf.reader_le
  omega

theorem append_lengthError (hfits : b.Fits data.length)
    (happ : b.append data = .error .lengthError) : maxSize < b.writerIndex + data.length := by
  simp only [append, bind_eq_error] at happ
  rcases happ with happ | ⟨b₁, -, hwr⟩
  · exact ensureWritableBytes_lengthError hfits happ
  · simp [hasWritten, bind_eq_error] at hwr

/-! ### Reading from a descriptor -/

/-- The iovec array has room for at most `iovLength` bytes, and a read that spills
over into `extrabuf` spills at most `extrabufSize` bytes. -/
theorem spill_le (hspill : ¬ (data.take b.iovLength).length ≤ b.writableBytes) :
    b.writableBytes < extrabufSize ∧
      ((data.take b.iovLength).drop b.writableBytes).length ≤ extrabufSize := by
  simp only [iovLength] at hspill ⊢
  split at hspill <;> rename_i hw
  · rw [if_pos hw]
    refine ⟨hw, ?_⟩
    simp only [List.length_drop, List.length_take]
    omega
  · simp only [List.length_take] at hspill
    omega

/-- The part of a read that fits into the tail of the vector. -/
theorem filled_wf (h : b.WF) (data : Bytes) {w : Nat} (hw : b.writerIndex ≤ w)
    (hlen : w ≤ b.buffer.length) :
    Buffer.WF { b with
      buffer := overwrite b.buffer b.writerIndex (data.take b.writableBytes), writerIndex := w } := by
  have hfit : b.writerIndex + (data.take b.writableBytes).length ≤ b.buffer.length := by
    have := h.writer_le
    rw [h.writableBytes_eq, List.length_take]
    omega
  have hover := length_overwrite hfit
  exact ⟨h.reader_le.trans hw, by simp only [hover]; exact hlen, by simp only [hover]; exact h.cheap_le,
    by simp only [hover]; exact h.size_le⟩

/-- What a read that returns hands out, and where the bytes are: all in the tail of the vector,
or in the full tail and appended. -/
theorem readFd_deliver_eq {d : Bytes} {out : ReadFd}
    (hread : b.readFd (.deliver d) = .ok (b', out)) :
    out = ⟨(d.take b.iovLength).length, none, d.take b.iovLength⟩ ∧
      (out.data.length ≤ b.writableBytes ∧
          b' = { b with
            buffer := overwrite b.buffer b.writerIndex (out.data.take b.writableBytes)
            writerIndex := sizeAdd b.writerIndex out.data.length } ∨
        ¬ out.data.length ≤ b.writableBytes ∧
          append { b with
            buffer := overwrite b.buffer b.writerIndex (out.data.take b.writableBytes)
            writerIndex := b.buffer.length } (out.data.drop b.writableBytes) = .ok b') := by
  simp only [readFd] at hread
  split at hread
  · rename_i hfit
    cases hread
    exact ⟨rfl, Or.inl ⟨hfit, rfl⟩⟩
  · rename_i hspill
    simp only [bind_eq_ok, Except.ok.injEq, Prod.mk.injEq] at hread
    obtain ⟨_, happ, rfl, rfl⟩ := hread
    exact ⟨rfl, Or.inr ⟨hspill, happ⟩⟩

/-- A read that ends inside the vector, or at its end. -/
theorem filled_ok (h : b.WF) (hfit : data.length ≤ b.writableBytes)
    (heq : b' = { b with
      buffer := overwrite b.buffer b.writerIndex (data.take b.writableBytes)
      writerIndex := sizeAdd b.writerIndex data.length }) :
    b'.WF ∧ b'.content = b.content ++ data ∧ b'.buffer.length = b.buffer.length := by
  have hr := h.reader_le
  have hw := h.writer_le
  have hs := h.size_le
  have hmax := maxSize_lt_sizeMod
  have hroom := hfit
  rw [h.writableBytes_eq] at hroom
  have hidx : sizeAdd b.writerIndex data.length = b.writerIndex + data.length :=
    sizeAdd_eq (by omega)
  have hall : data.take b.writableBytes = data := List.take_of_length_le hfit
  subst heq
  refine ⟨filled_wf h data (by omega) (by omega), ?_, ?_⟩
  · show slice _ b.readerIndex (sizeAdd b.writerIndex data.length) = _
    rw [hidx, hall, slice_overwrite hr hw]
    rfl
  · show (overwrite b.buffer b.writerIndex (data.take b.writableBytes)).length = _
    rw [hall]
    exact length_overwrite (by omega)

/-- A read that ends in `extrabuf`. -/
theorem spilled_ok (h : b.WF) (hspill : ¬ data.length ≤ b.writableBytes)
    (hrest : (data.drop b.writableBytes).length ≤ extrabufSize)
    (happ : append { b with
      buffer := overwrite b.buffer b.writerIndex (data.take b.writableBytes)
      writerIndex := b.buffer.length } (data.drop b.writableBytes) = .ok b') :
    b'.WF ∧ b'.content = b.content ++ data ∧
      b'.buffer.length ≤ max b.buffer.length (b.writerIndex + data.length) := by
  have hw := h.writer_le
  have hextra : extrabufSize ≤ maxSize := by decide
  have hlong : b.buffer.length = b.writerIndex + (data.take b.writableBytes).length := by
    rw [List.length_take, Nat.min_eq_left (by omega), h.writableBytes_eq]
    omega
  have hfull : Buffer.content { b with
      buffer := overwrite b.buffer b.writerIndex (data.take b.writableBytes)
      writerIndex := b.buffer.length } = b.content ++ data.take b.writableBytes := by
    show slice _ b.readerIndex b.buffer.length = _
    rw [hlong, slice_overwrite h.reader_le hw]
    rfl
  have hmid := filled_wf h data hw (Nat.le_refl _)
  obtain ⟨hwf, hcontent, hgrow, -⟩ := append_ok hmid (hmid.fits (hrest.trans hextra)) happ
  refine ⟨hwf, ?_, ?_⟩
  · rw [hcontent, hfull, List.append_assoc, List.take_append_drop]
  · have hover : (overwrite b.buffer b.writerIndex (data.take b.writableBytes)).length =
        b.buffer.length := length_overwrite (by omega)
    have hsplit : data.length =
        (data.take b.writableBytes).length + (data.drop b.writableBytes).length := by
      simp only [List.length_take, List.length_drop]
      omega
    simp only [hover] at hgrow
    omega

/-- `readFd` puts exactly what `readv` delivered behind the content, wherever the
delivered bytes end: inside the vector, at its end or in `extrabuf`. -/
theorem readFd_ok {r : ReadResult} {out : ReadFd} (h : b.WF) (hread : b.readFd r = .ok (b', out)) :
    b'.WF ∧ b'.content = b.content ++ out.data ∧
      b'.buffer.length ≤ max b.buffer.length (b.writerIndex + out.data.length) := by
  cases r with
  | fail err =>
      simp only [readFd, Except.ok.injEq, Prod.mk.injEq] at hread
      obtain ⟨rfl, rfl⟩ := hread
      exact ⟨h, (List.append_nil _).symm, Nat.le_max_left _ _⟩
  | deliver d =>
      obtain ⟨rfl, ⟨hfit, heq⟩ | ⟨hspill, happ⟩⟩ := readFd_deliver_eq hread
      · obtain ⟨hwf, hcontent, hlength⟩ := filled_ok h hfit heq
        exact ⟨hwf, hcontent, hlength.le.trans (Nat.le_max_left _ _)⟩
      · exact spilled_ok h hspill (spill_le hspill).2 happ

/-- `readFd` stops only in `vector::resize`, when what was read does not fit into any vector. -/
theorem readFd_error {r : ReadResult} {f : Fault} (h : b.WF) (hread : b.readFd r = .error f) :
    f = .lengthError ∧ ∃ d, r = .deliver d ∧
      maxSize < b.writerIndex + (d.take b.iovLength).length := by
  have hextra : extrabufSize ≤ maxSize := by decide
  cases r with
  | fail err => cases hread
  | deliver d =>
      simp only [readFd] at hread
      split at hread
      · cases hread
      · rename_i hspill
        simp only [bind_eq_error, reduceCtorEq, and_false, exists_false, or_false] at hread
        obtain ⟨hsmall, hrest⟩ := spill_le hspill
        set data := d.take b.iovLength with hdata
        have hmid := filled_wf h data h.writer_le (Nat.le_refl _)
        have hfits := hmid.fits (Nat.le_trans hrest hextra)
        have hf := append_error hmid hfits hread
        subst hf
        have hlong := append_lengthError hfits hread
        refine ⟨rfl, d, rfl, ?_⟩
        rw [← hdata]
        have hwrite := h.writableBytes_eq
        have hw := h.writer_le
        simp only [List.length_drop] at hlong
        omega

/-- The return value of `readFd`: the number of bytes delivered, or `-1`. -/
theorem readFd_result {r : ReadResult} {out : ReadFd} (hread : b.readFd r = .ok (b', out)) :
    (∃ err, r = .fail err ∧ out = ⟨-1, some err, []⟩) ∨
      (∃ d, r = .deliver d ∧ out.data = d.take b.iovLength) ∧ out.n = out.data.length := by
  cases r with
  | fail err =>
      simp only [readFd, Except.ok.injEq, Prod.mk.injEq] at hread
      exact Or.inl ⟨err, rfl, hread.2.symm⟩
  | deliver d =>
      obtain ⟨rfl, -⟩ := readFd_deliver_eq hread
      exact Or.inr ⟨⟨d, rfl, rfl⟩, rfl⟩

/-- The request is never empty. -/
theorem iovLength_pos (b : Buffer) : 0 < b.iovLength := by
  unfold iovLength extrabufSize
  split <;> omega

/-- The request is at least as long as `extrabuf`. -/
theorem extrabufSize_le_iovLength (b : Buffer) : extrabufSize ≤ b.iovLength := by
  unfold iovLength
  split <;> omega

/-- A return value of `0` means end of file. -/
theorem readFd_eof {r : ReadResult} {out : ReadFd} (hread : b.readFd r = .ok (b', out))
    (hn : out.n = 0) : r = .deliver [] := by
  rcases readFd_result hread with ⟨err, -, rfl⟩ | ⟨⟨d, rfl, hdata⟩, hlen⟩
  · cases hn
  · have hnil : d.take b.iovLength = [] := by
      rw [← hdata]
      exact List.eq_nil_of_length_eq_zero (by omega)
    rcases List.take_eq_nil_iff.mp hnil with hzero | rfl
    · exact absurd hzero (Nat.pos_iff_ne_zero.mp b.iovLength_pos)
    · rfl

/-- A read that delivers nothing moves no index. -/
theorem readFd_nothing {r : ReadResult} {out : ReadFd} (h : b.WF)
    (hread : b.readFd r = .ok (b', out)) (hn : out.n ≤ 0) :
    b'.readerIndex = b.readerIndex ∧ b'.writerIndex = b.writerIndex := by
  cases r with
  | fail err =>
      cases hread
      exact ⟨rfl, rfl⟩
  | deliver d =>
      have hd : d = [] := by
        rcases readFd_result hread with ⟨err, hfail, -⟩ | ⟨-, hlen⟩
        · cases hfail
        · cases readFd_eof hread (by omega)
          rfl
      subst hd
      have hsmall := maxSize_lt_sizeMod
      have hw := h.writer_le
      have hs := h.size_le
      simp only [readFd, List.take_nil, List.length_nil, Nat.zero_le, if_true] at hread
      cases hread
      exact ⟨rfl, sizeAdd_eq (by omega)⟩

/-- What `readv` may answer to the iovec array of `readFd`. -/
def Allows (b : Buffer) : ReadResult → Prop
  | .deliver d => d.length ≤ b.iovLength
  | .fail _ => True

theorem readFd_deliver {d : Bytes} (h : b.WF) (hd : d.length ≤ b.iovLength) :
    (∃ b', b.readFd (.deliver d) = .ok (b', ⟨d.length, none, d⟩) ∧ b'.WF ∧
      b'.content = b.content ++ d) ∨
    (b.readFd (.deliver d) = .error .lengthError ∧ maxSize < b.writerIndex + d.length) := by
  have hall : d.take b.iovLength = d := List.take_of_length_le hd
  cases hread : b.readFd (.deliver d) with
  | error f =>
      obtain ⟨rfl, d', hd', hlong⟩ := readFd_error h hread
      cases hd'
      rw [hall] at hlong
      exact Or.inr ⟨rfl, hlong⟩
  | ok res =>
      obtain ⟨b', out⟩ := res
      obtain ⟨hwf, hcontent, -⟩ := readFd_ok h hread
      have hout := (readFd_deliver_eq hread).1
      rw [hall] at hout
      subst hout
      exact Or.inl ⟨b', rfl, hwf, hcontent⟩

/-- `readFd` appends exactly what was read, for every answer of `readv`: the request is at
least 64 KiB long, a failed read changes nothing and hands out `errno`, a read of `n` bytes
puts these bytes behind the content and returns `n`, and `n = 0` is end of file. Where no
vector can hold the bytes, `vector::resize` throws. -/
theorem readFd_appends {r : ReadResult} (h : b.WF) (hr : b.Allows r) :
    65536 ≤ b.iovLength ∧
    (∀ err, r = .fail err → b.readFd r = .ok (b, ⟨-1, some err, []⟩)) ∧
    (∀ d, r = .deliver d →
      (∃ b', b.readFd r = .ok (b', ⟨d.length, none, d⟩) ∧ b'.WF ∧ b'.content = b.content ++ d) ∨
      (b.readFd r = .error .lengthError ∧ maxSize < b.writerIndex + d.length)) ∧
    (∀ b' out, b.readFd r = .ok (b', out) → (out.n = 0 ↔ r = .deliver [])) := by
  refine ⟨extrabufSize_le_iovLength b, ?_, ?_, ?_⟩
  · rintro err rfl
    rfl
  · rintro d rfl
    exact readFd_deliver h hr
  · intro b' out hread
    constructor
    · exact readFd_eof hread
    · rintro rfl
      rcases readFd_result hread with ⟨err, hfail, -⟩ | ⟨⟨d, hd, hdata⟩, hlen⟩
      · cases hfail
      · cases hd
        simp [hlen, hdata]

/-- Four bytes of room and a read of six: two of them spill over. -/
theorem readFd_appends_spill :
    (create 4).WF ∧ (create 4).Allows (.deliver [1, 2, 3, 4, 5, 6]) ∧
    ∃ b', (create 4).readFd (.deliver [1, 2, 3, 4, 5, 6]) =
      .ok (b', ⟨6, none, [1, 2, 3, 4, 5, 6]⟩) ∧ b'.WF ∧
      b'.content = (create 4).content ++ [1, 2, 3, 4, 5, 6] := by
  have hwf : (create 4).WF := create_wf (by decide)
  have hallows : (create 4).Allows (.deliver [1, 2, 3, 4, 5, 6]) :=
    Nat.le_trans (by decide) (extrabufSize_le_iovLength _)
  refine ⟨hwf, hallows, ?_⟩
  rcases (readFd_appends hwf hallows).2.2.1 _ rfl with hok | ⟨-, hlong⟩
  · exact hok
  · exact absurd hlong (by decide)

theorem readFd_data_le {r : ReadResult} {out : ReadFd} (hread : b.readFd r = .ok (b', out)) :
    out.data.length ≤ b.iovLength := by
  rcases readFd_result hread with ⟨err, -, rfl⟩ | ⟨⟨d, -, hd⟩, -⟩
  · exact Nat.zero_le _
  · rw [hd, List.length_take]
    exact Nat.min_le_left _ _

/-- Reading into an empty buffer whose vector has at most `kCheapPrepend + 131071`
bytes leaves the vector within that bound: the vector grows only when fewer than
65536 bytes were writable, and then to the bytes of one read. -/
theorem readFd_length_le {r : ReadResult} {out : ReadFd} (h : b.WF)
    (hempty : b.writerIndex = kCheapPrepend) (hbound : b.buffer.length ≤ kCheapPrepend + 131071)
    (hread : b.readFd r = .ok (b', out)) : b'.buffer.length ≤ kCheapPrepend + 131071 := by
  have hgrow := (readFd_ok h hread).2.2
  have hdata := readFd_data_le hread
  have hwrite := h.writableBytes_eq
  have hcheap := h.cheap_le
  have hextra : extrabufSize = 65536 := rfl
  rw [iovLength] at hdata
  split at hdata <;> omega

end WellFormed

end Buffer

end Reactor
