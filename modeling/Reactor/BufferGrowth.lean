import Reactor.Buffer

/-!
# Room for more bytes (`Buffer::ensureWritableBytes`, `Buffer::makeSpace`)

The three sums of a request for room are sums of `size_t`. Here the request is taken with
any length, and with the buffer it leaves behind when it does not return.

* `Buffer.makeSpaceAt`, `ensureWritableBytesAt` - the two functions as statements on the
  buffer: what they raise, and the buffer at that point.
* `GrowsSafely` - room without wraparound and the content kept, or `vector::resize` refuses.
* `growth_safe_iff` - that is so exactly when none of the sums wraps around.
-/

namespace Reactor

open Reactor.Lib

namespace Buffer

/-- `makeSpace`, with the buffer it leaves when it does not return. -/
def makeSpaceAt (b : Buffer) (len : Nat) : Except Fault Unit × Buffer :=
  if sizeAdd b.writableBytes b.prependableBytes < sizeAdd len kCheapPrepend then
    let size := sizeAdd b.writerIndex len
    if size ≤ maxSize then (.ok (), { b with buffer := resize b.buffer size 0 })
    else (.error .lengthError, b)
  else if kCheapPrepend < b.readerIndex then
    let moved : Buffer :=
      { buffer := overwrite b.buffer kCheapPrepend b.content
        readerIndex := kCheapPrepend
        writerIndex := sizeAdd kCheapPrepend b.readableBytes }
    if b.readableBytes = moved.readableBytes then (.ok (), moved)
    else (.error (.assertion .makeSpace_readable), moved)
  else (.error (.assertion .makeSpace_reader), b)

/-- `ensureWritableBytes`, with the buffer it leaves when it does not return. -/
def ensureWritableBytesAt (b : Buffer) (len : Nat) : Except Fault Unit × Buffer :=
  match if b.writableBytes < len then b.makeSpaceAt len else (.ok (), b) with
  | (.error f, b') => (.error f, b')
  | (.ok (), b') =>
      if len ≤ b'.writableBytes then (.ok (), b')
      else (.error (.assertion .ensureWritableBytes_writable), b')

/-- The outcome `p` of a call that returns or raises what `r` does. -/
def Leaves (r : Exec Buffer) (p : Except Fault Unit × Buffer) : Prop :=
  match r with
  | .ok b' => p = (.ok (), b')
  | .error f => p.1 = .error f

section Growth

variable {b : Buffer} {len : Nat}

theorem Leaves.eq_ok {r : Exec Buffer} {b' : Buffer} (h : Leaves r (.ok (), b')) : r = .ok b' := by
  cases r with
  | error f => cases h
  | ok b₁ =>
      cases h
      rfl

theorem Leaves.eq_error {r : Exec Buffer} {f : Fault} {b' : Buffer}
    (h : Leaves r (.error f, b')) : r = .error f := by
  cases r with
  | error f' =>
      cases h
      rfl
  | ok b₁ => cases h

theorem makeSpaceAt_leaves (b : Buffer) (len : Nat) :
    Leaves (b.makeSpace len) (b.makeSpaceAt len) := by
  unfold makeSpace makeSpaceAt
  split
  · dsimp only
    split <;> rfl
  · by_cases hreader : kCheapPrepend < b.readerIndex
    · rw [if_pos hreader, check_of hreader, ok_bind]
      dsimp only
      split
      · rename_i hsame
        rw [check_of hsame]
        rfl
      · rename_i hnot
        simp [Leaves, check, require, hnot, bind, Except.bind]
    · simp [Leaves, check, require, hreader, bind, Except.bind]

theorem ensureWritableBytesAt_leaves (b : Buffer) (len : Nat) :
    Leaves (b.ensureWritableBytes len) (b.ensureWritableBytesAt len) := by
  have hroom (b' : Buffer) : Leaves
      (check (len ≤ b'.writableBytes) .ensureWritableBytes_writable >>= fun _ => .ok b')
      (if len ≤ b'.writableBytes then (.ok (), b')
        else (.error (.assertion .ensureWritableBytes_writable), b')) := by
    by_cases hle : len ≤ b'.writableBytes
    · rw [if_pos hle, check_of hle]
      rfl
    · simp [Leaves, check, require, hle, bind, Except.bind]
  have hspace := makeSpaceAt_leaves b len
  unfold ensureWritableBytes ensureWritableBytesAt
  split
  · cases hms : b.makeSpace len with
    | error f =>
        rw [hms] at hspace
        cases hat : b.makeSpaceAt len with
        | mk r b' =>
            rw [hat] at hspace
            cases hspace
            rfl
    | ok b' =>
        rw [hms] at hspace
        rw [show b.makeSpaceAt len = (.ok (), b') from hspace]
        exact hroom b'
  · exact hroom b

/-- A refused request leaves the buffer as it was. -/
theorem ensureWritableBytesAt_refused {b' : Buffer}
    (hens : b.ensureWritableBytesAt len = (.error .lengthError, b')) : b' = b := by
  unfold ensureWritableBytesAt at hens
  split at hens
  · rename_i f b₁ hspace
    cases hens
    split at hspace
    · unfold makeSpaceAt at hspace
      dsimp only at hspace
      repeat' split at hspace
      all_goals cases hspace
      rfl
    · cases hspace
  · split at hens <;> cases hens

/-- Whatever the request, the vector that comes out of it is one. -/
theorem ensureWritableBytes_length_le {b' : Buffer} (h : b.WF)
    (hens : b.ensureWritableBytes len = .ok b') : b'.buffer.length ≤ maxSize := by
  simp only [ensureWritableBytes, bind_eq_ok, check_eq_ok, Except.ok.injEq,
    exists_and_left] at hens
  obtain ⟨b₁, hspace, -, -, rfl⟩ := hens
  split at hspace
  · unfold makeSpace at hspace
    split at hspace
    · dsimp only at hspace
      split at hspace
      · rename_i hsize
        cases hspace
        rw [length_resize]
        exact hsize
      · cases hspace
    · simp only [bind_eq_ok, check_eq_ok, Except.ok.injEq, exists_and_left] at hspace
      obtain ⟨hreader, -, -, -, rfl⟩ := hspace
      have hread := h.readableBytes_eq
      have hcontent := h.length_content
      have hw := h.writer_le
      have hr := h.reader_le
      rw [length_overwrite (by omega)]
      exact h.size_le
  · cases hspace
    exact h.size_le

/-- `vector::resize` refuses only requests whose sums are true sums: a sum that wraps around
is less than the length the vector has. -/
theorem fits_of_lengthError (h : b.WF) (hlen : len < sizeMod)
    (hens : b.ensureWritableBytes len = .error .lengthError) : b.Fits len := by
  have hw := h.writer_le
  have hs := h.size_le
  have hc := h.cheap_le
  have hwrite := h.writableBytes_eq
  have hr := h.reader_le
  have hmax : 2 * maxSize + 1 < sizeMod := by decide
  have hroom : sizeAdd b.writableBytes b.prependableBytes = b.writableBytes + b.readerIndex :=
    sizeAdd_eq (by show _ + b.readerIndex < _; omega)
  have hbig : b.makeSpace len = .error .lengthError := by
    simp only [ensureWritableBytes, bind_eq_error, check_eq_error, reduceCtorEq, and_false,
      exists_false, or_false] at hens
    split at hens
    · exact hens
    · cases hens
  simp only [makeSpace, hroom] at hbig
  split at hbig
  · rename_i hgrow
    split at hbig
    · cases hbig
    · rename_i hrefused
      have hsize : b.writerIndex + len < sizeMod := by
        by_contra hwrap
        apply hrefused
        rw [sizeAdd, Nat.mod_eq_sub_mod (by omega), Nat.mod_eq_of_lt (by omega)]
        omega
      refine ⟨?_, hsize⟩
      by_contra hwrap
      have hcheap : kCheapPrepend < sizeMod := by decide
      rw [sizeAdd, Nat.mod_eq_sub_mod (by omega), Nat.mod_eq_of_lt (by omega)] at hgrow
      omega
  · simp [bind_eq_error] at hbig

/-- The call returns with room for `len` bytes behind the content, as true integers, the
content unchanged and the indices in order; or `vector::resize` throws, for a request above
`max_size`, and the buffer is as it was. -/
def GrowsSafely (b : Buffer) (len : Nat) : Prop :=
  (∃ b', b.ensureWritableBytesAt len = (.ok (), b') ∧
    b'.writerIndex + len ≤ b'.buffer.length ∧ b'.content = b.content ∧
    b'.readerIndex ≤ b'.writerIndex ∧ b'.writerIndex ≤ b'.buffer.length) ∨
  (b.ensureWritableBytesAt len = (.error .lengthError, b) ∧ maxSize < b.writerIndex + len)

theorem Fits.growsSafely (h : b.WF) (hfits : b.Fits len) : b.GrowsSafely len := by
  have hleaves := ensureWritableBytesAt_leaves b len
  cases hens : b.ensureWritableBytes len with
  | ok b' =>
      rw [hens] at hleaves
      obtain ⟨hwf, hcontent, hroom, -, -⟩ := ensureWritableBytes_ok h hfits hens
      rw [hwf.writableBytes_eq] at hroom
      have hw := hwf.writer_le
      exact Or.inl ⟨b', hleaves, by omega, hcontent, hwf.reader_le, hw⟩
  | error f =>
      have hf := ensureWritableBytes_error h hfits hens
      subst hf
      rw [hens] at hleaves
      have hat : b.ensureWritableBytesAt len =
          (.error .lengthError, (b.ensureWritableBytesAt len).2) := Prod.ext hleaves rfl
      have hsame := ensureWritableBytesAt_refused hat
      rw [hsame] at hat
      exact Or.inr ⟨hat, ensureWritableBytes_lengthError hfits hens⟩

/-- A request for room grows the buffer safely exactly when none of the sums it computes
wraps around. -/
theorem growth_safe_iff (h : b.WF) (hlen : len < sizeMod) :
    b.GrowsSafely len ↔ len + kCheapPrepend < sizeMod ∧ b.writerIndex + len < sizeMod := by
  have hleaves := ensureWritableBytesAt_leaves b len
  constructor
  · rintro (⟨b', hat, hroom, -⟩ | ⟨hat, -⟩)
    · -- the vector of the result bounds the request
      rw [hat] at hleaves
      have hsize := ensureWritableBytes_length_le h hleaves.eq_ok
      have hfits : b.Fits len := h.fits (by omega)
      exact ⟨hfits.room, hfits.size⟩
    · rw [hat] at hleaves
      have hfits := fits_of_lengthError h hlen hleaves.eq_error
      exact ⟨hfits.room, hfits.size⟩
  · rintro ⟨hroom, hsize⟩
    exact Fits.growsSafely h ⟨hroom, hsize⟩

end Growth

/-- A buffer that `Buffer(8)` and eight appended bytes give, and a request as long as the
`size_t` of the `int` `-9`: the vector shrinks to seven bytes, below the write index, and the
assertion passes. -/
theorem growth_wraps_around :
    let b : Buffer := ⟨List.replicate 16 0, 8, 16⟩
    b.WF ∧ sizeOfInt (-9) < sizeMod ∧
    b.ensureWritableBytesAt (sizeOfInt (-9)) = (.ok (), ⟨List.replicate 7 0, 8, 16⟩) ∧
    ¬ b.GrowsSafely (sizeOfInt (-9)) := by
  have hat : ensureWritableBytesAt ⟨List.replicate 16 0, 8, 16⟩ (sizeOfInt (-9)) =
      (.ok (), ⟨List.replicate 7 0, 8, 16⟩) := by decide +kernel
  refine ⟨⟨by decide, by decide, by decide, by decide⟩, by decide, hat, ?_⟩
  rintro (⟨b', hb', -, -, -, hw⟩ | ⟨hb', -⟩)
  · rw [hat] at hb'
    cases hb'
    exact absurd hw (by decide)
  · rw [hat] at hb'
    cases hb'

/-- A request that the vector has to grow for. -/
theorem growth_safe_default : (create kInitialSize).GrowsSafely 4096 :=
  (growth_safe_iff (create_wf (by decide)) (by decide)).mpr ⟨by decide, by decide⟩

end Buffer

end Reactor
