import Reactor.BufferSequence
import Reactor.Lib.Digits

/-!
# Integers in a buffer (`Buffer::peekIntN`, `Buffer::readIntN`, `Endian.h`)

The typed reads, and the typed reads and writes together: what is appended or prepended is
the big-endian two's complement of the value, and reading in the order of the writes gives
the values back.

* `hostBytes_hostToNetwork` - the byte swap and the host's byte order give the encoding.
* `TypedInt.append_ok`, `IntType.read_ok`, `TypedInt.prepend_ok` - one value.
* `int_codec_round_trip` - any list of values in any buffer.
-/

namespace Reactor

open Reactor.Lib

/-! ### The host's integers -/

/-- `be16toh`, `be32toh` and `be64toh`: the bytes are swapped. -/
def networkToHost (k : Nat) (x : BitVec (8 * k)) : BitVec (8 * k) :=
  ofHostBytes k (hostBytes k x).reverse

theorem two_pow_eight_mul (k : Nat) : 2 ^ (8 * k) = 256 ^ k := Nat.pow_mul 2 8 k

theorem hostBytes_eq (k : Nat) (x : BitVec (8 * k)) : hostBytes k x = leBytes k x.toNat := rfl

theorem ofHostBytes_hostBytes (k : Nat) (x : BitVec (8 * k)) :
    ofHostBytes k (hostBytes k x) = x := by
  have hlt : x.toNat < 256 ^ k := two_pow_eight_mul k ▸ x.isLt
  apply BitVec.eq_of_toNat_eq
  show (BitVec.ofNat (8 * k) (leValue (leBytes k x.toNat))).toNat = x.toNat
  rw [leValue_leBytes, BitVec.toNat_ofNat, Nat.mod_eq_of_lt hlt, Nat.mod_eq_of_lt x.isLt]

theorem hostBytes_ofHostBytes {k : Nat} {bytes : Bytes} (h : bytes.length = k) :
    hostBytes k (ofHostBytes k bytes) = bytes := by
  subst h
  have hvalue := leValue_leBytes bytes.length (leValue bytes)
  rw [leBytes_leValue] at hvalue
  show leBytes bytes.length (BitVec.ofNat (8 * bytes.length) (leValue bytes)).toNat = bytes
  rw [BitVec.toNat_ofNat, two_pow_eight_mul, ← hvalue, leBytes_leValue]

theorem hostBytes_hostToNetwork_reverse (k : Nat) (x : BitVec (8 * k)) :
    hostBytes k (hostToNetwork k x) = (hostBytes k x).reverse :=
  hostBytes_ofHostBytes (by simp)

/-- What `htobe` puts into memory is the two's complement of the signed value, most
significant byte first. -/
theorem hostBytes_hostToNetwork (k : Nat) (x : BitVec (8 * k)) :
    hostBytes k (hostToNetwork k x) = beBytes k x.toInt := by
  have hmod : x.toInt % 256 ^ k = (x.toNat : Int) := by
    have hpow : (256 : Int) ^ k = ((2 ^ (8 * k) : Nat) : Int) := by
      rw [two_pow_eight_mul]
      exact (Int.natCast_pow 256 k).symm
    rw [hpow, BitVec.toInt_eq_toNat_bmod, Int.bmod_emod]
    exact Int.emod_eq_of_lt (Int.natCast_nonneg _) (Int.ofNat_lt.mpr x.isLt)
  rw [hostBytes_hostToNetwork_reverse, hostBytes_eq, reverse_leBytes, ← hmod, beBytes_emod]

/-- The two conversions undo each other through memory. -/
theorem networkToHost_hostToNetwork (k : Nat) (x : BitVec (8 * k)) :
    networkToHost k (ofHostBytes k (hostBytes k (hostToNetwork k x))) = x := by
  rw [ofHostBytes_hostBytes, networkToHost, hostBytes_hostToNetwork_reverse,
    List.reverse_reverse, ofHostBytes_hostBytes]

/-- One byte has only one order. -/
theorem hostToNetwork_one (x : BitVec (8 * 1)) : hostToNetwork 1 x = x :=
  ofHostBytes_hostBytes 1 x

theorem networkToHost_one (x : BitVec (8 * 1)) : networkToHost 1 x = x :=
  ofHostBytes_hostBytes 1 x

namespace Buffer

/-! ### Typed reads -/

/-- `peekInt16`, `peekInt32` and `peekInt64`. -/
def peekInt (k : Nat) (b : Buffer) : Exec (BitVec (8 * k)) := do
  check (k ≤ b.readableBytes) (.peekInt_readable k)
  let be := ofHostBytes k (slice b.buffer b.readerIndex (b.readerIndex + k))
  .ok (networkToHost k be)

def peekInt64 : Buffer → Exec (BitVec 64) := peekInt 8

def peekInt32 : Buffer → Exec (BitVec 32) := peekInt 4

def peekInt16 : Buffer → Exec (BitVec 16) := peekInt 2

def peekInt8 (b : Buffer) : Exec (BitVec 8) := do
  check (1 ≤ b.readableBytes) (.peekInt_readable 1)
  .ok (ofHostBytes 1 (slice b.buffer b.readerIndex (b.readerIndex + 1)))

/-- `readInt16`, `readInt32` and `readInt64`. -/
def readInt (k : Nat) (b : Buffer) : Exec (BitVec (8 * k) × Buffer) := do
  let result ← b.peekInt k
  let b' ← b.retrieve k
  .ok (result, b')

def readInt64 : Buffer → Exec (BitVec 64 × Buffer) := readInt 8

def readInt32 : Buffer → Exec (BitVec 32 × Buffer) := readInt 4

def readInt16 : Buffer → Exec (BitVec 16 × Buffer) := readInt 2

def readInt8 (b : Buffer) : Exec (BitVec 8 × Buffer) := do
  let result ← b.peekInt8
  let b' ← b.retrieveInt8
  .ok (result, b')

end Buffer

/-! ### Typed integers -/

/-- `int8_t`, `int16_t`, `int32_t` and `int64_t`. -/
inductive IntType where
  | int8
  | int16
  | int32
  | int64
deriving DecidableEq, Repr

/-- `sizeof`. -/
def IntType.size : IntType → Nat
  | int8 => 1
  | int16 => 2
  | int32 => 4
  | int64 => 8

/-- A value of one of the types. -/
structure TypedInt where
  type : IntType
  bits : BitVec (8 * type.size)

namespace TypedInt

/-- The big-endian two's complement of the signed value. -/
def encode (v : TypedInt) : Bytes := beBytes v.type.size v.bits.toInt

/-- The call `appendIntN` of the type. -/
def append (b : Buffer) : TypedInt → Exec Buffer
  | ⟨.int8, x⟩ => b.appendInt8 x
  | ⟨.int16, x⟩ => b.appendInt16 x
  | ⟨.int32, x⟩ => b.appendInt32 x
  | ⟨.int64, x⟩ => b.appendInt64 x

/-- The call `prependIntN` of the type. -/
def prepend (b : Buffer) : TypedInt → Exec Buffer
  | ⟨.int8, x⟩ => b.prependInt8 x
  | ⟨.int16, x⟩ => b.prependInt16 x
  | ⟨.int32, x⟩ => b.prependInt32 x
  | ⟨.int64, x⟩ => b.prependInt64 x

end TypedInt

namespace IntType

/-- The call `peekIntN` of the type. -/
def peek (b : Buffer) : IntType → Exec TypedInt
  | int8 => b.peekInt8.map fun x => ⟨int8, x⟩
  | int16 => b.peekInt16.map fun x => ⟨int16, x⟩
  | int32 => b.peekInt32.map fun x => ⟨int32, x⟩
  | int64 => b.peekInt64.map fun x => ⟨int64, x⟩

/-- The call `readIntN` of the type. -/
def read (b : Buffer) : IntType → Exec (TypedInt × Buffer)
  | int8 => b.readInt8.map fun r => (⟨int8, r.1⟩, r.2)
  | int16 => b.readInt16.map fun r => (⟨int16, r.1⟩, r.2)
  | int32 => b.readInt32.map fun r => (⟨int32, r.1⟩, r.2)
  | int64 => b.readInt64.map fun r => (⟨int64, r.1⟩, r.2)

end IntType

/-- The values appended in order. -/
def appendInts (b : Buffer) : List TypedInt → Exec Buffer
  | [] => .ok b
  | v :: vs => do
      let b' ← v.append b
      appendInts b' vs

/-- The types read in order. -/
def readInts (b : Buffer) : List IntType → Exec (List TypedInt × Buffer)
  | [] => .ok ([], b)
  | t :: ts => do
      let (v, b') ← t.read b
      let (vs, rest) ← readInts b' ts
      .ok (v :: vs, rest)

/-! ### One value -/

section OneValue

variable {b : Buffer}

@[simp] theorem TypedInt.length_encode (v : TypedInt) : v.encode.length = v.type.size :=
  length_beBytes _ _

theorem TypedInt.append_eq (b : Buffer) (v : TypedInt) : v.append b = b.append v.encode := by
  rw [encode, ← hostBytes_hostToNetwork]
  obtain ⟨t, x⟩ := v
  cases t with
  | int8 => exact congrArg (fun y => b.append (hostBytes 1 y)) (hostToNetwork_one x).symm
  | int16 => rfl
  | int32 => rfl
  | int64 => rfl

theorem TypedInt.prepend_eq (b : Buffer) (v : TypedInt) : v.prepend b = b.prepend v.encode := by
  rw [encode, ← hostBytes_hostToNetwork]
  obtain ⟨t, x⟩ := v
  cases t with
  | int8 => exact congrArg (fun y => b.prepend (hostBytes 1 y)) (hostToNetwork_one x).symm
  | int16 => rfl
  | int32 => rfl
  | int64 => rfl

theorem Buffer.peekInt_of_le {k : Nat} (hread : k ≤ b.readableBytes) :
    b.peekInt k =
      .ok (networkToHost k (ofHostBytes k (slice b.buffer b.readerIndex (b.readerIndex + k)))) := by
  rw [peekInt, check_of hread]
  rfl

theorem Buffer.peekInt8_eq (b : Buffer) : b.peekInt8 = b.peekInt 1 := by
  by_cases hread : 1 ≤ b.readableBytes
  · rw [peekInt_of_le hread, networkToHost_one, peekInt8, check_of hread]
    rfl
  · simp only [peekInt8, peekInt, check, require, if_neg hread]
    rfl

theorem IntType.peek_eq (b : Buffer) (t : IntType) :
    t.peek b = (b.peekInt t.size).map fun x => ⟨t, x⟩ := by
  cases t with
  | int8 => exact congrArg (Except.map _) b.peekInt8_eq
  | int16 => rfl
  | int32 => rfl
  | int64 => rfl

/-- A typed read is the peek and then the retrieve. -/
theorem IntType.read_eq (b : Buffer) (t : IntType) :
    t.read b = (do
      let v ← t.peek b
      let b' ← b.retrieve t.size
      .ok (v, b')) := by
  have hmap {α β : Type} (x : Exec α) (f : α → β) :
      ((do let a ← x; let b' ← b.retrieve t.size; .ok (a, b')) : Exec (α × Buffer)).map
        (fun r => (f r.1, r.2)) = (do let v ← x.map f; let b' ← b.retrieve t.size; .ok (v, b')) := by
    cases x with
    | error e => rfl
    | ok a => cases b.retrieve t.size <;> rfl
  cases t <;> exact hmap _ _

/-- Peeking at the encoding of a value gives the value. -/
theorem IntType.peek_ok {v : TypedInt} {rest : Bytes} (h : b.WF)
    (hcontent : b.content = v.encode ++ rest) : v.type.peek b = .ok v := by
  have hread : v.type.size ≤ b.readableBytes := by
    rw [← h.length_content, hcontent, List.length_append, TypedInt.length_encode]
    exact Nat.le_add_right _ _
  have hslice : slice b.buffer b.readerIndex (b.readerIndex + v.type.size) = v.encode := by
    have hr := h.readableBytes_eq
    have hle := h.reader_le
    rw [← take_slice _ (show b.readerIndex + v.type.size ≤ b.writerIndex by omega)]
    show b.content.take v.type.size = _
    rw [hcontent, ← v.length_encode, List.take_left]
  rw [IntType.peek_eq, Buffer.peekInt_of_le hread, hslice, TypedInt.encode,
    ← hostBytes_hostToNetwork, networkToHost_hostToNetwork]
  rfl

/-- Reading the encoding of a value gives the value and takes it out of the buffer. -/
theorem IntType.read_ok {v : TypedInt} {rest : Bytes} (h : b.WF)
    (hcontent : b.content = v.encode ++ rest) :
    ∃ b', v.type.read b = .ok (v, b') ∧ b.retrieve v.type.size = .ok b' := by
  have hread : v.type.size ≤ b.readableBytes := by
    rw [← h.length_content, hcontent, List.length_append, TypedInt.length_encode]
    exact Nat.le_add_right _ _
  cases hret : b.retrieve v.type.size with
  | error f => exact absurd hret (Buffer.retrieve_ne_error hread)
  | ok b' =>
      refine ⟨b', ?_, rfl⟩
      rw [IntType.read_eq, IntType.peek_ok h hcontent, ok_bind, hret, ok_bind]

/-- A peek returns what a read does, and fails where a read fails. -/
theorem IntType.peek_eq_read (b : Buffer) (t : IntType) :
    t.peek b = (t.read b).map Prod.fst := by
  have hpeek := IntType.peek_eq b t
  rw [IntType.read_eq]
  by_cases hread : t.size ≤ b.readableBytes
  · rw [Buffer.peekInt_of_le hread] at hpeek
    cases hret : b.retrieve t.size with
    | error f => exact absurd hret (Buffer.retrieve_ne_error hread)
    | ok b' =>
        rw [hpeek]
        rfl
  · rw [Buffer.peekInt, check, require, if_neg hread] at hpeek
    rw [hpeek]
    rfl

/-- A value put in front is read back, and what was there before is there again. -/
theorem TypedInt.prepend_read {v : TypedInt} (h : b.WF) (hroom : v.type.size ≤ b.prependableBytes) :
    ∃ b₁ b₂, v.prepend b = .ok b₁ ∧ b₁.content = v.encode ++ b.content ∧
      v.type.read b₁ = .ok (v, b₂) ∧ b₂.WF ∧ b₂.content = b.content := by
  have href : Refines b ⟨b.content, true⟩ := ⟨h, rfl, nofun⟩
  obtain ⟨b₁, hpre, href₁⟩ := href.prepend (v.length_encode ▸ hroom)
  have hcontent : b₁.content = v.encode ++ b.content := href₁.content
  obtain ⟨b₂, hread, hret⟩ := IntType.read_ok href₁.wf hcontent
  obtain ⟨hwf, hdrop⟩ := Buffer.retrieve_ok href₁.wf hret
  refine ⟨b₁, b₂, (v.prepend_eq b).trans hpre, hcontent, hread, hwf, ?_⟩
  rw [hdrop, hcontent, ← v.length_encode, List.drop_left]

end OneValue

/-! ### Lists of values -/

section Lists

variable {b : Buffer}

/-- The encodings of the values, one after the other. -/
def encodeInts (vs : List TypedInt) : Bytes := vs.flatMap TypedInt.encode

@[simp] theorem encodeInts_nil : encodeInts [] = [] := rfl

@[simp] theorem encodeInts_cons (v : TypedInt) (vs : List TypedInt) :
    encodeInts (v :: vs) = v.encode ++ encodeInts vs := rfl

theorem TypedInt.fits (h : b.WF) (v : TypedInt) : b.Fits v.encode.length := by
  apply h.fits
  rw [v.length_encode]
  cases v.type <;> decide

theorem appendInts_ok {b' : Buffer} {vs : List TypedInt} (h : b.WF)
    (happ : appendInts b vs = .ok b') : b'.WF ∧ b'.content = b.content ++ encodeInts vs := by
  induction vs generalizing b with
  | nil =>
      cases happ
      exact ⟨h, (List.append_nil _).symm⟩
  | cons v vs ih =>
      simp only [appendInts, bind_eq_ok, v.append_eq] at happ
      obtain ⟨b₁, hone, hrest⟩ := happ
      obtain ⟨hwf, hcontent, -⟩ := Buffer.append_ok h (v.fits h) hone
      obtain ⟨hwf', hall⟩ := ih hwf hrest
      refine ⟨hwf', ?_⟩
      rw [hall, hcontent, encodeInts_cons, List.append_assoc]

/-- Appending a list of values stops only in `vector::resize`, when no vector can hold the
values behind what is there. -/
theorem appendInts_error {f : Fault} {vs : List TypedInt} (h : b.WF)
    (happ : appendInts b vs = .error f) :
    f = .lengthError ∧ maxSize < b.writerIndex + (encodeInts vs).length := by
  induction vs generalizing b with
  | nil => cases happ
  | cons v vs ih =>
      simp only [appendInts, bind_eq_error, v.append_eq] at happ
      rw [encodeInts_cons, List.length_append]
      rcases happ with hone | ⟨b₁, hone, hrest⟩
      · have hf := Buffer.append_error h (v.fits h) hone
        subst hf
        have hlong := Buffer.append_lengthError (v.fits h) hone
        exact ⟨rfl, by omega⟩
      · obtain ⟨hwf, -⟩ := Buffer.append_ok h (v.fits h) hone
        have hmoved := Buffer.append_writerIndex_le h (v.fits h) hone
        obtain ⟨hf, hlong⟩ := ih hwf hrest
        exact ⟨hf, by omega⟩

/-- Reading a buffer that holds exactly the encodings of a list of values empties it. -/
theorem readInts_ok {vs : List TypedInt} (h : b.WF) (hcontent : b.content = encodeInts vs)
    (hnil : vs = [] → b = b.retrieveAll) :
    ∃ e, readInts b (vs.map TypedInt.type) = .ok (vs, e) ∧ e = e.retrieveAll := by
  induction vs generalizing b with
  | nil => exact ⟨b, rfl, hnil rfl⟩
  | cons v vs ih =>
      rw [encodeInts_cons] at hcontent
      obtain ⟨b₁, hread, hret⟩ := IntType.read_ok h hcontent
      obtain ⟨hwf, hdrop⟩ := Buffer.retrieve_ok h hret
      rw [hcontent, ← v.length_encode, List.drop_left] at hdrop
      -- the last value takes everything, and the indices go back
      have hlast : vs = [] → b₁ = b₁.retrieveAll := by
        rintro rfl
        have hall : b.readableBytes = v.type.size := by
          rw [← h.length_content, hcontent, encodeInts_nil, List.append_nil, v.length_encode]
        simp only [Buffer.retrieve, hall, Nat.lt_irrefl, if_false, bind_eq_ok, Except.ok.injEq] at hret
        obtain ⟨-, -, rfl⟩ := hret
        rfl
      obtain ⟨e, hrest, he⟩ := ih hwf hdrop hlast
      refine ⟨e, ?_, he⟩
      simp only [List.map_cons, readInts, hread, ok_bind, hrest]

/-- **Integers survive the buffer.** Any list of values appended to any buffer comes behind
its content in big-endian two's complement, and once that content is retrieved the reads of
the same types return the values and leave the buffer cleared; only a vector above `max_size`
stops the appends. A value that is prepended is read back and leaves the content as it was.
A peek, which returns no buffer, returns what the read does. -/
theorem int_codec_round_trip (h : b.WF) (vs : List TypedInt) :
    ((∃ b', appendInts b vs = .ok b' ∧ b'.WF ∧ b'.content = b.content ++ encodeInts vs ∧
        ∃ b₁ e, b'.retrieve b.content.length = .ok b₁ ∧
          readInts b₁ (vs.map TypedInt.type) = .ok (vs, e) ∧ e.content = [] ∧
          e.readerIndex = kCheapPrepend ∧ e.writerIndex = kCheapPrepend) ∨
      (appendInts b vs = .error .lengthError ∧
        maxSize < b.writerIndex + (encodeInts vs).length)) ∧
    (∀ v : TypedInt, v.type.size ≤ b.prependableBytes →
      ∃ b₁ b₂, v.prepend b = .ok b₁ ∧ b₁.content = v.encode ++ b.content ∧
        v.type.read b₁ = .ok (v, b₂) ∧ b₂.WF ∧ b₂.content = b.content) ∧
    (∀ t : IntType, t.peek b = (t.read b).map Prod.fst) := by
  refine ⟨?_, fun v hroom => TypedInt.prepend_read h hroom, fun t => IntType.peek_eq_read b t⟩
  cases happ : appendInts b vs with
  | error f =>
      obtain ⟨rfl, hlong⟩ := appendInts_error h happ
      exact Or.inr ⟨rfl, hlong⟩
  | ok b' =>
      obtain ⟨hwf, hcontent⟩ := appendInts_ok h happ
      have hlen : b'.readableBytes = b.content.length + (encodeInts vs).length := by
        rw [← hwf.length_content, hcontent, List.length_append]
      cases hret : b'.retrieve b.content.length with
      | error f => exact absurd hret (Buffer.retrieve_ne_error (by omega))
      | ok b₁ =>
          obtain ⟨hwf₁, hdrop⟩ := Buffer.retrieve_ok hwf hret
          rw [hcontent, List.drop_left] at hdrop
          have hnil : vs = [] → b₁ = b₁.retrieveAll := by
            rintro rfl
            simp only [Buffer.retrieve, hlen, encodeInts_nil, List.length_nil, Nat.add_zero,
              Nat.lt_irrefl, if_false, bind_eq_ok, Except.ok.injEq] at hret
            obtain ⟨-, -, rfl⟩ := hret
            rfl
          obtain ⟨e, hread, he⟩ := readInts_ok hwf₁ hdrop hnil
          refine Or.inl ⟨b', rfl, hwf, hcontent, b₁, e, hret, hread, ?_, ?_, ?_⟩
          · rw [he, Buffer.retrieveAll_content]
          · rw [he]
            rfl
          · rw [he]
            rfl

/-- One value of each type, appended to a buffer that has to grow for them. -/
theorem int_codec_round_trip_mixed :
    (Buffer.create 4).WF ∧
    ∃ b', appendInts (.create 4) [⟨.int32, -2⟩, ⟨.int8, 7⟩, ⟨.int64, 300⟩, ⟨.int16, -1⟩] = .ok b' ∧
      b'.content = (Buffer.create 4).content ++
        [255, 255, 255, 254, 7, 0, 0, 0, 0, 0, 0, 1, 44, 255, 255] := by
  have hwf : (Buffer.create 4).WF := Buffer.create_wf (by decide)
  refine ⟨hwf, ?_⟩
  rcases (int_codec_round_trip hwf
    [⟨.int32, -2⟩, ⟨.int8, 7⟩, ⟨.int64, 300⟩, ⟨.int16, -1⟩]).1 with ⟨b', happ, -, hcontent, -⟩ | ⟨-, hlong⟩
  · exact ⟨b', happ, hcontent.trans (by decide)⟩
  · exact absurd hlong (by decide)

end Lists

end Reactor
