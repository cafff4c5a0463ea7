import Reactor.Basic

/-!
# Formatting a log line (`LogStream.h`, `LogStream.cc`)

`operator<<` writes into a `FixedBuffer` of 4000 characters. A number is converted in place, from
the last digit to the first, with the remainder of C++'s `%` as an index into a table that is
symmetric around zero; a `double` is left to `snprintf`, of which only the size of its text is
known; everything else is copied. What does not fit is left out.

* `convert_eq`, `convertHex_eq` - the decimal text of every integer, the hexadecimal one of every
  pointer.
* `logStream_inserts` - no sequence of insertions leaves the buffer, and what it holds is the text
  of those that fitted, each whole.
-/

namespace Reactor

open Reactor.Lib

/-- The bytes of a C string literal. -/
def ascii (text : List Char) : Bytes := text.map fun c => UInt8.ofNat c.toNat

/-! ### Conversion of integers -/

/-- `const char digits[]`. -/
def digits : Bytes := ascii "9876543210123456789".toList

/-- `zero[lsd]`, where `zero = digits + 9`. -/
def zero (lsd : Int) : UInt8 := digits.getD (9 + lsd).toNat 0

def digitsHex : Bytes := ascii "0123456789ABCDEF".toList

theorem natAbs_tdiv_lt {i : Int} (h : i.tdiv 10 ≠ 0) : (i.tdiv 10).natAbs < i.natAbs := by
  have hdiv : (i.tdiv 10).natAbs = i.natAbs / 10 := Int.natAbs_tdiv i 10
  have hpos : (i.tdiv 10).natAbs ≠ 0 := Int.natAbs_ne_zero.mpr h
  omega

/-- The `do` loop of `convert`: the digits as they are written. -/
def convertLoop (i : Int) : Bytes :=
  zero (i.tmod 10) :: if _h : i.tdiv 10 = 0 then [] else convertLoop (i.tdiv 10)
termination_by i.natAbs
decreasing_by exact natAbs_tdiv_lt _h

/-- `convert`, without the terminator it writes behind the text. -/
def convert (value : Int) : Bytes :=
  (convertLoop value ++ if value < 0 then ascii ['-'] else []).reverse

/-- The `do` loop of `convertHex`. -/
def convertHexLoop (i : Nat) : Bytes :=
  digitsHex.getD (i % 16) 0 :: if _h : i / 16 = 0 then [] else convertHexLoop (i / 16)
termination_by i
decreasing_by omega

/-- `convertHex`, without the terminator. -/
def convertHex (value : Nat) : Bytes := (convertHexLoop value).reverse

/-- The table gives the same digit for a remainder and its negative. -/
theorem zero_eq {lsd : Int} (h : lsd.natAbs < 10) :
    zero lsd = UInt8.ofNat (Nat.digitChar lsd.natAbs).toNat := by
  obtain ⟨n, rfl | rfl⟩ := lsd.eq_nat_or_neg
  · simp only [Int.natAbs_natCast] at h ⊢
    interval_cases n <;> rfl
  · simp only [Int.natAbs_neg, Int.natAbs_natCast] at h ⊢
    interval_cases n <;> rfl

theorem convertLoop_eq (i : Int) :
    (convertLoop i).reverse = ascii (Nat.toDigits 10 i.natAbs) := by
  induction i using convertLoop.induct with
  | case1 i ih =>
      have hmod : (i.tmod 10).natAbs = i.natAbs % 10 := Int.natAbs_tmod i 10
      have hdiv : (i.tdiv 10).natAbs = i.natAbs / 10 := Int.natAbs_tdiv i 10
      have hlast := @zero_eq (i.tmod 10) (by omega)
      rw [convertLoop]
      split
      · rename_i hdone
        have hsmall : i.natAbs < 10 := by
          rw [hdone, Int.natAbs_zero] at hdiv
          omega
        rw [Nat.toDigits_of_lt_base hsmall, hlast, hmod, Nat.mod_eq_of_lt hsmall]
        rfl
      · rename_i hmore
        have hlarge : 10 ≤ i.natAbs := by
          have hpos : (i.tdiv 10).natAbs ≠ 0 := Int.natAbs_ne_zero.mpr hmore
          omega
        rw [List.reverse_cons, ih hmore, Nat.toDigits_of_base_le (by decide) hlarge, hdiv, hlast,
          hmod]
        simp [ascii]

/-- **Decimal.** The text of every integer, whatever its sign and size. -/
theorem convert_eq (value : Int) :
    convert value = (if value < 0 then ascii ['-'] else []) ++
      ascii (Nat.toDigits 10 value.natAbs) := by
  rw [convert, List.reverse_append, convertLoop_eq]
  split <;> rfl

theorem digitsHex_eq {n : Nat} (h : n < 16) :
    digitsHex.getD n 0 = UInt8.ofNat (Nat.digitChar n).toUpper.toNat := by
  interval_cases n <;> rfl

/-- **Hexadecimal.** The text of every pointer, in capital letters. -/
theorem convertHex_eq (value : Nat) :
    convertHex value = ascii ((Nat.toDigits 16 value).map Char.toUpper) := by
  unfold convertHex
  induction value using convertHexLoop.induct with
  | case1 i ih =>
      have hlast := digitsHex_eq (Nat.mod_lt i (by decide : 0 < 16))
      rw [convertHexLoop]
      split
      · have hsmall : i < 16 := by omega
        rw [Nat.toDigits_of_lt_base hsmall, hlast, Nat.mod_eq_of_lt hsmall]
        rfl
      · rename_i hmore
        have hsplit : Nat.toDigits 16 i = Nat.toDigits 16 (i / 16) ++ [Nat.digitChar (i % 16)] :=
          Nat.toDigits_of_base_le (by decide) (by omega)
        rw [List.reverse_cons, ih hmore, hsplit, hlast]
        simp [ascii]

@[simp] theorem length_ascii (text : List Char) : (ascii text).length = text.length := by
  simp [ascii]

/-- The longest number has a sign and 19 digits, or 20 digits. -/
theorem length_convert {value : Int} (hlow : -2 ^ 63 ≤ value) (hhigh : value < 2 ^ 64) :
    (convert value).length ≤ 20 := by
  rw [convert_eq, List.length_append, length_ascii]
  split
  · have habs : value.natAbs < 10 ^ 19 := by
      have hle : value.natAbs ≤ 2 ^ 63 := by omega
      omega
    have hdigits := (Nat.length_toDigits_le_iff (b := 10) (k := 19) (by decide) (by decide)).mpr habs
    simp only [length_ascii, List.length_singleton]
    omega
  · have habs : value.natAbs < 10 ^ 20 := by omega
    have hdigits := (Nat.length_toDigits_le_iff (b := 10) (k := 20) (by decide) (by decide)).mpr habs
    simpa using hdigits

theorem length_convertHex {value : Nat} (h : value < 2 ^ 64) : (convertHex value).length ≤ 16 := by
  have hdigits := (Nat.length_toDigits_le_iff (b := 16) (n := value) (k := 16) (by decide)
    (by decide)).mpr (by simpa using h)
  simpa [convertHex_eq] using hdigits

/-! ### The buffer -/

/-- `kSmallBuffer` and `kLargeBuffer`. -/
def kSmallBuffer : Nat := 4000

def kLargeBuffer : Nat := 4000 * 1000

/-- A buffer of `SIZE` characters: what is between `data_` and `cur_`. There is room for a
terminator behind it. -/
structure FixedBuffer (SIZE : Nat) where
  data : Bytes
  fits : data.length < SIZE
deriving DecidableEq, Repr

namespace FixedBuffer

variable {SIZE : Nat}

/-- The constructor, and `reset`. -/
def empty (h : 0 < SIZE) : FixedBuffer SIZE := { data := [], fits := h }

def length (b : FixedBuffer SIZE) : Nat := b.data.length

def avail (b : FixedBuffer SIZE) : Nat := SIZE - b.data.length

/-- `append` copies all or nothing. -/
def append (b : FixedBuffer SIZE) (buf : Bytes) : FixedBuffer SIZE :=
  if h : buf.length < b.avail then
    { data := b.data ++ buf, fits := by rw [List.length_append]; unfold avail at h; omega }
  else b

/-- Writes `text` and a terminator at `current()` and adds its length. -/
def write (b : FixedBuffer SIZE) (text : Bytes) : Exec (FixedBuffer SIZE) :=
  if h : (b.data ++ text).length < SIZE then .ok { data := b.data ++ text, fits := h }
  else .error .badAccess

@[ext] theorem ext {b b' : FixedBuffer SIZE} (h : b.data = b'.data) : b = b' := by
  cases b
  cases b'
  cases h
  rfl

theorem data_append (b : FixedBuffer SIZE) (buf : Bytes) :
    (b.append buf).data = if buf.length < b.avail then b.data ++ buf else b.data := by
  unfold append
  split <;> rfl

theorem write_eq {b : FixedBuffer SIZE} {text : Bytes} (h : text.length < b.avail) :
    b.write text = .ok (b.append text) := by
  have hfits : (b.data ++ text).length < SIZE := by
    rw [List.length_append]
    unfold avail at h
    omega
  rw [write, dif_pos hfits, append, dif_pos h]

end FixedBuffer

/-! ### The stream -/

/-- `kMaxNumericSize`. -/
def kMaxNumericSize : Nat := 32

/-- A `Fmt`: the text `snprintf` left in `buf_`, which the constructor asserts to be shorter. -/
structure Fmt where
  buf_ : Bytes
  fits : buf_.length < 32
deriving DecidableEq, Repr

/-- The arguments of the overloads of `operator<<`, by what the overload does with them. -/
inductive Insert where
  | bool (v : Bool)
  | char (v : UInt8)
  /-- the integer types, the short ones promoted -/
  | integer (v : Int)
  | pointer (v : Nat)
  /-- a `double` by its bits; a `float` is promoted -/
  | double (v : BitVec 64)
  /-- `const char*`, which may be null -/
  | cstring (str : Option Bytes)
  /-- `std::string`, `StringPiece` and another stream's buffer -/
  | text (v : Bytes)
  | fmt (v : Fmt)
deriving DecidableEq, Repr

/-- The text of a `double` under `"%.12g"`. -/
abbrev Snprintf := BitVec 64 → Bytes

namespace LogStream

/-- `formatInteger`. -/
def formatInteger (v : Int) (b : FixedBuffer kSmallBuffer) : Exec (FixedBuffer kSmallBuffer) :=
  if kMaxNumericSize ≤ b.avail then b.write (convert v) else .ok b

def formatPointer (v : Nat) (b : FixedBuffer kSmallBuffer) : Exec (FixedBuffer kSmallBuffer) :=
  if kMaxNumericSize ≤ b.avail then b.write (ascii ['0', 'x'] ++ convertHex v) else .ok b

/-- `operator<<(double)`; `add` is given the length of the text, of which `snprintf` has written no
more than `kMaxNumericSize` with the terminator. -/
def formatDouble (snprintf : Snprintf) (v : BitVec 64) (b : FixedBuffer kSmallBuffer) :
    Exec (FixedBuffer kSmallBuffer) :=
  if kMaxNumericSize ≤ b.avail then b.write (snprintf v) else .ok b

/-- `operator<<`. -/
def insert (snprintf : Snprintf) (b : FixedBuffer kSmallBuffer) :
    Insert → Exec (FixedBuffer kSmallBuffer)
  | .bool v => .ok (b.append (ascii [if v then '1' else '0']))
  | .char v => .ok (b.append [v])
  | .integer v => formatInteger v b
  | .pointer v => formatPointer v b
  | .double v => formatDouble snprintf v b
  | .cstring (some str) => .ok (b.append str)
  | .cstring none => .ok (b.append (ascii "(null)".toList))
  | .text v => .ok (b.append v)
  | .fmt v => .ok (b.append v.buf_)

end LogStream

namespace Insert

/-- What an insertion means. -/
def meaning (snprintf : Snprintf) : Insert → Bytes
  | .bool v => ascii [if v then '1' else '0']
  | .char v => [v]
  | .integer v => (if v < 0 then ascii ['-'] else []) ++ ascii (Nat.toDigits 10 v.natAbs)
  | .pointer v => ascii ['0', 'x'] ++ ascii ((Nat.toDigits 16 v).map Char.toUpper)
  | .double v => snprintf v
  | .cstring (some str) => str
  | .cstring none => ascii "(null)".toList
  | .text v => v
  | .fmt v => v.buf_

/-- How many characters must be free for it. -/
def need (snprintf : Snprintf) : Insert → Nat
  | .integer _ => kMaxNumericSize
  | .pointer _ => kMaxNumericSize
  | .double _ => kMaxNumericSize
  | i => (i.meaning snprintf).length + 1

/-- The values of the types: 64-bit integers, signed or not, and pointers. -/
def InRange : Insert → Prop
  | .integer v => -2 ^ 63 ≤ v ∧ v < 2 ^ 64
  | .pointer v => v < 2 ^ 64
  | _ => True

variable {snprintf : Snprintf}

theorem length_meaning (hdouble : ∀ v, (snprintf v).length < kMaxNumericSize) {i : Insert}
    (h : i.InRange) : (i.meaning snprintf).length < i.need snprintf := by
  cases i with
  | integer v =>
      have hlen := length_convert h.1 h.2
      rw [convert_eq] at hlen
      exact hlen.trans_lt (by simp [need, kMaxNumericSize])
  | pointer v =>
      have hlen := length_convertHex h
      rw [convertHex_eq] at hlen
      simp only [meaning, need, kMaxNumericSize, List.length_append, length_ascii,
        List.length_cons, List.length_nil] at hlen ⊢
      omega
  | double v => exact hdouble v
  | bool v => exact Nat.lt_succ_self _
  | char v => exact Nat.lt_succ_self _
  | cstring str => exact Nat.lt_succ_self _
  | text v => exact Nat.lt_succ_self _
  | fmt v => exact Nat.lt_succ_self _

end Insert

namespace LogStream

variable {snprintf : Snprintf}

/-- An insertion writes its meaning where it finds the room it needs, and nothing otherwise. -/
theorem insert_eq (hdouble : ∀ v, (snprintf v).length < kMaxNumericSize)
    {b : FixedBuffer kSmallBuffer} {i : Insert} (h : i.InRange) :
    insert snprintf b i =
      .ok (if i.need snprintf ≤ b.avail then b.append (i.meaning snprintf) else b) := by
  have hlen := i.length_meaning hdouble h
  have hcopy : ∀ text : Bytes, b.append text =
      if text.length + 1 ≤ b.avail then b.append text else b := by
    intro text
    split
    · rfl
    · rename_i hfull
      exact dif_neg hfull
  have hnumber : ∀ {text : Bytes}, text.length < kMaxNumericSize →
      (if kMaxNumericSize ≤ b.avail then b.write text else .ok b) =
        .ok (if kMaxNumericSize ≤ b.avail then b.append text else b) := by
    intro text hshort
    split
    · rename_i hroom
      exact FixedBuffer.write_eq (hshort.trans_le hroom)
    · rfl
  cases i with
  | bool v => exact congrArg Except.ok (hcopy _)
  | char v => exact congrArg Except.ok (hcopy _)
  | integer v =>
      rw [insert, formatInteger, convert_eq]
      exact hnumber hlen
  | pointer v =>
      rw [insert, formatPointer, convertHex_eq]
      exact hnumber hlen
  | double v => exact hnumber (hdouble v)
  | cstring str =>
      cases str with
      | none => exact congrArg Except.ok (hcopy _)
      | some str => exact congrArg Except.ok (hcopy _)
  | text v => exact congrArg Except.ok (hcopy _)
  | fmt v => exact congrArg Except.ok (hcopy _)

/-- **Insertions.** No sequence of insertions of values of the types fails, where `snprintf` gives a
`double` fewer than 32 characters. The buffer then holds what it held, followed by the meanings of
some of them in their order; none is left out while the text stays 32 characters short of the
buffer. -/
theorem logStream_inserts (hdouble : ∀ v, (snprintf v).length < kMaxNumericSize)
    (inserts : List Insert) (b : FixedBuffer kSmallBuffer) (hrange : ∀ i ∈ inserts, i.InRange) :
    ∃ b' kept, inserts.foldlM (insert snprintf) b = .ok b' ∧ kept.Sublist inserts ∧
      b'.data = b.data ++ (kept.map (Insert.meaning snprintf)).flatten ∧
      (b.data.length + (inserts.map (Insert.meaning snprintf)).flatten.length + kMaxNumericSize ≤
        kSmallBuffer → kept = inserts) := by
  induction inserts generalizing b with
  | nil => exact ⟨b, [], rfl, .slnil, by simp, fun _ => rfl⟩
  | cons i rest ih =>
      have hi := hrange i List.mem_cons_self
      have hrest : ∀ j ∈ rest, j.InRange := fun j hj => hrange j (List.mem_cons_of_mem i hj)
      rw [List.foldlM_cons, insert_eq hdouble hi]
      by_cases hroom : i.need snprintf ≤ b.avail
      · obtain ⟨b', kept, hrun, hsub, hdata, hall⟩ := ih (b.append (i.meaning snprintf)) hrest
        have happend : (b.append (i.meaning snprintf)).data = b.data ++ i.meaning snprintf := by
          rw [FixedBuffer.data_append, if_pos ((i.length_meaning hdouble hi).trans_le hroom)]
        refine ⟨b', i :: kept, ?_, hsub.cons_cons i, ?_, fun hshort => ?_⟩
        · simpa [hroom] using hrun
        · simp [hdata, happend]
        · rw [hall ?_]
          simp only [happend, List.length_append]
          simp only [List.map_cons, List.flatten_cons, List.length_append] at hshort
          omega
      · obtain ⟨b', kept, hrun, hsub, hdata, hall⟩ := ih b hrest
        refine ⟨b', kept, ?_, hsub.cons i, hdata, fun hshort => ?_⟩
        · simpa [hroom] using hrun
        · exfalso
          apply hroom
          have hneed : i.need snprintf ≤ (i.meaning snprintf).length + kMaxNumericSize := by
            cases i <;> simp [Insert.need, kMaxNumericSize]
          simp only [List.map_cons, List.flatten_cons, List.length_append] at hshort
          unfold FixedBuffer.avail
          omega

/-- The smallest integer, the largest pointer, the `double` 1.5 and a null string on an empty
stream. -/
theorem logStream_inserts_extremes :
    ∃ b' kept, [Insert.integer (-2 ^ 63), .char 32, .pointer (2 ^ 64 - 1),
        .double 0x3FF8000000000000, .cstring none].foldlM
        (insert fun _ => ascii "1.5".toList) (.empty (by decide)) = .ok b' ∧
      kept = [Insert.integer (-2 ^ 63), .char 32, .pointer (2 ^ 64 - 1),
        .double 0x3FF8000000000000, .cstring none] ∧
      b'.data = (kept.map (Insert.meaning fun _ => ascii "1.5".toList)).flatten := by
  obtain ⟨b', kept, hrun, -, hdata, hall⟩ := @logStream_inserts
    (fun _ => ascii "1.5".toList) (fun _ => by decide)
    [.integer (-2 ^ 63), .char 32, .pointer (2 ^ 64 - 1), .double 0x3FF8000000000000,
      .cstring none] (.empty (by decide)) (by simp [Insert.InRange])
  exact ⟨b', kept, hrun, hall (by decide), hdata⟩

end LogStream

end Reactor
