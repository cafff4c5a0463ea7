import Mathlib
import Reactor.Lib.Outcome

/-!
# Machine words, kernel results and faults

The build is the makefile's: 64-bit, `CFLAGS = -g -std=c++11`, so `assert` is
compiled in and a failed one ends the process. A `size_t` is a natural number and
every arithmetic operation on it is taken modulo `2^64`; an `int` is an integer in
the 32-bit range. The kernel's answers are arbitrary: a `write(2)` accepts some
prefix of what it is offered or fails, a `readv(2)` delivers some bytes or fails.
-/

namespace Reactor

open Reactor.Lib

/-- A byte string: a `std::string`, or the memory a pointer and a length name. -/
abbrev Bytes := List UInt8

/-- `2^64`, one more than the largest `size_t`. -/
def sizeMod : Nat := 2 ^ 64

/-- Addition of two `size_t`. -/
def sizeAdd (a b : Nat) : Nat := (a + b) % sizeMod

/-- Subtraction of two `size_t`. -/
def sizeSub (a b : Nat) : Nat := (a + (sizeMod - b % sizeMod)) % sizeMod

theorem sizeAdd_eq {a b : Nat} (h : a + b < sizeMod) : sizeAdd a b = a + b :=
  Nat.mod_eq_of_lt h

theorem sizeSub_eq {a b : Nat} (hle : b ≤ a) (ha : a < sizeMod) : sizeSub a b = a - b := by
  unfold sizeSub
  rw [Nat.mod_eq_of_lt (Nat.lt_of_le_of_lt hle ha)]
  have hsum : a + (sizeMod - b) = (a - b) + sizeMod := by omega
  rw [hsum, Nat.add_mod_right]
  exact Nat.mod_eq_of_lt (by omega)

/-- `INT_MAX`. -/
def intMax : Nat := 2 ^ 31 - 1

/-- `static_cast<int>` of a `size_t`: the low 32 bits, read as two's complement. -/
def intOfSize (n : Nat) : Int :=
  if n % 2 ^ 32 ≤ intMax then (n % 2 ^ 32 : Nat) else (n % 2 ^ 32 : Nat) - 2 ^ 32

/-- The conversion of an `int` to a `size_t`: sign extension to 64 bits. -/
def sizeOfInt (i : Int) : Nat := (i % (sizeMod : Int)).toNat

theorem intOfSize_of_le {n : Nat} (h : n ≤ intMax) : intOfSize n = (n : Int) := by
  have hmod : n % 2 ^ 32 = n := Nat.mod_eq_of_lt (by unfold intMax at h; omega)
  unfold intOfSize
  rw [hmod, if_pos h]

theorem sizeOfInt_ofNat {n : Nat} (h : n ≤ intMax) : sizeOfInt (n : Int) = n := by
  have hlt : (n : Int) < (sizeMod : Int) := by unfold intMax at h; unfold sizeMod; omega
  unfold sizeOfInt
  rw [Int.emod_eq_of_lt (Int.natCast_nonneg n) hlt, Int.toNat_natCast]

/-- The errno values the code tells apart. -/
inductive Errno where
  | EWOULDBLOCK
  | EPIPE
  | ECONNRESET
  | other (code : Nat)
deriving DecidableEq, Repr

/-- What `write(2)` does with the bytes it is offered: accept a prefix of at most
`n` of them, or fail. -/
inductive WriteResult where
  | accept (n : Nat)
  | fail (err : Errno)
deriving DecidableEq, Repr

/-- What `readv(2)` does: deliver `data`, as far as the iovec array has room (no
bytes is end of file), or fail. -/
inductive ReadResult where
  | deliver (data : Bytes)
  | fail (err : Errno)
deriving DecidableEq, Repr

/-- The operations of `epoll_ctl`. -/
inductive CtlOp where
  | EPOLL_CTL_ADD
  | EPOLL_CTL_MOD
  | EPOLL_CTL_DEL
deriving DecidableEq, Repr

/-- The assertions of the modelled functions, in the source's order. -/
inductive Assertion where
  | ensureWritableBytes_writable
  | makeSpace_reader
  | makeSpace_readable
  | hasWritten_writable
  | unwrite_readable
  | retrieve_readable
  | retrieveUntil_begin
  | retrieveUntil_end
  | retrieveAsString_readable
  | peekInt_readable (size : Nat)
  | prepend_prependable
  | channelRemove_noneEvent
  | updateChannel_absent
  | updateChannel_found
  | updateChannel_same
  | updateChannel_added
  | removeChannel_inactive
  | removeChannel_found
  | removeChannel_same
  | removeChannel_noneEvent
  | removeChannel_index
  | removeChannel_erased
  | sendInLoopEX_remaining
  | connectEstablished_connecting
  | handleClose_connected
  | removeConnectionInLoop_erased
  | toIp_size (required : Nat)
  | toIpPort_size
  | cancelInLoop_sizes
  | cancelInLoop_erased
  | insert_sizes
  | insert_timers
  | insert_activeTimers
  | getExpired_sizes
  | getExpired_end
  | getExpired_erased
  | startLoop_started
  | fillActiveChannels_size
  | fillActiveChannels_found
  | fillActiveChannels_same
  | channel_eventHandling
  | channel_addedToLoop
  | channel_hasChannel
  | tcpConnection_disconnected
deriving DecidableEq, Repr

/-- How the process can end inside a modelled call. -/
inductive Fault where
  /-- A failed `assert`. -/
  | assertion (a : Assertion)
  /-- `std::length_error` out of `vector::resize`, which nothing catches. -/
  | lengthError
  /-- `LOG_SYSFATAL` after a failed `epoll_ctl`. -/
  | sysFatal (op : CtlOp) (fd : Int)
  /-- A read past the end of the memory a `StringPiece` points at, or a call on an object
  that was destroyed. -/
  | badAccess
  /-- `assertInLoopThread` on another thread. -/
  | notInLoopThread
  /-- Overflow of an `int`. -/
  | overflow
deriving DecidableEq, Repr

/-- A call that returns or ends the process. -/
abbrev Exec (α : Type) := Except Fault α

/-- `assert(c)`. -/
def check (c : Prop) [Decidable c] (a : Assertion) : Exec Unit := require c (.assertion a)

theorem check_of {c : Prop} [Decidable c] {a : Assertion} (h : c) : check c a = .ok () :=
  require_of h

@[simp] theorem check_eq_ok {c : Prop} [Decidable c] {a : Assertion} {u : Unit} :
    check c a = .ok u ↔ c := require_eq_ok

@[simp] theorem check_eq_error {c : Prop} [Decidable c] {a : Assertion} {f : Fault} :
    check c a = .error f ↔ ¬ c ∧ Fault.assertion a = f := require_eq_error

/-- `assert(c)` in a build with or without `NDEBUG`. -/
def checkUnless (ndebug : Bool) (c : Prop) [Decidable c] (a : Assertion) : Exec Unit :=
  if ndebug then .ok () else check c a

@[simp] theorem checkUnless_of {ndebug : Bool} {c : Prop} [Decidable c] {a : Assertion} (h : c) :
    checkUnless ndebug c a = .ok () := by
  unfold checkUnless
  split
  · rfl
  · exact check_of h

end Reactor
