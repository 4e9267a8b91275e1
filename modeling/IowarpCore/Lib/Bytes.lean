/-
Bytes, little-endian words, and reading a byte string from the front.

Nothing here knows about a file format.  A format is written by appending the
words and strings below, and read back in the `Reader` monad, which consumes from
the front and fails when the bytes run out.  Each writer has one lemma: reading
what it wrote, with anything behind it, gives the value and leaves what was
behind.  A record's round trip is then a rewrite per field.
-/
import Mathlib.Tactic.Ring
import Mathlib.Control.Monad.Basic

namespace IowarpCore

abbrev Bytes := List UInt8

/-! ### Little-endian words -/

/-- The `w` low bytes of `n`, least significant first. -/
def leBytes : Nat → Nat → Bytes
  | 0, _ => []
  | w + 1, n => UInt8.ofNat n :: leBytes w (n / 256)

/-- The number a little-endian byte string denotes. -/
def leNat : Bytes → Nat
  | [] => 0
  | b :: rest => b.toNat + 256 * leNat rest

@[simp] theorem leBytes_length (w n : Nat) : (leBytes w n).length = w := by
  induction w generalizing n with
  | zero => rfl
  | succ w ih => simp [leBytes, ih]

theorem leNat_leBytes (w n : Nat) : leNat (leBytes w n) = n % 256 ^ w := by
  induction w generalizing n with
  | zero => simp [leBytes, leNat, Nat.mod_one]
  | succ w ih =>
    have hb : (UInt8.ofNat n).toNat = n % 256 := by simp
    rw [leBytes, leNat, ih, hb, Nat.pow_succ', Nat.mod_mul]

theorem leNat_leBytes_of_lt {w n : Nat} (h : n < 256 ^ w) : leNat (leBytes w n) = n := by
  rw [leNat_leBytes, Nat.mod_eq_of_lt h]

theorem leNat_lt (bs : Bytes) : leNat bs < 256 ^ bs.length := by
  induction bs with
  | nil => simp [leNat]
  | cons b rest ih =>
    have hb : b.toNat < 256 := b.toNat_lt
    have hle : 256 * leNat rest + 256 ≤ 256 * 256 ^ rest.length := by omega
    rw [leNat, List.length_cons, Nat.pow_succ']
    omega

theorem leBytes_leNat (bs : Bytes) : leBytes bs.length (leNat bs) = bs := by
  induction bs with
  | nil => rfl
  | cons b rest ih =>
    have hb : b.toNat < 256 := b.toNat_lt
    have hhead : UInt8.ofNat (b.toNat + 256 * leNat rest) = b := by
      apply UInt8.toNat_inj.mp
      rw [UInt8.toNat_ofNat']
      omega
    have htail : (b.toNat + 256 * leNat rest) / 256 = leNat rest := by omega
    rw [List.length_cons, leNat, leBytes, hhead, htail, ih]

/-! ### Reading from the front -/

/-- A read consumes bytes from the front, and is `none` when they run out. -/
abbrev Reader := StateT Bytes Option

/-- The next `n` bytes. -/
def readBytes (n : Nat) : Reader Bytes := fun bs =>
  if n ≤ bs.length then some (bs.take n, bs.drop n) else none

theorem readBytes_append (xs rest : Bytes) :
    (readBytes xs.length).run (xs ++ rest) = some (xs, rest) := by
  simp [readBytes, StateT.run]

def writeU32 (v : UInt32) : Bytes := leBytes 4 v.toNat
def writeU64 (v : UInt64) : Bytes := leBytes 8 v.toNat

def readU32 : Reader UInt32 := do return UInt32.ofNat (leNat (← readBytes 4))
def readU64 : Reader UInt64 := do return UInt64.ofNat (leNat (← readBytes 8))

@[simp] theorem writeU32_length (v : UInt32) : (writeU32 v).length = 4 := leBytes_length _ _

@[simp] theorem writeU64_length (v : UInt64) : (writeU64 v).length = 8 := leBytes_length _ _

@[simp] theorem readU32_write (v : UInt32) (rest : Bytes) :
    readU32.run (writeU32 v ++ rest) = some (v, rest) := by
  have hread : (readBytes 4).run (writeU32 v ++ rest) = some (writeU32 v, rest) := by
    have := readBytes_append (writeU32 v) rest
    rwa [writeU32_length] at this
  have hval : UInt32.ofNat (leNat (writeU32 v)) = v := by
    rw [writeU32, leNat_leBytes_of_lt (by simpa using v.toNat_lt)]
    simp
  simp [readU32, hread, hval]

@[simp] theorem readU64_write (v : UInt64) (rest : Bytes) :
    readU64.run (writeU64 v ++ rest) = some (v, rest) := by
  have hread : (readBytes 8).run (writeU64 v ++ rest) = some (writeU64 v, rest) := by
    have := readBytes_append (writeU64 v) rest
    rwa [writeU64_length] at this
  have hval : UInt64.ofNat (leNat (writeU64 v)) = v := by
    rw [writeU64, leNat_leBytes_of_lt (by simpa using v.toNat_lt)]
    simp
  simp [readU64, hread, hval]

/-! ### Length-prefixed strings -/

/-- A string is its length as a 32-bit word and then its bytes, all of them. -/
def writeString (s : Bytes) : Bytes := writeU32 (UInt32.ofNat s.length) ++ s

def readString : Reader Bytes := do readBytes (← readU32).toNat

@[simp] theorem writeString_length (s : Bytes) : (writeString s).length = 4 + s.length := by
  simp [writeString]

/-- A string whose length fits the prefix reads back. -/
theorem readString_write (s rest : Bytes) (h : s.length < 2 ^ 32) :
    readString.run (writeString s ++ rest) = some (s, rest) := by
  have hlen : (UInt32.ofNat s.length).toNat = s.length := by
    rw [UInt32.toNat_ofNat']
    omega
  simp [readString, writeString, StateT.run_bind, hlen, readBytes_append]

end IowarpCore
