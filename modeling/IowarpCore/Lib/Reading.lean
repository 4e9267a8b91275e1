/-
Programs that read a byte stream.

A `Reading` asks for an exact number of bytes, goes on with them, and asks again, until it
is done.  `parse` is its meaning on a stream that is all there.  A reader that gets the
stream in chunks holds the bytes it has for the current request; `settle` answers every
request that can be answered from them.  Chunks do not change the meaning
(`parse_settle`).
-/
import IowarpCore.Lib.Bytes

namespace IowarpCore

inductive Reading (α : Type) where
  | done (a : α)
  | read (n : Nat) (k : Bytes → Reading α)

namespace Reading

variable {α β : Type}

def bind : Reading α → (α → Reading β) → Reading β
  | done a, f => f a
  | read n k, f => read n fun bs => (k bs).bind f

/-- What the program makes of a stream, and what it leaves of it. -/
def parse : Reading α → Bytes → Option (α × Bytes)
  | done a, bs => some (a, bs)
  | read n k, bs => if n ≤ bs.length then (k (bs.take n)).parse (bs.drop n) else none

@[simp] theorem parse_done (a : α) (bs : Bytes) : (done a).parse bs = some (a, bs) := rfl

theorem parse_read (n : Nat) (k : Bytes → Reading α) (bs : Bytes) :
    (read n k).parse bs =
      if n ≤ bs.length then (k (bs.take n)).parse (bs.drop n) else none := rfl

theorem parse_bind (r : Reading α) (f : α → Reading β) (bs : Bytes) :
    (r.bind f).parse bs = (r.parse bs).bind fun x => (f x.1).parse x.2 := by
  induction r generalizing bs with
  | done a => rfl
  | read n k ih =>
    rw [bind, parse_read, parse_read]
    split
    · exact ih _ _
    · rfl

theorem parse_read_append {n : Nat} {k : Bytes → Reading α} {front : Bytes} (rest : Bytes)
    (h : front.length = n) : (read n k).parse (front ++ rest) = (k front).parse rest := by
  subst h
  rw [parse_read, if_pos (by simp), List.take_left, List.drop_left]

/-- Answer the requests that `got` is enough for.  A request answered takes all of it. -/
def settle : Reading α → Bytes → Reading α × Bytes
  | done a, got => (done a, got)
  | read n k, got => if got.length ≥ n then (k got).settle [] else (read n k, got)

/-- No more bytes are held than were asked for. -/
def Holds : Reading α → Bytes → Prop
  | done _, got => got = []
  | read n _, got => got.length ≤ n

theorem holds_nil (r : Reading α) : r.Holds [] := by
  cases r with
  | done a => rfl
  | read n k => exact Nat.zero_le n

/-- **Chunks do not change what is read.** -/
theorem parse_settle (r : Reading α) {got : Bytes} (h : r.Holds got) (rest : Bytes) :
    (r.settle got).1.parse ((r.settle got).2 ++ rest) = r.parse (got ++ rest) := by
  induction r generalizing got with
  | done a => rfl
  | read n k ih =>
    unfold settle
    split
    · rename_i hge
      have hlength : got.length = n := Nat.le_antisymm h hge
      rw [parse_read_append rest hlength]
      exact ih got (holds_nil _)
    · rfl

/-- After that the program is done with nothing left over, or waits for more. -/
theorem settle_cases (r : Reading α) {got : Bytes} (h : r.Holds got) :
    (∃ a, r.settle got = (done a, [])) ∨
      ∃ n k, (r.settle got).1 = read n k ∧ (r.settle got).2.length < n := by
  induction r generalizing got with
  | done a =>
    obtain rfl : got = [] := h
    exact Or.inl ⟨a, rfl⟩
  | read n k ih =>
    unfold settle
    split
    · exact ih got (holds_nil _)
    · rename_i hlt
      exact Or.inr ⟨n, k, rfl, by simpa using hlt⟩

end Reading

end IowarpCore
