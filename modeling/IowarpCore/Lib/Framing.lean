/-
Files of self-delimiting records.

A `Framing` says how one record is laid out and how the next one is taken off the
front of a byte string.  The two laws tie the directions together: what was framed
is taken back whole, and what is taken was framed.  Nothing else is assumed, and it
is enough to say what a scan of a file returns.

`scan` takes records until none is complete.  It returns exactly the records of
the one decomposition of the file into framed records and a tail that does not
start with a complete one (`scan_eq_iff`), so a file cut anywhere gives the
records that lie wholly before the cut (`scan_take`), and a file with a torn tail
behind which more records were written gives those records only if the bytes
happen to line up (`scan_append_iff`).
-/
import IowarpCore.Lib.Bytes

namespace IowarpCore

/-- How a record is laid out in a file and taken off the front of one. -/
structure Framing (α : Type) where
  frame : α → Bytes
  next : Bytes → Option (α × Bytes)
  next_frame : ∀ a rest, next (frame a ++ rest) = some (a, rest)
  next_sound : ∀ {bs a rest}, next bs = some (a, rest) → bs = frame a ++ rest
  frame_ne_nil : ∀ a, frame a ≠ []

namespace Framing

variable {α : Type} (F : Framing α)

/-- A list of records, one behind the other. -/
def frames (as : List α) : Bytes := as.flatMap F.frame

@[simp] theorem frames_nil : F.frames [] = [] := rfl

@[simp] theorem frames_cons (a : α) (as : List α) :
    F.frames (a :: as) = F.frame a ++ F.frames as := rfl

theorem frames_append (as bs : List α) : F.frames (as ++ bs) = F.frames as ++ F.frames bs := by
  simp [frames]

/-- Take records off the front until there is no complete one. -/
def scanFuel : Nat → Bytes → List α
  | 0, _ => []
  | fuel + 1, bs =>
    match F.next bs with
    | none => []
    | some (a, rest) => a :: scanFuel fuel rest

/-- Every record takes at least one byte, so the length of the file is fuel enough. -/
def scan (bs : Bytes) : List α := F.scanFuel bs.length bs

theorem frame_length_pos (a : α) : 0 < (F.frame a).length :=
  List.length_pos_iff.mpr (F.frame_ne_nil a)

@[simp] theorem next_nil : F.next [] = none := by
  rcases h : F.next [] with _ | ⟨a, rest⟩
  · rfl
  · exact absurd (List.append_eq_nil_iff.mp (F.next_sound h).symm).1 (F.frame_ne_nil a)

/-- With fuel for every byte, a scan of records and a tail finds the records first. -/
theorem scanFuel_frames (as : List α) (tail : Bytes) :
    ∀ fuel, (F.frames as ++ tail).length ≤ fuel →
      ∃ fuel', tail.length ≤ fuel' ∧
        F.scanFuel fuel (F.frames as ++ tail) = as ++ F.scanFuel fuel' tail := by
  induction as with
  | nil => intro fuel h; exact ⟨fuel, by simpa using h, by simp⟩
  | cons a rest ih =>
    intro fuel h
    have hpos := F.frame_length_pos a
    simp only [frames_cons, List.append_assoc, List.length_append] at h
    obtain ⟨fuel, rfl⟩ : ∃ k, fuel = k + 1 := ⟨fuel - 1, by omega⟩
    obtain ⟨fuel', hle, heq⟩ := ih fuel (by rw [List.length_append]; omega)
    refine ⟨fuel', hle, ?_⟩
    simp only [frames_cons, List.append_assoc, scanFuel, F.next_frame, heq, List.cons_append]

theorem scanFuel_of_next_none {bs : Bytes} (h : F.next bs = none) (fuel : Nat) :
    F.scanFuel fuel bs = [] := by
  cases fuel <;> simp [scanFuel, h]

/-- A file of records with an incomplete tail scans to the records. -/
theorem scan_frames (as : List α) {tail : Bytes} (h : F.next tail = none) :
    F.scan (F.frames as ++ tail) = as := by
  obtain ⟨fuel', -, heq⟩ := F.scanFuel_frames as tail _ (Nat.le_refl _)
  rw [scan, heq, F.scanFuel_of_next_none h, List.append_nil]

/-- Whatever the file, the scan splits it into the records found and an incomplete tail. -/
theorem scanFuel_split : ∀ (fuel : Nat) (bs : Bytes), bs.length ≤ fuel →
    ∃ tail, bs = F.frames (F.scanFuel fuel bs) ++ tail ∧ F.next tail = none := by
  intro fuel
  induction fuel with
  | zero =>
    intro bs h
    have hnil : bs = [] := List.length_eq_zero_iff.mp (by omega)
    exact ⟨[], by simp [scanFuel, hnil], F.next_nil⟩
  | succ fuel ih =>
    intro bs h
    rcases hn : F.next bs with _ | ⟨a, rest⟩
    · exact ⟨bs, by simp [scanFuel, hn], hn⟩
    · have hbs := F.next_sound hn
      have hlen : rest.length ≤ fuel := by
        have hpos := F.frame_length_pos a
        rw [hbs, List.length_append] at h
        omega
      obtain ⟨tail, hrest, htail⟩ := ih rest hlen
      refine ⟨tail, ?_, htail⟩
      simp only [scanFuel, hn, frames_cons, List.append_assoc, ← hrest]
      exact hbs

/-- **A scan returns the records of the file's one decomposition.** -/
theorem scan_eq_iff (bs : Bytes) (as : List α) :
    F.scan bs = as ↔ ∃ tail, bs = F.frames as ++ tail ∧ F.next tail = none := by
  refine ⟨?_, ?_⟩
  · intro h
    subst h
    exact F.scanFuel_split _ bs (Nat.le_refl _)
  · rintro ⟨tail, hbs, htail⟩
    rw [hbs]
    exact F.scan_frames as htail

/-- A record cut short is not a record. -/
theorem next_of_lt_frame {a : α} {n : Nat} (h : n < (F.frame a).length) :
    F.next ((F.frame a).take n) = none := by
  rcases hn : F.next ((F.frame a).take n) with _ | ⟨b, rest⟩
  · rfl
  · exfalso
    -- The cut record would start with a whole record `b`, and so would `a` itself.
    have hcut := F.next_sound hn
    have hfull : F.frame a = F.frame b ++ (rest ++ (F.frame a).drop n) := by
      rw [← List.append_assoc, ← hcut, List.take_append_drop]
    have hb := F.next_frame b (rest ++ (F.frame a).drop n)
    rw [← hfull, ← List.append_nil (F.frame a), F.next_frame] at hb
    simp only [List.append_nil, Option.some.injEq, Prod.mk.injEq] at hb
    have hdrop : (F.frame a).drop n = [] := (List.append_eq_nil_iff.mp hb.2.symm).2
    rw [List.drop_eq_nil_iff] at hdrop
    omega

/-- The records that lie wholly inside the first `n` bytes. -/
def complete : Nat → List α → List α
  | _, [] => []
  | n, a :: rest =>
    if (F.frame a).length ≤ n then a :: complete (n - (F.frame a).length) rest else []

/-- What is left of the first `n` bytes behind the complete records. -/
def torn (n : Nat) (as : List α) : Bytes :=
  ((F.frames as).take n).drop (F.frames (F.complete n as)).length

/-- The first `n` bytes are the complete records and an incomplete tail. -/
theorem take_frames (n : Nat) (as : List α) :
    ∃ tail, (F.frames as).take n = F.frames (F.complete n as) ++ tail ∧ F.next tail = none := by
  induction as generalizing n with
  | nil => exact ⟨[], by simp [complete], F.next_nil⟩
  | cons a rest ih =>
    by_cases hlen : (F.frame a).length ≤ n
    · obtain ⟨tail, heq, htail⟩ := ih (n - (F.frame a).length)
      refine ⟨tail, ?_, htail⟩
      rw [complete, if_pos hlen, frames_cons, frames_cons, List.take_append,
        List.take_of_length_le hlen, heq, List.append_assoc]
    · refine ⟨(F.frame a).take n, ?_, F.next_of_lt_frame (Nat.lt_of_not_le hlen)⟩
      have hzero : n - (F.frame a).length = 0 := by omega
      rw [complete, if_neg hlen, frames_cons, List.take_append, hzero]
      simp

theorem take_frames_torn (n : Nat) (as : List α) :
    (F.frames as).take n = F.frames (F.complete n as) ++ F.torn n as := by
  obtain ⟨tail, heq, -⟩ := F.take_frames n as
  rw [torn, heq]
  simp

theorem next_torn (n : Nat) (as : List α) : F.next (F.torn n as) = none := by
  obtain ⟨tail, heq, htail⟩ := F.take_frames n as
  rw [torn, heq]
  simpa using htail

/-- **A file cut after `n` bytes scans to the records that lie wholly before the cut.** -/
theorem scan_take (n : Nat) (as : List α) : F.scan ((F.frames as).take n) = F.complete n as :=
  (F.scan_eq_iff _ _).mpr (F.take_frames n as)

/--
**What is found behind a torn tail.**  When records `news` are written behind a
tail that starts no complete record, a scan finds the old records and then `news`
exactly when the tail is empty, nothing was written, or the bytes line up: `news`
is what the tail followed by `news` starts with, and nothing complete is left over.
-/
theorem scan_append_iff (olds news : List α) {tail : Bytes} (htail : F.next tail = none) :
    F.scan (F.frames olds ++ tail ++ F.frames news) = olds ++ news ↔
      tail = [] ∨ news = [] ∨
        ∃ rest, tail ++ F.frames news = F.frames news ++ rest ∧ F.next rest = none := by
  rw [F.scan_eq_iff, frames_append]
  refine ⟨?_, ?_⟩
  · rintro ⟨rest, heq, hrest⟩
    rw [List.append_assoc, List.append_assoc] at heq
    exact Or.inr (Or.inr ⟨rest, List.append_cancel_left heq, hrest⟩)
  · intro h
    rcases h with h | h | ⟨rest, heq, hrest⟩
    · subst h
      exact ⟨[], by simp, F.next_nil⟩
    · subst h
      exact ⟨tail, by simp, htail⟩
    · exact ⟨rest, by rw [List.append_assoc, List.append_assoc, heq], hrest⟩

end Framing

end IowarpCore
