/-
Exclusion of the reader-writer lock.

A thread that has the lock for reading, or has found the mode to be `read` in its current
pass, relies on the mode staying `read`; a writer relies on `write` in the same way
(`Place.claim`).  The only operation that takes the mode away is the compare_exchange of
`UpdateMode`, which is entitled to it by a count that was zero when it was loaded.  By the
time of the exchange the count can be anything again: the exchange compares the mode and
nothing else.

So the lock is exclusive in every run in which that count is still zero at the exchange
and the counts do not wrap, and it is not exclusive in general.
-/
import Mathlib.Algebra.Group.Nat.Defs
import IowarpCore.Shm.RwLock

namespace IowarpCore
namespace RwLock

open Threads

variable {mv : Move} {s s' : Shared} {p p' : Place}

/-! ### What a place says -/

def Caller.isReader : Caller → Bool
  | .reader => true
  | .writer _ => false

def Caller.ticket : Caller → Option UInt64
  | .reader => none
  | .writer tkt => some tkt

/-- The mode a caller relies on once it has found the mode to be `mode`. -/
def Caller.claim : Caller → Mode → Option Mode
  | .reader, .read => some .read
  | .writer _, .write => some .write
  | _, _ => none

/-- The thread is counted in `readers_`. -/
def Place.isReader : Place → Bool
  | .loadMode who | .loadReaders who _ | .loadWriters who _ | .casNone who _ => who.isReader
  | .casRead | .reading => true
  | _ => false

/-- The thread is counted in `writers_`. -/
def Place.isWriter : Place → Bool
  | .loadMode who | .loadReaders who _ | .loadWriters who _ | .casNone who _ => !who.isReader
  | .takeTicket | .casWrite _ | .reloadMode _ | .loadCurWriter _ | .writing _ => true
  | _ => false

/-- The ticket of a writer that has not finished `WriteUnlock`. -/
def Place.ticket : Place → Option UInt64
  | .loadMode who | .loadReaders who _ | .loadWriters who _ | .casNone who _ => who.ticket
  | .casWrite tkt | .reloadMode tkt | .loadCurWriter tkt | .writing tkt | .addCurWriter tkt =>
    some tkt
  | _ => none

def Place.hasTicket (p : Place) : Bool :=
  p.ticket.isSome

/-- The ticket of a writer that was let in and has not passed the turn on. -/
def Place.turn : Place → Option UInt64
  | .writing tkt | .addCurWriter tkt => some tkt
  | _ => none

/-- The mode the thread relies on. -/
def Place.claim : Place → Option Mode
  | .loadReaders who mode | .loadWriters who mode | .casNone who mode => who.claim mode
  | .reading => some .read
  | .loadCurWriter _ | .writing _ => some .write
  | _ => none

@[simp] theorem isReader_afterUpdate (who : Caller) (m : Mode) :
    (afterUpdate who m).isReader = who.isReader := by
  cases who <;> cases m <;> rfl

@[simp] theorem isWriter_afterUpdate (who : Caller) (m : Mode) :
    (afterUpdate who m).isWriter = !who.isReader := by
  cases who <;> cases m <;> rfl

@[simp] theorem ticket_afterUpdate (who : Caller) (m : Mode) :
    (afterUpdate who m).ticket = who.ticket := by
  cases who <;> cases m <;> rfl

@[simp] theorem turn_afterUpdate (who : Caller) (m : Mode) : (afterUpdate who m).turn = none := by
  cases who <;> cases m <;> rfl

@[simp] theorem claim_afterUpdate (who : Caller) (m : Mode) :
    (afterUpdate who m).claim = who.claim m := by
  cases who <;> cases m <;> rfl

variable {who : Caller} {i served : Nat} {t : UInt64}

/-- A caller relies on the mode it found or on none. -/
theorem Caller.claim_eq {m x : Mode} (h : who.claim m = some x) : x = m := by
  cases who <;> cases m <;> simp_all [Caller.claim]

theorem Place.claim_ne_none : p.claim ≠ some .none := by
  cases p with
  | loadReaders who mode => cases who <;> cases mode <;> simp [claim, Caller.claim]
  | loadWriters who mode => cases who <;> cases mode <;> simp [claim, Caller.claim]
  | casNone who mode => cases who <;> cases mode <;> simp [claim, Caller.claim]
  | _ => simp [claim]

/-- Who relies on `read` is counted in `readers_`. -/
theorem Place.isReader_of_claim (h : p.claim = some .read) : p.isReader = true := by
  cases p with
  | loadReaders who mode => cases who <;> cases mode <;> simp_all [claim, Caller.claim, isReader, Caller.isReader]
  | loadWriters who mode => cases who <;> cases mode <;> simp_all [claim, Caller.claim, isReader, Caller.isReader]
  | casNone who mode => cases who <;> cases mode <;> simp_all [claim, Caller.claim, isReader, Caller.isReader]
  | _ => simp_all [claim, isReader]

/-- Who relies on `write` is counted in `writers_`. -/
theorem Place.isWriter_of_claim (h : p.claim = some .write) : p.isWriter = true := by
  cases p with
  | loadReaders who mode => cases who <;> cases mode <;> simp_all [claim, Caller.claim, isWriter, Caller.isReader]
  | loadWriters who mode => cases who <;> cases mode <;> simp_all [claim, Caller.claim, isWriter, Caller.isReader]
  | casNone who mode => cases who <;> cases mode <;> simp_all [claim, Caller.claim, isWriter, Caller.isReader]
  | _ => simp_all [claim, isWriter]

/-! ### One step of a thread -/

/-- The thread is about to take the mode `m` away. -/
def Place.takes (m : Mode) : Place → Bool
  | .casNone _ mode => mode = m
  | _ => false

/-- What a step has to find for the lock to work: a count that is incremented does not
wrap, and `UpdateMode` takes the mode away only while the count that entitled it to is
still zero. -/
structure Current (mv : Move) (s : Shared) (p : Place) : Prop where
  readers : p = .addReader → s.readers.toNat + 1 < 2 ^ 32
  writers : p = .addWriter → s.writers.toNat + 1 < 2 ^ 32
  noReader : p.takes .read = true → mv = .go false → s.mode = .read → s.readers = 0
  noWriter : p.takes .write = true → mv = .go false → s.mode = .write → s.writers = 0

instance : Decidable (Current mv s p) :=
  decidable_of_iff
    ((p = .addReader → s.readers.toNat + 1 < 2 ^ 32) ∧
      (p = .addWriter → s.writers.toNat + 1 < 2 ^ 32) ∧
      (p.takes .read = true → mv = .go false → s.mode = .read → s.readers = 0) ∧
      (p.takes .write = true → mv = .go false → s.mode = .write → s.writers = 0))
    ⟨fun h => ⟨h.1, h.2.1, h.2.2.1, h.2.2.2⟩, fun h => ⟨h.1, h.2, h.3, h.4⟩⟩

/-- The thread stays counted as it was, with the ticket it had. -/
structure Place.Same (p p' : Place) : Prop where
  isReader : p'.isReader = p.isReader
  isWriter : p'.isWriter = p.isWriter
  ticket : p'.ticket = p.ticket

/-- What a step can do. -/
inductive Effect (mv : Move) (s : Shared) : Place → Shared → Place → Prop
  | addReader : Effect mv s .addReader { s with readers := s.readers + 1 } (.loadMode .reader)
  | addWriter : Effect mv s .addWriter { s with writers := s.writers + 1 } .takeTicket
  | takeTicket : Effect mv s .takeTicket { s with ticket := s.ticket + 1 }
      (.loadMode (.writer s.ticket))
  /- nothing is changed, and what the thread relies on from now on it has just seen -/
  | look {p p' : Place} : p.Same p' →
      (∀ m, p'.claim = some m → p.claim = some m ∨ m = s.mode) →
      (∀ t, p'.turn = some t → p.turn = some t ∨ s.curWriter.toUInt64 = t) → Effect mv s p s p'
  /- a mode is entered from `none` -/
  | enter {p p' : Place} {m : Mode} : s.mode = .none → p.Same p' → p'.turn = none →
      (∀ x, p'.claim = some x → x = m) → Effect mv s p { s with mode := m } p'
  | takeAway {who : Caller} : mv = .go false →
      Effect mv s (.casNone who s.mode) { s with mode := .none } (afterUpdate who s.mode)
  | readUnlock : Effect mv s .reading { s with readers := s.readers - 1 } .idle
  | writeUnlock {tkt : UInt64} :
      Effect mv s (.writing tkt) { s with writers := s.writers - 1 } (.addCurWriter tkt)
  | passOn {tkt : UInt64} :
      Effect mv s (.addCurWriter tkt) { s with curWriter := s.curWriter + 1 } .idle

theorem same_afterUpdate (who : Caller) (m : Mode) (hr : p.isReader = who.isReader)
    (hw : p.isWriter = !who.isReader) (ht : p.ticket = who.ticket) :
    p.Same (afterUpdate who m) :=
  ⟨by rw [isReader_afterUpdate, hr], by rw [isWriter_afterUpdate, hw],
    by rw [ticket_afterUpdate, ht]⟩

theorem effect_update {m : Mode} (hp : p.Same (afterUpdate who m))
    (hclaim : p.claim = who.claim m ∨ m = s.mode) : Effect mv s p s (afterUpdate who m) := by
  refine .look hp ?_ (by simp)
  intro x hx
  rw [claim_afterUpdate] at hx
  rcases hclaim with h | rfl
  · exact Or.inl (h.trans hx)
  · exact Or.inr (Caller.claim_eq hx)

/-- The step of a thread that is on its way. -/
theorem next_effect_go {spurious : Bool} (h : next (.go spurious) s p = some (s', p')) :
    Effect (.go spurious) s p s' p' := by
  cases p with
  | idle => cases h
  | reading => cases h
  | writing tkt => cases h
  | addReader =>
    obtain ⟨rfl, rfl⟩ := Prod.mk.inj (Option.some.inj h)
    exact .addReader
  | addWriter =>
    obtain ⟨rfl, rfl⟩ := Prod.mk.inj (Option.some.inj h)
    exact .addWriter
  | takeTicket =>
    obtain ⟨rfl, rfl⟩ := Prod.mk.inj (Option.some.inj h)
    exact .takeTicket
  | loadMode who =>
    obtain ⟨rfl, rfl⟩ := Prod.mk.inj (Option.some.inj h)
    refine .look ⟨rfl, rfl, rfl⟩ ?_ (by simp [Place.turn])
    intro m hm
    exact Or.inr (Caller.claim_eq hm)
  | loadReaders who mode =>
    unfold next at h
    dsimp only at h
    split at h
    · obtain ⟨rfl, rfl⟩ := Prod.mk.inj (Option.some.inj h)
      exact .look ⟨rfl, rfl, rfl⟩ (fun _ hx => Or.inl hx) (by simp [Place.turn])
    · obtain ⟨rfl, rfl⟩ := Prod.mk.inj (Option.some.inj h)
      exact .look ⟨rfl, rfl, rfl⟩ (fun _ hx => Or.inl hx) (by simp [Place.turn])
  | loadWriters who mode =>
    unfold next at h
    dsimp only at h
    split at h
    · obtain ⟨rfl, rfl⟩ := Prod.mk.inj (Option.some.inj h)
      exact .look ⟨rfl, rfl, rfl⟩ (fun _ hx => Or.inl hx) (by simp [Place.turn])
    · obtain ⟨rfl, rfl⟩ := Prod.mk.inj (Option.some.inj h)
      exact effect_update (same_afterUpdate _ _ rfl rfl rfl) (Or.inl rfl)
  | casNone who mode =>
    obtain ⟨rfl, rfl⟩ := Prod.mk.inj (Option.some.inj h)
    unfold casMode
    split
    case isTrue hcas =>
      obtain ⟨rfl, rfl⟩ := hcas
      exact .takeAway rfl
    case isFalse =>
      exact effect_update (same_afterUpdate _ _ rfl rfl rfl) (Or.inr rfl)
  | casRead =>
    obtain ⟨rfl, rfl⟩ := Prod.mk.inj (Option.some.inj h)
    unfold casMode
    split
    case isTrue hcas =>
      exact .enter hcas.1 ⟨rfl, rfl, rfl⟩ rfl (by simp [Place.claim])
    case isFalse =>
      exact .look ⟨rfl, rfl, rfl⟩ (by simp [Place.claim]) (by simp [Place.turn])
  | casWrite tkt =>
    obtain ⟨rfl, rfl⟩ := Prod.mk.inj (Option.some.inj h)
    unfold casMode
    split
    case isTrue hcas =>
      exact .enter hcas.1 ⟨rfl, rfl, rfl⟩ rfl (by simp [Place.claim])
    case isFalse =>
      exact .look ⟨rfl, rfl, rfl⟩ (by simp [Place.claim]) (by simp [Place.turn])
  | reloadMode tkt =>
    obtain ⟨rfl, rfl⟩ := Prod.mk.inj (Option.some.inj h)
    split
    case isTrue hmode =>
      exact .look ⟨rfl, rfl, rfl⟩ (by simp [Place.claim, hmode]) (by simp [Place.turn])
    case isFalse =>
      exact .look ⟨rfl, rfl, rfl⟩ (by simp [Place.claim]) (by simp [Place.turn])
  | loadCurWriter tkt =>
    obtain ⟨rfl, rfl⟩ := Prod.mk.inj (Option.some.inj h)
    split
    case isTrue hturn =>
      exact .look ⟨rfl, rfl, rfl⟩ (by simp [Place.claim]) (by simp [Place.turn, hturn])
    case isFalse =>
      exact .look ⟨rfl, rfl, rfl⟩ (by simp [Place.claim]) (by simp [Place.turn])
  | addCurWriter tkt =>
    obtain ⟨rfl, rfl⟩ := Prod.mk.inj (Option.some.inj h)
    exact .passOn

/-- **Every step of the code has one of these effects.** -/
theorem next_effect (h : next mv s p = some (s', p')) : Effect mv s p s' p' := by
  cases mv with
  | readLock =>
    cases p with
    | idle =>
      obtain ⟨rfl, rfl⟩ := Prod.mk.inj (Option.some.inj h)
      exact .look ⟨rfl, rfl, rfl⟩ (by simp [Place.claim]) (by simp [Place.turn])
    | _ => cases h
  | writeLock =>
    cases p with
    | idle =>
      obtain ⟨rfl, rfl⟩ := Prod.mk.inj (Option.some.inj h)
      exact .look ⟨rfl, rfl, rfl⟩ (by simp [Place.claim]) (by simp [Place.turn])
    | _ => cases h
  | unlock =>
    cases p with
    | reading =>
      obtain ⟨rfl, rfl⟩ := Prod.mk.inj (Option.some.inj h)
      exact .readUnlock
    | writing tkt =>
      obtain ⟨rfl, rfl⟩ := Prod.mk.inj (Option.some.inj h)
      exact .writeUnlock
    | _ => cases h
  | go spurious => exact next_effect_go h

/-! ### The counts -/

/-- `readers_` counts the thread in and out. -/
theorem Effect.readers (h : Effect mv s p s' p') (hc : Current mv s p)
    (hpos : p.isReader = true → 0 < s.readers.toNat) :
    s'.readers.toNat + (if p.isReader then 1 else 0) =
      s.readers.toNat + (if p'.isReader then 1 else 0) := by
  cases h with
  | addReader =>
    have hroom := hc.readers rfl
    have hsum : (s.readers + 1).toNat = s.readers.toNat + 1 := by
      rw [UInt32.toNat_add, UInt32.toNat_one, Nat.mod_eq_of_lt hroom]
    simp [Place.isReader, Caller.isReader, hsum]
  | look hsame => rw [hsame.isReader]
  | enter _ hsame => rw [hsame.isReader]
  | takeAway =>
    rw [isReader_afterUpdate]
    rfl
  | readUnlock =>
    have hone : (1 : UInt32) ≤ s.readers := by
      have := hpos rfl
      rw [UInt32.le_iff_toNat_le, UInt32.toNat_one]
      omega
    have hle := UInt32.le_iff_toNat_le.mp hone
    rw [UInt32.toNat_one] at hle
    simp [Place.isReader, UInt32.toNat_sub_of_le _ _ hone]
    omega
  | addWriter | takeTicket | writeUnlock | passOn => simp [Place.isReader, Caller.isReader]

/-- `writers_` counts the thread in and out. -/
theorem Effect.writers (h : Effect mv s p s' p') (hc : Current mv s p)
    (hpos : p.isWriter = true → 0 < s.writers.toNat) :
    s'.writers.toNat + (if p.isWriter then 1 else 0) =
      s.writers.toNat + (if p'.isWriter then 1 else 0) := by
  cases h with
  | addWriter =>
    have hroom := hc.writers rfl
    have hsum : (s.writers + 1).toNat = s.writers.toNat + 1 := by
      rw [UInt32.toNat_add, UInt32.toNat_one, Nat.mod_eq_of_lt hroom]
    simp [Place.isWriter, hsum]
  | look hsame => rw [hsame.isWriter]
  | enter _ hsame => rw [hsame.isWriter]
  | takeAway =>
    rw [isWriter_afterUpdate]
    rfl
  | writeUnlock =>
    have hone : (1 : UInt32) ≤ s.writers := by
      have := hpos rfl
      rw [UInt32.le_iff_toNat_le, UInt32.toNat_one]
      omega
    have hle := UInt32.le_iff_toNat_le.mp hone
    rw [UInt32.toNat_one] at hle
    simp [Place.isWriter, UInt32.toNat_sub_of_le _ _ hone]
    omega
  | addReader | takeTicket | readUnlock | passOn => simp [Place.isWriter, Caller.isReader]

/-- The counts are the numbers of threads that are counted. -/
structure Counted (s : System) : Prop where
  readers : s.shared.readers.toNat = s.locals.countP Place.isReader
  writers : s.shared.writers.toNat = s.locals.countP Place.isWriter

theorem Counted.step {s : System} (hs : Counted s) (hi : s.locals[i]? = some p)
    (h : Effect mv s.shared p s' p') (hc : Current mv s.shared p) :
    Counted ⟨s', s.locals.set i p'⟩ := by
  constructor
  · have hcount := countP_step Place.isReader p' hi
    have hstep := h.readers hc (fun hp => by rw [hs.readers]; exact countP_pos _ hi hp)
    have := hs.readers
    show s'.readers.toNat = (s.locals.set i p').countP _
    omega
  · have hcount := countP_step Place.isWriter p' hi
    have hstep := h.writers hc (fun hp => by rw [hs.writers]; exact countP_pos _ hi hp)
    have := hs.writers
    show s'.writers.toNat = (s.locals.set i p').countP _
    omega

/-! ### The mode -/

/-- The mode is the one every thread relies on. -/
def Relied (s : System) : Prop :=
  ∀ (i : Nat) (p : Place), s.locals[i]? = some p → ∀ m, p.claim = some m → s.shared.mode = m

/-- Nobody relies on the mode that `UpdateMode` takes away. -/
theorem Counted.no_claim {s : System} {j : Nat} {q : Place}
    (hs : Counted s) (hc : Current (.go false) s.shared (.casNone who s.shared.mode))
    (hj : s.locals[j]? = some q) : q.claim ≠ some s.shared.mode := by
  intro hq
  cases hm : s.shared.mode with
  | none =>
    rw [hm] at hq
    exact Place.claim_ne_none hq
  | read =>
    rw [hm] at hq hc
    have hzero := hs.readers
    rw [hc.noReader rfl rfl hm] at hzero
    have := countP_pos _ hj (Place.isReader_of_claim hq)
    rw [← hzero] at this
    exact absurd this (by simp)
  | write =>
    rw [hm] at hq hc
    have hzero := hs.writers
    rw [hc.noWriter rfl rfl hm] at hzero
    have := countP_pos _ hj (Place.isWriter_of_claim hq)
    rw [← hzero] at this
    exact absurd this (by simp)

theorem Relied.step {s : System} (hs : Relied s) (hcount : Counted s)
    (hi : s.locals[i]? = some p) (h : Effect mv s.shared p s' p')
    (hc : Current mv s.shared p) : Relied ⟨s', s.locals.set i p'⟩ := by
  cases h with
  | look hsame hclaim hturn =>
    refine forall_set hi hs ?_ (fun j q _ _ hq => hq)
    intro m hm
    rcases hclaim m hm with hp | rfl
    · exact hs i p hi m hp
    · rfl
  | enter hnone hsame hturn hclaim =>
    refine forall_set hi hs (fun m hm => (hclaim m hm).symm) ?_
    -- the mode was `none`, which nobody relies on
    intro j q _ hj hq m hm
    have hmode := hq m hm
    rw [hnone] at hmode
    subst hmode
    exact absurd hm Place.claim_ne_none
  | takeAway hmv =>
    subst hmv
    have hself : (Place.casNone _ s.shared.mode).claim ≠ some s.shared.mode :=
      hcount.no_claim hc hi
    refine forall_set hi hs ?_ ?_
    · intro m hm
      rw [claim_afterUpdate] at hm
      have heq := Caller.claim_eq hm
      subst heq
      exact absurd hm hself
    · intro j q _ hj hq m hm
      have hmode := hq m hm
      subst hmode
      exact absurd hm (hcount.no_claim hc hj)
  | addReader | addWriter | takeTicket | readUnlock | passOn =>
    exact forall_set hi hs (by simp [Place.claim]) (fun j q _ _ hq => hq)
  | writeUnlock =>
    exact forall_set hi hs (by simp [Place.claim]) (fun j q _ _ hq => hq)

/-! ### The tickets -/

/-- The writer has a ticket and is done, but for passing the turn on. -/
def Place.isPassing : Place → Bool
  | .addCurWriter _ => true
  | _ => false

/-- `served` writers are done.  The others have distinct tickets from `served` on, and who
was let in has the one that `cur_writer_` says.  `cur_writer_` wraps; by then a ticket is
too large for it to match, and nobody is let in any more. -/
structure Queued (served : Nat) (s : System) : Prop where
  bound : served ≤ 2 ^ 32
  current : s.shared.curWriter.toNat = served % 2 ^ 32
  issued : s.shared.ticket.toNat = served + s.locals.countP Place.hasTicket
  range : ∀ (i : Nat) (p : Place), s.locals[i]? = some p → ∀ t, p.ticket = some t →
    served ≤ t.toNat ∧ t.toNat < s.shared.ticket.toNat
  distinct : ∀ (i j : Nat) (p q : Place), s.locals[i]? = some p → s.locals[j]? = some q →
    ∀ t, p.ticket = some t → q.ticket = some t → i = j
  turn : ∀ (i : Nat) (p : Place), s.locals[i]? = some p → ∀ t, p.turn = some t →
    s.shared.curWriter.toUInt64 = t

theorem Place.ticket_of_turn (h : p.turn = some t) : p.ticket = some t := by
  cases p with
  | writing tkt | addCurWriter tkt => exact h
  | _ => cases h

theorem Place.isWriter_or_passing (h : p.hasTicket = true) :
    p.isWriter = true ∨ p.isPassing = true := by
  cases p with
  | loadMode who | loadReaders who _ | loadWriters who _ | casNone who _ =>
    cases who with
    | reader => cases h
    | writer tkt => exact Or.inl rfl
  | casWrite | reloadMode | loadCurWriter | writing => exact Or.inl rfl
  | addCurWriter => exact Or.inr rfl
  | _ => cases h

/-- No two writers are let in. -/
theorem Queued.turn_unique {s : System} {j : Nat} {q : Place} {u : UInt64}
    (hs : Queued served s) (hi : s.locals[i]? = some p) (hj : s.locals[j]? = some q)
    (hp : p.turn = some t) (hq : q.turn = some u) : i = j := by
  have ht := hs.turn i p hi t hp
  have hu := hs.turn j q hj u hq
  rw [ht] at hu
  subst hu
  exact hs.distinct i j p q hi hj t (Place.ticket_of_turn hp) (Place.ticket_of_turn hq)

/-- The tickets do not run out: each of the first `2 ^ 32` writers is done or counted, and
no later one is let in. -/
theorem Queued.room {s : System} (hs : Queued served s) (hcount : Counted s) :
    s.shared.ticket.toNat + 1 < 2 ^ 64 := by
  have hpassing : s.locals.countP Place.isPassing ≤ 1 := by
    refine countP_le_one (fun i j p q hi hj hp hq => ?_)
    cases p with
    | addCurWriter t =>
      cases q with
      | addCurWriter u => exact hs.turn_unique hi hj (t := t) (u := u) rfl rfl
      | _ => cases hq
    | _ => cases hp
  have hsplit : s.locals.countP Place.hasTicket ≤
      s.locals.countP Place.isWriter + s.locals.countP Place.isPassing :=
    countP_le_add (fun p hp => Place.isWriter_or_passing hp)
  have hwriters := hcount.writers
  have hlt := s.shared.writers.toNat_lt
  have hissued := hs.issued
  have hbound := hs.bound
  omega

/-- A step that leaves the tickets alone. -/
theorem Queued.quiet {s : System} (hs : Queued served s)
    (hi : s.locals[i]? = some p) (hticket : s'.ticket = s.shared.ticket)
    (hcur : s'.curWriter = s.shared.curWriter) (hp : p'.ticket = p.ticket)
    (hturn : ∀ t, p'.turn = some t → p.turn = some t ∨ s.shared.curWriter.toUInt64 = t) :
    Queued served ⟨s', s.locals.set i p'⟩ where
  bound := hs.bound
  current := by
    rw [← hs.current]
    exact congrArg UInt32.toNat hcur
  issued := by
    have hcount := countP_step Place.hasTicket p' hi
    rw [Place.hasTicket, Place.hasTicket, hp] at hcount
    have hsame : (s.locals.set i p').countP Place.hasTicket =
        s.locals.countP Place.hasTicket := by omega
    show s'.ticket.toNat = served + (s.locals.set i p').countP _
    rw [hticket, hsame]
    exact hs.issued
  range := by
    show ∀ (j : Nat) (q : Place), (s.locals.set i p')[j]? = some q → ∀ t, q.ticket = some t →
      served ≤ t.toNat ∧ t.toNat < s'.ticket.toNat
    rw [hticket]
    refine forall_set hi hs.range ?_ (fun j q _ _ hq => hq)
    intro t ht
    exact hs.range i p hi t (hp ▸ ht)
  distinct := by
    -- a thread has the ticket it had before
    have hback : ∀ (j : Nat) (q : Place), (s.locals.set i p')[j]? = some q →
        ∃ q', s.locals[j]? = some q' ∧ q.ticket = q'.ticket :=
      forall_set (P := fun j q => s.locals[j]? = some q) hi (fun _ _ h => h) ⟨p, hi, hp⟩
        (fun j q _ hj _ => ⟨q, hj, rfl⟩)
    intro j k q r hj hk t hq hr
    obtain ⟨q', hj', hq'⟩ := hback j q hj
    obtain ⟨r', hk', hr'⟩ := hback k r hk
    exact hs.distinct j k q' r' hj' hk' t (hq' ▸ hq) (hr' ▸ hr)
  turn := by
    show ∀ (j : Nat) (q : Place), (s.locals.set i p')[j]? = some q → ∀ t, q.turn = some t →
      s'.curWriter.toUInt64 = t
    rw [hcur]
    refine forall_set hi hs.turn ?_ (fun j q _ _ hq => hq)
    intro t ht
    rcases hturn t ht with h | h
    · exact hs.turn i p hi t h
    · exact h

/-- A writer draws the next ticket. -/
theorem Queued.draw {s : System} (hs : Queued served s)
    (hcount : Counted s) (hi : s.locals[i]? = some .takeTicket) :
    Queued served ⟨{ s.shared with ticket := s.shared.ticket + 1 },
      s.locals.set i (.loadMode (.writer s.shared.ticket))⟩ := by
  have hroom := hs.room hcount
  have hnext : (s.shared.ticket + 1).toNat = s.shared.ticket.toNat + 1 := by
    rw [UInt64.toNat_add, UInt64.toNat_one, Nat.mod_eq_of_lt hroom]
  have hissued := hs.issued
  -- the ticket drawn is larger than all others
  have hfresh : ∀ (j : Nat) (q : Place), s.locals[j]? = some q →
      q.ticket ≠ some s.shared.ticket := by
    intro j q hj hq
    have := (hs.range j q hj _ hq).2
    omega
  refine ⟨hs.bound, hs.current, ?_, ?_, ?_, ?_⟩
  · have hstep : (s.locals.set i _).countP Place.hasTicket + 0 =
        s.locals.countP Place.hasTicket + 1 :=
      countP_step Place.hasTicket (.loadMode (.writer s.shared.ticket)) hi
    show (s.shared.ticket + 1).toNat = served + (s.locals.set i _).countP _
    rw [hnext]
    omega
  · show ∀ (j : Nat) (q : Place), (s.locals.set i _)[j]? = some q → ∀ t, q.ticket = some t →
      served ≤ t.toNat ∧ t.toNat < (s.shared.ticket + 1).toNat
    refine forall_set hi hs.range ?_ ?_
    · intro t ht
      obtain rfl : s.shared.ticket = t := Option.some.inj ht
      omega
    · intro j q _ _ hq t ht
      have := hq t ht
      omega
  · intro j k q r hj hk t hq hr
    rcases at_set hi hj with ⟨rfl, rfl⟩ | ⟨hji, hj'⟩
    · rcases at_set hi hk with ⟨rfl, rfl⟩ | ⟨hki, hk'⟩
      · rfl
      · obtain rfl : s.shared.ticket = t := Option.some.inj hq
        exact absurd hr (hfresh k r hk')
    · rcases at_set hi hk with ⟨rfl, rfl⟩ | ⟨hki, hk'⟩
      · obtain rfl : s.shared.ticket = t := Option.some.inj hr
        exact absurd hq (hfresh j q hj')
      · exact hs.distinct j k q r hj' hk' t hq hr
  · exact forall_set hi hs.turn (by simp [Place.turn]) (fun j q _ _ hq => hq)

/-- The writer whose turn it was passes the turn on. -/
theorem Queued.passOn {s : System} {tkt : UInt64}
    (hs : Queued served s) (hi : s.locals[i]? = some (.addCurWriter tkt)) :
    Queued (served + 1) ⟨{ s.shared with curWriter := s.shared.curWriter + 1 },
      s.locals.set i .idle⟩ := by
  have hturn : s.shared.curWriter.toNat = tkt.toNat := by
    rw [← hs.turn i _ hi tkt rfl, UInt32.toNat_toUInt64]
  have hrange := hs.range i _ hi tkt rfl
  have hcurrent := hs.current
  have hbound := hs.bound
  have hlt := s.shared.curWriter.toNat_lt
  have hserved : served < 2 ^ 32 ∧ tkt.toNat = served := by omega
  refine ⟨hserved.1, ?_, ?_, ?_, ?_, ?_⟩
  · show (s.shared.curWriter + 1).toNat = _
    rw [UInt32.toNat_add, UInt32.toNat_one]
    omega
  · have hstep : (s.locals.set i _).countP Place.hasTicket + 1 =
        s.locals.countP Place.hasTicket + 0 :=
      countP_step Place.hasTicket .idle hi
    have hissued := hs.issued
    show s.shared.ticket.toNat = served + 1 + (s.locals.set i _).countP _
    omega
  · refine forall_set hi hs.range (by simp [Place.ticket]) ?_
    intro j q hne hj hq t ht
    refine ⟨?_, (hq t ht).2⟩
    -- another ticket, so a later one
    have hother : t ≠ tkt := by
      rintro rfl
      exact hne (hs.distinct j i q _ hj hi t ht rfl)
    have : t.toNat ≠ tkt.toNat := fun h => hother (UInt64.toNat_inj.mp h)
    have := (hq t ht).1
    omega
  · intro j k q r hj hk t hq hr
    rcases at_set hi hj with ⟨rfl, rfl⟩ | ⟨hji, hj'⟩
    · cases hq
    · rcases at_set hi hk with ⟨rfl, rfl⟩ | ⟨hki, hk'⟩
      · cases hr
      · exact hs.distinct j k q r hj' hk' t hq hr
  · -- nobody else was let in
    refine forall_set hi hs.turn (by simp [Place.turn]) ?_
    intro j q hne hj _ t ht
    exact absurd (hs.turn_unique hj hi ht (u := tkt) rfl) hne

theorem Queued.step {s : System} (hs : Queued served s)
    (hcount : Counted s) (hi : s.locals[i]? = some p) (h : Effect mv s.shared p s' p') :
    ∃ served', Queued served' ⟨s', s.locals.set i p'⟩ := by
  cases h with
  | takeTicket => exact ⟨served, hs.draw hcount hi⟩
  | passOn => exact ⟨served + 1, hs.passOn hi⟩
  | look hsame hclaim hturn => exact ⟨served, hs.quiet hi rfl rfl hsame.ticket hturn⟩
  | enter hnone hsame hturn =>
    exact ⟨served, hs.quiet hi rfl rfl hsame.ticket (by simp [hturn])⟩
  | takeAway => exact ⟨served, hs.quiet hi rfl rfl (ticket_afterUpdate _ _) (by simp)⟩
  | addReader | addWriter | readUnlock =>
    exact ⟨served, hs.quiet hi rfl rfl rfl (by simp [Place.turn])⟩
  | writeUnlock => exact ⟨served, hs.quiet hi rfl rfl rfl (fun t ht => Or.inl ht)⟩

/-! ### Exclusion -/

structure Inv (s : System) : Prop where
  counted : Counted s
  relied : Relied s
  queued : ∃ served, Queued served s

theorem inv_start (n : Nat) : Inv (start n) := by
  have hidle : ∀ (i : Nat) (p : Place), (start n).locals[i]? = some p → p = .idle := by
    intro i p hi
    exact List.eq_of_mem_replicate (List.mem_of_getElem? hi)
  have hnone (f : Place → Bool) (hf : f .idle = false) : (start n).locals.countP f = 0 := by
    rw [List.countP_eq_zero]
    intro p hp
    rw [List.eq_of_mem_replicate hp, hf]
    exact Bool.false_ne_true
  refine ⟨⟨?_, ?_⟩, ?_, 0, by simp, rfl, ?_, ?_, ?_, ?_⟩
  · exact (hnone _ rfl).symm
  · exact (hnone _ rfl).symm
  · intro i p hi m hm
    rw [hidle i p hi] at hm
    cases hm
  · rw [hnone _ rfl]
    rfl
  · intro i p hi t ht
    rw [hidle i p hi] at ht
    cases ht
  · intro i j p q hi hj t hp
    rw [hidle i p hi] at hp
    cases hp
  · intro i p hi t ht
    rw [hidle i p hi] at ht
    cases ht

theorem Inv.step {s s' : System} {mv : Nat × Move} (hs : Inv s)
    (h : StepIf next Current mv s s') : Inv s' := by
  obtain ⟨p, sh, p', hi, hnext, hc, rfl⟩ := h.cases
  have heffect := next_effect hnext
  obtain ⟨served, hq⟩ := hs.queued
  exact ⟨hs.counted.step hi heffect hc, hs.relied.step hs.counted hi heffect hc,
    hq.step hs.counted hi heffect⟩

theorem Inv.exclusive {s : System} (hs : Inv s) : Exclusive s := by
  rintro i j p q hi hj hne ⟨t, rfl⟩
  have hmode := hs.relied i _ hi .write rfl
  constructor
  · rintro rfl
    have := hs.relied j _ hj .read rfl
    rw [hmode] at this
    cases this
  · rintro ⟨u, rfl⟩
    obtain ⟨served, hq⟩ := hs.queued
    exact hne (hq.turn_unique hi hj (t := t) (u := u) rfl rfl)

/-- **The lock is exclusive in every run in which `UpdateMode` takes a mode away only
while the count it looked at is still zero, and the counts do not wrap.** -/
theorem exclusive_of_current {n : Nat} {mvs : List (Nat × Move)} {s : System}
    (h : Along (StepIf next Current) mvs (start n) s) : Exclusive s :=
  (h.invariant (fun _ _ _ _ hs hstep => hs.step hstep) (inv_start n)).exclusive

/-! ### What the lock is for -/

theorem holdsRead_iff : (p == .reading) = true ↔ p.HoldsRead := by
  simp [Place.HoldsRead]

theorem isWriting_iff : p.isWriting = true ↔ p.HoldsWrite := by
  cases p with
  | writing t => exact ⟨fun _ => ⟨t, rfl⟩, fun _ => rfl⟩
  | _ => simp [Place.isWriting, Place.HoldsWrite]

theorem grant_writer_iff {s : System} :
    s.grant.writer = true ↔ ∃ p ∈ s.locals, p.HoldsWrite := by
  simp only [System.grant, List.any_eq_true, isWriting_iff]

theorem grant_readers_pos {s : System} :
    0 < s.grant.readers ↔ ∃ p ∈ s.locals, p.HoldsRead := by
  simp only [System.grant, List.countP_pos_iff, holdsRead_iff]

theorem next_reading (h : next mv s .reading = some (s', p')) : p' = .idle := by
  cases mv with
  | unlock =>
    obtain ⟨-, rfl⟩ := Prod.mk.inj (Option.some.inj h)
    rfl
  | _ => cases h

theorem next_writing (h : next mv s (.writing t) = some (s', p')) :
    p' = .addCurWriter t := by
  cases mv with
  | unlock =>
    obtain ⟨-, rfl⟩ := Prod.mk.inj (Option.some.inj h)
    rfl
  | _ => cases h

/-- Another thread than the one at `i` has the lock in the way `P` says. -/
def Others (P : Place → Prop) (i : Nat) (s : System) : Prop :=
  ∃ (j : Nat) (q : Place), j ≠ i ∧ s.locals[j]? = some q ∧ P q

theorem Others.set {P : Place → Prop} {s : System} {sh : Shared} (h : Others P i s) :
    Others P i ⟨sh, s.locals.set i p'⟩ := by
  obtain ⟨j, q, hne, hj, hq⟩ := h
  refine ⟨j, q, hne, ?_, hq⟩
  rw [List.getElem?_set_ne (Ne.symm hne)]
  exact hj

/-- No other thread has an exclusive lock with a writer. -/
theorem Exclusive.not_others {s : System} (h : Exclusive s)
    (hi : s.locals[i]? = some p) (hp : p.HoldsWrite) :
    ¬ Others Place.HoldsRead i s ∧ ¬ Others Place.HoldsWrite i s := by
  constructor
  · rintro ⟨j, q, hne, hj, hq⟩
    exact (h i j p q hi hj (Ne.symm hne) hp).1 hq
  · rintro ⟨j, q, hne, hj, hq⟩
    exact (h i j p q hi hj (Ne.symm hne) hp).2 hq

/-- A step of the code leaves who has the lock alone, or lets one thread in or out. -/
theorem Inv.step_grant {s s' : System} {mv : Nat × Move} (hs : Inv s)
    (h : StepIf next Current mv s s') : s.grant.Moves s'.grant := by
  have hexclusive := (hs.step h).exclusive
  obtain ⟨p, sh, p', hi, hnext, hc, rfl⟩ := h.cases
  have hlt : mv.1 < s.locals.length := (List.getElem?_eq_some_iff.mp hi).1
  have hi' : (s.locals.set mv.1 p')[mv.1]? = some p' := List.getElem?_set_self hlt
  have hcount : (System.grant ⟨sh, s.locals.set mv.1 p'⟩).readers +
      (if p == .reading then 1 else 0) =
      s.grant.readers + (if p' == .reading then 1 else 0) := countP_step _ p' hi
  have hwriter : s.grant.writer = true ↔ p.HoldsWrite ∨ Others Place.HoldsWrite mv.1 s :=
    grant_writer_iff.trans (exists_mem_iff hi)
  have hwriter' : (System.grant ⟨sh, s.locals.set mv.1 p'⟩).writer = true ↔
      p'.HoldsWrite ∨ Others Place.HoldsWrite mv.1 s :=
    grant_writer_iff.trans (exists_mem_set_iff hi)
  have hreader : 0 < s.grant.readers ↔ p.HoldsRead ∨ Others Place.HoldsRead mv.1 s :=
    grant_readers_pos.trans (exists_mem_iff hi)
  generalize hg : s.grant = g at *
  generalize hg' : System.grant ⟨sh, s.locals.set mv.1 p'⟩ = g' at *
  obtain ⟨r, w⟩ := g
  obtain ⟨r', w'⟩ := g'
  simp only at hcount hwriter hwriter' hreader
  by_cases hr : p.HoldsRead
  · obtain rfl : p = .reading := hr
    obtain rfl := next_reading hnext
    have hsame : w' = w := by
      rw [Bool.eq_iff_iff, hwriter, hwriter']
      simp [Place.HoldsWrite]
    simp at hcount
    exact Or.inr (Or.inr (Or.inr (Or.inl (by simp [Grant.readUnlock, hsame, ← hcount]))))
  by_cases hw : p.HoldsWrite
  · have halone := (hs.exclusive.not_others hi hw).2
    obtain ⟨t, rfl⟩ := hw
    obtain rfl := next_writing hnext
    have hfalse : w' = false := by
      rw [← Bool.not_eq_true, hwriter']
      simp [Place.HoldsWrite, halone]
    simp at hcount
    exact Or.inr (Or.inr (Or.inr (Or.inr (by simp [Grant.writeUnlock, hfalse, hcount]))))
  have hnot : (p == Place.reading) = false := by
    rw [← Bool.not_eq_true, holdsRead_iff]
    exact hr
  by_cases hr' : p'.HoldsRead
  · have halone : ¬ Others Place.HoldsWrite mv.1 s := by
      intro ho
      have hset : Others Place.HoldsWrite mv.1 ⟨sh, s.locals.set mv.1 p'⟩ := ho.set
      obtain ⟨j, q, hne, hj, hq⟩ := hset
      exact (hexclusive j mv.1 q p' hj hi' hne hq).1 hr'
    obtain rfl : p' = .reading := hr'
    have hfalse : w = false := by
      rw [← Bool.not_eq_true, hwriter]
      simp [hw, halone]
    have hfalse' : w' = false := by
      rw [← Bool.not_eq_true, hwriter']
      simp [Place.HoldsWrite, halone]
    simp [hnot] at hcount
    exact Or.inr (Or.inl (by simp [Grant.readLock, hfalse, hfalse', hcount]))
  have hnot' : (p' == Place.reading) = false := by
    rw [← Bool.not_eq_true, holdsRead_iff]
    exact hr'
  simp only [hnot, hnot', Bool.false_eq_true, if_false, Nat.add_zero] at hcount
  by_cases hw' : p'.HoldsWrite
  · have halone := hexclusive.not_others hi' hw'
    have hnoWriter : ¬ Others Place.HoldsWrite mv.1 s := fun ho => halone.2 ho.set
    have hnoReader : ¬ Others Place.HoldsRead mv.1 s := fun ho => halone.1 ho.set
    have hfalse : w = false := by
      rw [← Bool.not_eq_true, hwriter]
      simp [hw, hnoWriter]
    have htrue : w' = true := hwriter'.mpr (Or.inl hw')
    have hzero : r = 0 := by
      by_contra hpos
      exact absurd (hreader.mp (Nat.pos_of_ne_zero hpos)) (by simp [hr, hnoReader])
    exact Or.inr (Or.inr (Or.inl (by simp [Grant.writeLock, hfalse, htrue, hzero, hcount])))
  · have hsame : w' = w := by
      rw [Bool.eq_iff_iff, hwriter, hwriter']
      simp [hw, hw']
    exact Or.inl (by rw [hcount, hsame])

/-- A thread writes, unlocks, and another takes the mode away and reads. -/
def handover : List (Nat × Move) :=
  [(0, .writeLock)] ++ List.replicate 8 (0, .go false) ++ [(0, .unlock), (0, .go false),
    (1, .readLock)] ++ List.replicate 9 (1, .go false)

/-- **In such a run every step leaves who has the lock alone, or is one operation of a lock
with many readers or one writer.** -/
theorem grants_of_current {n : Nat} {mvs : List (Nat × Move)} {mv : Nat × Move} {s s' : System}
    (h : Along (StepIf next Current) mvs (start n) s) (hstep : StepIf next Current mv s s') :
    s.grant.Moves s'.grant :=
  (h.invariant (fun _ _ _ _ hs hstep => hs.step hstep) (inv_start n)).step_grant hstep

/-- The exchange that ends the handover lets the reader in. -/
theorem grants_in_handover : ∃ s s' : System, Along (StepIf next Current) handover.dropLast (start 2) s ∧
    StepIf next Current (1, .go false) s s' ∧ s.grant = .free ∧ s'.grant = ⟨1, false⟩ ∧
      s.grant.Moves s'.grant := by
  have hrun : Along (StepIf next Current) handover.dropLast (start 2)
      ⟨⟨.none, 1, 0, 1, 1⟩, [.idle, .casRead]⟩ := along_guarded (by decide +kernel)
  have hstep : StepIf next Current (1, .go false) ⟨⟨.none, 1, 0, 1, 1⟩, [.idle, .casRead]⟩
      ⟨⟨.read, 1, 0, 1, 1⟩, [.idle, .reading]⟩ := by
    refine ⟨by decide +kernel, fun p hp => ?_⟩
    obtain rfl := Option.some.inj hp
    decide
  exact ⟨_, _, hrun, hstep, by decide, by decide, grants_of_current hrun hstep⟩

theorem exclusive_after_handover :
    ∃ s, Along (StepIf next Current) handover (start 2) s ∧ s.locals = [.idle, .reading] ∧
      Exclusive s := by
  have hrun : Along (StepIf next Current) handover (start 2)
      ⟨⟨.read, 1, 0, 1, 1⟩, [.idle, .reading]⟩ := along_guarded (by decide +kernel)
  exact ⟨_, hrun, rfl, exclusive_of_current hrun⟩

/-- Thread 1 finds the mode to be `write` with no writer, thread 2 gets the lock for writing
in that mode, and then the exchange of thread 1 succeeds. -/
def staleCount : List (Nat × Move) :=
  [(0, .writeLock)] ++ List.replicate 8 (0, .go false) ++ [(0, .unlock), (0, .go false),
    (1, .readLock)] ++ List.replicate 4 (1, .go false) ++
    [(2, .writeLock)] ++ List.replicate 6 (2, .go false) ++ List.replicate 5 (1, .go false)

/-- **In general the lock is not exclusive.** -/
theorem not_exclusive_staleCount :
    ∃ s, steps next staleCount (start 3) = some s ∧ s.locals = [.idle, .reading, .writing 1] ∧
      ¬ Exclusive s := by
  refine ⟨⟨⟨.read, 1, 1, 1, 2⟩, [.idle, .reading, .writing 1]⟩, by decide +kernel, rfl, ?_⟩
  intro h
  exact (h 2 1 _ _ rfl rfl (by decide) ⟨1, rfl⟩).1 rfl

end RwLock
end IowarpCore
