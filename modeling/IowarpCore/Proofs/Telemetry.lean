/-
Reading the telemetry log is not a look at it.

What is logged stands behind the head, and entry `i` is where position `head + i` points to
as long as it has not been written over.  So the entries that are left are found at the head
again, rounds earlier than where they were written: at the head itself stands the oldest of
them, or else the first entry read is the wrong one.

The entries that were read go behind all others, in reverse.  With two entries or more
another one is then the first.
-/
import IowarpCore.Cte.Telemetry
import IowarpCore.Proofs.RingStorage

namespace IowarpCore
namespace Cte

open Wire RingBuffer

namespace Telemetry

variable {t : Telemetry} {log log' : RingBuffer.Ring CteTelemetry} {q : List CteTelemetry} {e : CteTelemetry}

/-! ### A log some rounds ahead -/

/-- Behind the head stand these entries, and the tail may be some rounds further than
that. -/
structure Window (log : RingBuffer.Ring CteTelemetry) (rounds : Nat) (q : List CteTelemetry) : Prop where
  le : rounds * log.size ≤ log.tail
  represents : Represents { log with tail := log.tail - rounds * log.size } q

namespace Window

variable {rounds : Nat}

theorem pop_cons (h : Window log rounds (e :: q)) :
    ∃ log', log.pop = (some e, log') ∧ Window log' rounds q ∧ log'.size = log.size := by
  obtain ⟨near, hpop, hnear, hdepth⟩ := h.represents.pop_cons
  have htail := h.represents.tail
  rw [List.length_cons] at htail
  dsimp only at htail
  have hle := h.le
  obtain ⟨hready, hdata⟩ := h.represents.entry 0 e rfl
  rw [Nat.add_zero] at hready hdata
  have hnear' : near =
      { log with
        tail := log.tail - rounds * log.size
        ready := Function.update log.ready (log.slot log.head) false
        head := log.head + 1 } := by
    rw [RingBuffer.Ring.pop, if_neg (by dsimp only; omega), if_pos hready, Prod.mk.injEq] at hpop
    exact hpop.2.symm
  refine ⟨{ log with
    ready := Function.update log.ready (log.slot log.head) false
    head := log.head + 1 }, ?_, ⟨hle, ?_⟩, rfl⟩
  · have hfirst : log.ready (log.slot log.head) = true := hready
    have hvalue : log.data (log.slot log.head) = e := hdata
    rw [RingBuffer.Ring.pop, if_neg (by omega), if_pos hfirst, hvalue]
  · rw [hnear'] at hnear
    exact hnear

theorem push (h : Window log rounds q) (e : CteTelemetry) (hroom : q.length < log.size) :
    Window (push log e) rounds (q ++ [e]) ∧ (Telemetry.push log e).size = log.size := by
  have hle := h.le
  -- The slot written is the one that the tail has without the rounds.
  have hslot : log.slot (log.tail - rounds * log.size) = log.slot log.tail := by
    unfold RingBuffer.Ring.slot
    rw [← Nat.add_mul_mod_self_right (log.tail - rounds * log.size) rounds log.size,
      Nat.sub_add_cancel hle]
  have hfill : Represents { log with
      tail := log.tail - rounds * log.size + 1
      data := Function.update log.data (log.slot (log.tail - rounds * log.size)) e
      ready := Function.update log.ready (log.slot (log.tail - rounds * log.size)) true }
      (q ++ [e]) := h.represents.fill e hroom
  have hsucc : log.tail - rounds * log.size + 1 = log.tail + 1 - rounds * log.size := by omega
  refine ⟨⟨Nat.le_succ_of_le hle, ?_⟩, rfl⟩
  rw [hslot, hsucc] at hfill
  exact hfill

/-- What `Pop` gives first. -/
theorem head_pops (h : Window log rounds (e :: q)) : log.pops.head? = some e := by
  obtain ⟨log', hpop, _⟩ := h.pop_cons
  have htail := h.represents.tail
  rw [List.length_cons] at htail
  dsimp only at htail
  have hsize : log.bufferSize = (log.tail - log.head - 1) + 1 := by
    rw [RingBuffer.Ring.bufferSize, if_pos (by omega)]
    omega
  rw [RingBuffer.Ring.pops, hsize, RingBuffer.Ring.popsFuel, hpop]
  rfl

theorem popLoop (n : Nat) :
    ∀ {log : RingBuffer.Ring CteTelemetry} {q : List CteTelemetry}, Window log rounds q → n ≤ q.length →
      (popLoop n log).1 = q.take n ∧ Window (Telemetry.popLoop n log).2 rounds (q.drop n) ∧
        (Telemetry.popLoop n log).2.size = log.size := by
  induction n with
  | zero =>
    intro log q h _
    exact ⟨rfl, h, rfl⟩
  | succ n ih =>
    intro log q h hn
    cases q with
    | nil => cases hn
    | cons e q =>
      obtain ⟨log', hpop, hlog', hsize⟩ := h.pop_cons
      obtain ⟨hread, hwindow, hsize'⟩ := ih hlog' (Nat.le_of_succ_le_succ hn)
      rw [Telemetry.popLoop, hpop]
      exact ⟨congrArg (List.cons e) hread, hwindow, hsize'.trans hsize⟩

theorem pushes (entries : List CteTelemetry) :
    ∀ {log : RingBuffer.Ring CteTelemetry} {q : List CteTelemetry}, Window log rounds q →
      q.length + entries.length ≤ log.size →
      Window (entries.foldl Telemetry.push log) rounds (q ++ entries) := by
  induction entries with
  | nil =>
    intro log q h _
    rw [List.append_nil]
    exact h
  | cons e entries ih =>
    intro log q h hle
    rw [List.length_cons] at hle
    obtain ⟨hpush, hsize⟩ := h.push e (by omega)
    have hrest := ih hpush (by
      rw [List.length_append, List.length_singleton, hsize]
      omega)
    rw [List.append_assoc] at hrest
    exact hrest

end Window

/-- A loop that stopped early would have read as much with less to read. -/
theorem popLoop_length (n : Nat) :
    ∀ log : RingBuffer.Ring CteTelemetry, popLoop (popLoop n log).1.length log = popLoop n log := by
  induction n with
  | zero =>
    intro log
    rfl
  | succ n ih =>
    intro log
    have hcases := pop_cases log
    cases hpop : log.pop with
    | mk popped log' =>
      rw [hpop] at hcases
      cases popped with
      | none =>
        rcases hcases with ⟨_, hsame⟩ | ⟨hsome, _⟩
        · dsimp only at hsame
          rw [popLoop, hpop, hsame]
          rfl
        · cases hsome
      | some e =>
        have hstep : popLoop (n + 1) log =
            (e :: (popLoop n log').1, (popLoop n log').2) := by
          rw [popLoop, hpop]
        rw [hstep, List.length_cons, popLoop, hpop]
        dsimp only
        rw [ih log']

/-! ### What a log keeps -/

/-- All of `logged` stands behind the head, and what has not been written over is there. -/
structure Keeps (log : RingBuffer.Ring CteTelemetry) (logged : List CteTelemetry) : Prop where
  tail : log.tail = log.head + logged.length
  entry : ∀ i v, logged[i]? = some v → logged.length ≤ i + log.size →
    log.ready (log.slot (log.head + i)) = true ∧ log.data (log.slot (log.head + i)) = v

variable {logged : List CteTelemetry}

theorem keeps_of_represents (h : Represents log logged) : Keeps log logged :=
  ⟨h.tail, fun i v hi _ => h.entry i v hi⟩

theorem Keeps.push (h : Keeps log logged) (e : CteTelemetry) :
    Keeps (push log e) (logged ++ [e]) where
  tail := by
    show log.tail + 1 = log.head + (logged ++ [e]).length
    rw [h.tail, List.length_append, List.length_singleton, Nat.add_assoc]
  entry := by
    intro i v hi hrecent
    rw [List.length_append, List.length_singleton] at hrecent
    have hrecent' : logged.length + 1 ≤ i + log.size := hrecent
    show Function.update log.ready (log.slot log.tail) true (log.slot (log.head + i)) = true ∧
      Function.update log.data (log.slot log.tail) e (log.slot (log.head + i)) = v
    by_cases hlt : i < logged.length
    · rw [List.getElem?_append_left hlt] at hi
      have hne : log.slot (log.head + i) ≠ log.slot log.tail := by
        intro hslot
        rw [h.tail] at hslot
        -- The two positions lie in one window, though not in the one behind the head.
        have hsame : log.head + i = log.head + logged.length := slot_inj
          (r := { log with head := log.head + i }) (Nat.le_refl _)
          (show log.head + i ≤ log.head + logged.length by omega)
          (show log.head + i < log.head + i + log.size by omega)
          (show log.head + logged.length < log.head + i + log.size by omega) hslot
        omega
      rw [Function.update_of_ne hne, Function.update_of_ne hne]
      exact h.entry i v hi (by omega)
    · have hlast : i = logged.length := by
        have := (List.getElem?_eq_some_iff.mp hi).1
        rw [List.length_append, List.length_singleton] at this
        omega
      rw [hlast, List.getElem?_concat_length, Option.some.injEq] at hi
      rw [hlast, ← h.tail, Function.update_self, Function.update_self]
      exact ⟨rfl, hi⟩

/-- Rounds can be left out if what follows them is still there. -/
theorem Keeps.window (h : Keeps log logged) (rounds : Nat)
    (hle : rounds * log.size ≤ logged.length)
    (hrecent : logged.length ≤ rounds * log.size + log.size) :
    Window log rounds (logged.drop (rounds * log.size)) := by
  have htail := h.tail
  refine ⟨by omega, ?_, ?_, fun i v hi => ?_⟩
  · show log.tail - rounds * log.size = log.head + (logged.drop (rounds * log.size)).length
    rw [List.length_drop]
    omega
  · show (logged.drop (rounds * log.size)).length ≤ log.size
    rw [List.length_drop]
    omega
  · rw [List.getElem?_drop] at hi
    have hslot : log.slot (log.head + (rounds * log.size + i)) = log.slot (log.head + i) := by
      rw [RingBuffer.Ring.slot, RingBuffer.Ring.slot, Nat.add_comm (rounds * log.size) i,
        ← Nat.add_assoc, Nat.add_mul_mod_self_right]
    have hentry := h.entry _ v hi (by omega)
    rw [hslot] at hentry
    exact hentry

theorem Keeps.bufferSize (h : Keeps log logged) : log.bufferSize = logged.length := by
  rw [RingBuffer.Ring.bufferSize, h.tail, if_pos (by omega)]
  omega

/-- A read of no entry or of the only one. -/
theorem Keeps.small (h : Keeps t.log logged) {maxEntries : Nat}
    (hsmall : maxEntries = 0 ∨ t.log.bufferSize ≤ 1) :
    (t.getTelemetryEntries maxEntries).1 =
      (logged.drop (logged.length - t.log.size)).take maxEntries ∧
    Keeps (t.getTelemetryEntries maxEntries).2.log logged ∧
    (t.getTelemetryEntries maxEntries).2.counter = t.counter ∧
    (t.getTelemetryEntries maxEntries).2.log.size = t.log.size ∧
    (t.getTelemetryEntries maxEntries).2.log.pops = t.log.pops := by
  have hsize := h.bufferSize
  have hslots : 0 < t.log.size := Nat.succ_pos _
  by_cases hnone : min maxEntries t.log.bufferSize = 0
  · -- Nothing is popped.
    have hget : t.getTelemetryEntries maxEntries = ([], t) := by
      rw [getTelemetryEntries, hnone]
      rfl
    rw [hget]
    refine ⟨?_, h, rfl, rfl, rfl⟩
    rw [hsize] at hnone
    rcases Nat.min_eq_zero_iff.mp hnone with hzero | hempty
    · rw [hzero, List.take_zero]
    · rw [List.eq_nil_of_length_eq_zero hempty, List.drop_nil, List.take_nil]
  · have hmax : maxEntries ≠ 0 := fun hzero => hnone (by rw [hzero, Nat.zero_min])
    have hone : t.log.bufferSize = 1 := by
      have := hsmall.resolve_left hmax
      omega
    obtain ⟨e, rfl⟩ := List.length_eq_one_iff.mp (hsize.symm.trans hone)
    have hwindow : Window t.log 0 [e] := by
      have := h.window 0 (by omega) (by
        rw [List.length_singleton]
        omega)
      rwa [Nat.zero_mul, List.drop_zero] at this
    obtain ⟨hread, hrest, hsame⟩ := hwindow.popLoop 1 (Nat.le_refl _)
    have hback := hrest.pushes [e] (by
      rw [hsame]
      exact hslots)
    have hget : t.getTelemetryEntries maxEntries =
        ([e], ⟨t.counter, Telemetry.push (popLoop 1 t.log).2 e⟩) := by
      have hmin : min maxEntries t.log.bufferSize = 1 := by omega
      rw [getTelemetryEntries, hmin, hread]
      rfl
    rw [hget]
    have hrep : Represents (Telemetry.push (popLoop 1 t.log).2 e) [e] := by
      have := hback.represents
      rwa [Nat.zero_mul] at this
    have hrep' : Represents t.log [e] := by
      have := hwindow.represents
      rwa [Nat.zero_mul] at this
    refine ⟨?_, keeps_of_represents hrep, rfl, hsame, ?_⟩
    · rw [List.length_singleton, Nat.sub_eq_zero_of_le hslots, List.drop_zero,
        List.take_of_length_le (by rw [List.length_singleton]; omega)]
    · rw [hrep.pops, hrep'.pops]

end Telemetry

/-! ### Runs -/

namespace TelemetryRun

open Telemetry

variable {s s' : TelemetryRun}

structure Inv (s : TelemetryRun) : Prop where
  size : s.state.log.size = kTelemetryRingSize + 1
  keeps : Keeps s.state.log s.logged
  counter : s.state.counter = UInt64.ofNat s.logged.length
  time : ∀ i e, s.logged[i]? = some e → e.logicalTime = UInt64.ofNat (i + 1)

theorem inv_new : Inv new :=
  ⟨rfl, keeps_of_represents (Represents.new _), rfl, fun i e h => by cases h⟩

theorem Inv.small {maxEntries : Nat} (h : Inv s) (hsmall : s.Small maxEntries) :
    Inv ⟨(s.state.getTelemetryEntries maxEntries).2, s.logged⟩ := by
  obtain ⟨_, hkeeps, hcounter, hsize, _⟩ := h.keeps.small hsmall
  exact ⟨hsize.trans h.size, hkeeps, hcounter.trans h.counter, h.time⟩

theorem Inv.takes {call : TelemetryCall} (h : Inv s) (hcall : TakesSmall call s s') : Inv s' := by
  obtain ⟨rfl, hsmall⟩ := hcall
  cases call with
  | log op off size tagId blobHash modTime readTime =>
    have hnext : s.state.counter + 1 = UInt64.ofNat (s.logged.length + 1) := by
      rw [h.counter, UInt64.ofNat_add]
      rfl
    refine ⟨h.size, h.keeps.push _, ?_, fun i e hi => ?_⟩
    · show s.state.counter + 1 = UInt64.ofNat (s.logged ++ [_]).length
      rw [List.length_append, List.length_singleton]
      exact hnext
    · by_cases hlt : i < s.logged.length
      · have hi' : (s.logged ++ [_])[i]? = some e := hi
        rw [List.getElem?_append_left hlt] at hi'
        exact h.time i e hi'
      · have hi' : (s.logged ++ [_])[i]? = some e := hi
        have hlast : i = s.logged.length := by
          have := (List.getElem?_eq_some_iff.mp hi').1
          rw [List.length_append, List.length_singleton] at this
          omega
        rw [hlast, List.getElem?_concat_length, Option.some.injEq] at hi'
        rw [← hi', hlast]
        exact hnext
  | get maxEntries => exact h.small hsmall
  | poll minimumLogicalTime => exact h.small hsmall

theorem Inv.time_toNat (h : Inv s) (hlt : s.logged.length < 2 ^ 64) {i : Nat} {e : CteTelemetry}
    (hi : s.logged[i]? = some e) : e.logicalTime.toNat = i + 1 := by
  have hi' := (List.getElem?_eq_some_iff.mp hi).1
  rw [h.time i e hi]
  exact Nat.mod_eq_of_lt (by omega)

/-- Entries at different places have different times. -/
theorem Inv.place_inj (h : Inv s) (hlt : s.logged.length < 2 ^ 64) {i j : Nat}
    (hi : i < s.logged.length) (hsame : s.logged[i]? = s.logged[j]?) : i = j := by
  have hget := List.getElem?_eq_getElem hi
  have h₁ := h.time_toNat hlt hget
  have h₂ := h.time_toNat hlt (hsame.symm.trans hget)
  omega

theorem Inv.ordered (h : Inv s) (hlt : s.logged.length < 2 ^ 64) :
    s.logged.Pairwise fun e e' => e.logicalTime < e'.logicalTime := by
  rw [List.pairwise_iff_getElem]
  intro i j hi hj hij
  rw [UInt64.lt_iff_toNat_lt, h.time_toNat hlt (List.getElem?_eq_getElem hi),
    h.time_toNat hlt (List.getElem?_eq_getElem hj)]
  omega

/-- What comes first when the first `j` of a list go behind the rest in reverse. -/
theorem head?_moved {q : List CteTelemetry} {j : Nat} (hq : 2 ≤ q.length) (hj : 0 < j)
    (hle : j ≤ q.length) :
    ∃ i, 0 < i ∧ i < q.length ∧ (q.drop j ++ (q.take j).reverse).head? = q[i]? := by
  by_cases hlt : j < q.length
  · refine ⟨j, hj, hlt, ?_⟩
    rw [List.head?_append, List.head?_drop, List.getElem?_eq_getElem hlt]
    rfl
  · refine ⟨q.length - 1, by omega, by omega, ?_⟩
    rw [List.drop_of_length_le (by omega), List.take_of_length_le (by omega), List.nil_append,
      List.head?_reverse, List.getLast?_eq_getElem?]

/-- A read with two entries or more to look at. -/
theorem Inv.not_peeks {maxEntries : Nat} (h : Inv s) (hlt : s.logged.length < 2 ^ 64)
    (hmax : maxEntries ≠ 0) (htwo : 2 ≤ s.logged.length) : ¬s.Peeks maxEntries := by
  intro hpeeks
  have hslots : s.state.log.size = 1025 := h.size
  have hsize := h.keeps.bufferSize
  obtain ⟨rounds, hrounds⟩ : ∃ rounds, rounds = (s.logged.length - 1) / 1025 := ⟨_, rfl⟩
  have hdiv := Nat.div_add_mod (s.logged.length - 1) 1025
  have hmod := Nat.mod_lt (s.logged.length - 1) (show 0 < 1025 by decide)
  rw [← hrounds] at hdiv
  have hwindow := h.keeps.window rounds (by rw [hslots]; omega) (by rw [hslots]; omega)
  rw [hslots] at hwindow
  obtain ⟨q, hq⟩ : ∃ q, q = s.logged.drop (rounds * 1025) := ⟨_, rfl⟩
  have hlength : q.length = s.logged.length - rounds * 1025 := by rw [hq, List.length_drop]
  have hplace : ∀ i : Nat, q[i]? = s.logged[rounds * 1025 + i]? := by
    intro i
    rw [hq, List.getElem?_drop]
  rw [← hq] at hwindow
  have hone : 0 < min maxEntries s.state.log.bufferSize := by omega
  obtain ⟨e, rest, heq⟩ := List.exists_cons_of_length_pos (l := q) (by omega)
  have hfirst : (s.state.getTelemetryEntries maxEntries).1.head? = q[0]? := by
    obtain ⟨n, hn⟩ := Nat.exists_eq_succ_of_ne_zero (Nat.pos_iff_ne_zero.mp hone)
    rw [heq] at hwindow
    obtain ⟨log', hpop, _⟩ := hwindow.pop_cons
    show (popLoop (min maxEntries s.state.log.bufferSize) s.state.log).1.head? = _
    rw [hn, popLoop, hpop, heq]
    rfl
  -- The first entry that is read is the oldest, so the window is what is retained.
  have hread := hpeeks.oldest
  have holdest : rounds * 1025 = s.logged.length - 1025 := by
    rw [hread, retained, hslots, List.head?_take, if_neg hmax, List.head?_drop, hplace,
      Nat.add_zero] at hfirst
    exact h.place_inj hlt (by omega) hfirst.symm
  have hretained : s.retained = q := by rw [retained, hslots, ← holdest, hq]
  rw [hretained] at hread
  -- So many were popped, and these go behind the rest.
  have hj : (q.take maxEntries).length = min maxEntries q.length := List.length_take
  have hloop := popLoop_length (min maxEntries s.state.log.bufferSize) s.state.log
  have hpopped : (popLoop (min maxEntries s.state.log.bufferSize) s.state.log).1 =
      q.take maxEntries := hread
  rw [hpopped, hj] at hloop
  obtain ⟨_, hrest, hsame⟩ := hwindow.popLoop (min maxEntries q.length) (Nat.min_le_right _ _)
  rw [hloop] at hrest hsame
  have hback := hrest.pushes (q.take maxEntries).reverse (by
    rw [List.length_reverse, hj, List.length_drop, hsame, hslots]
    omega)
  have htake : q.take maxEntries = q.take (min maxEntries q.length) := by
    rw [← List.take_take, List.take_length]
  obtain ⟨i, hi, hilt, hmoved⟩ := head?_moved (j := min maxEntries q.length)
    (show 2 ≤ q.length by omega) (by omega) (Nat.min_le_right _ _)
  have hunchanged := hpeeks.unchanged
  obtain ⟨e', rest', heq'⟩ : ∃ e' rest', q.drop (min maxEntries q.length) ++
      (q.take maxEntries).reverse = e' :: rest' := by
    refine List.exists_cons_of_length_pos ?_
    rw [List.length_append, List.length_reverse, hj, List.length_drop]
    omega
  rw [heq'] at hback
  have hafter : (s.state.getTelemetryEntries maxEntries).2.log.pops.head? = some e' := by
    show ((popLoop (min maxEntries s.state.log.bufferSize) s.state.log).1.reverse.foldl
      Telemetry.push (popLoop (min maxEntries s.state.log.bufferSize) s.state.log).2).pops.head? = _
    rw [hpopped]
    exact hback.head_pops
  have hbefore : s.state.log.pops.head? = some e := by
    rw [heq] at hwindow
    exact hwindow.head_pops
  rw [← htake, heq', List.head?_cons, hplace] at hmoved
  rw [hunchanged, hbefore, hmoved] at hafter
  have hzero := hplace 0
  rw [heq, List.getElem?_cons_zero, Nat.add_zero] at hzero
  have := h.place_inj hlt (by omega) (hzero.symm.trans hafter)
  omega

/--
**When reading the telemetry log is a look at it.**  After any calls that log less than 2^64
entries, and read only with at most one entry to look at, a read gives the oldest retained
entries in the order of their times and leaves the log as it was exactly if it asks for none
or there is at most one entry; and then polling twice for the same time gives the same.
-/
theorem peeks_iff {calls : List TelemetryCall} (h : Along TakesSmall calls new s)
    (hlt : s.logged.length < 2 ^ 64) :
    (∀ maxEntries, s.Peeks maxEntries ↔ s.Small maxEntries) ∧
    (s.Small 1000 → ∀ minimumLogicalTime,
      ((s.state.pollTelemetryLog minimumLogicalTime).2.pollTelemetryLog minimumLogicalTime).1 =
        (s.state.pollTelemetryLog minimumLogicalTime).1) := by
  have hinv : Inv s := by
    refine h.invariant (I := Inv) ?_ inv_new
    intro call _ s₁ s₂ hs₁ hcall
    exact hs₁.takes hcall
  refine ⟨fun maxEntries => ⟨fun hpeeks => ?_, fun hsmall => ?_⟩, fun hsmall minimumLogicalTime => ?_⟩
  · by_contra hmany
    have hmax : maxEntries ≠ 0 := fun hzero => hmany (Or.inl hzero)
    refine hinv.not_peeks hlt hmax ?_ hpeeks
    by_contra hfew
    refine hmany (Or.inr ?_)
    rw [hinv.keeps.bufferSize]
    omega
  · obtain ⟨hread, _, _, _, hpops⟩ := hinv.keeps.small hsmall
    refine ⟨hread, ?_, hpops⟩
    rw [hread]
    exact (hinv.ordered hlt).sublist ((List.take_sublist _ _).trans (List.drop_sublist _ _))
  · obtain ⟨hread, hkeeps, _, hsize, _⟩ := hinv.keeps.small hsmall
    have hsmall' : 1000 = 0 ∨
        (s.state.getTelemetryEntries 1000).2.log.bufferSize ≤ 1 := by
      rw [hkeeps.bufferSize, ← hinv.keeps.bufferSize]
      exact hsmall
    obtain ⟨hread', _⟩ := hkeeps.small hsmall'
    have hsame : ((s.state.getTelemetryEntries 1000).2.getTelemetryEntries 1000).1 =
        (s.state.getTelemetryEntries 1000).1 := by
      rw [hread', hread, hsize]
    unfold Telemetry.pollTelemetryLog
    dsimp only
    rw [hsame]

/-- One entry is logged and polled; asking for one entry more often changes nothing. -/
theorem peeks_iff_one :
    ∃ s, Along TakesSmall [.log 0 0 10 .null 5 0 0, .poll 0] new s ∧ s.Peeks 7 := by
  have hrun : Along TakesSmall [.log 0 0 10 .null 5 0 0, .poll 0] new _ :=
    ⟨_, ⟨rfl, trivial⟩, _, ⟨rfl, Or.inr (by decide)⟩, rfl⟩
  exact ⟨_, hrun, ((peeks_iff hrun (by decide)).1 7).mpr (Or.inr (by decide))⟩

/-- Two entries: the second reading gives them in the other order. -/
theorem two_entries_swapped :
    let s := (new.take (.log 0 0 10 .null 5 0 0)).take (.log 1 0 10 .null 5 0 0)
    let read := s.state.getTelemetryEntries 100
    read.1.map CteTelemetry.logicalTime = [1, 2] ∧
      (read.2.getTelemetryEntries 100).1.map CteTelemetry.logicalTime = [2, 1] ∧
      ¬s.Peeks 100 := by
  have hrun : Along TakesSmall [.log 0 0 10 .null 5 0 0, .log 1 0 10 .null 5 0 0] new _ :=
    ⟨_, ⟨rfl, trivial⟩, _, ⟨rfl, trivial⟩, rfl⟩
  have hinv : Inv _ := hrun.invariant (fun call _ s₁ s₂ hs₁ hcall => hs₁.takes hcall) inv_new
  exact ⟨by decide, by decide, hinv.not_peeks (by decide) (by decide) (by decide)⟩

end TelemetryRun

end Cte
end IowarpCore
