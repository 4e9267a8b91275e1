/-
The reorganization queue loses nothing.

Positions are counted without wrapping: position `i` stands for the counter `start + i`,
and a slot belongs to one position of a window of `capacity` positions because the capacity
is a power of two and so divides `2 ^ 64`.  Each thread's own counter is exact, and the
other's can only have moved in the direction that leaves a test that failed true at the
moment of its load (`Inv`).
-/
import Mathlib.Data.List.Basic
import Mathlib.Algebra.Group.Nat.Defs
import IowarpCore.Wrapper.LockFreeQueue

namespace IowarpCore

namespace LockFreeQueue

variable {T : Type}

/-! ### Positions -/

/-- The counter of a position. -/
def pos (start : UInt64) (i : Nat) : UInt64 := start + UInt64.ofNat i

theorem pos_add (start : UInt64) (i j : Nat) : pos start i + UInt64.ofNat j = pos start (i + j) := by
  rw [pos, pos, UInt64.ofNat_add, UInt64.add_assoc]

theorem pos_succ (start : UInt64) (i : Nat) : pos start i + 1 = pos start (i + 1) :=
  pos_add start i 1

theorem toNat_pos (start : UInt64) (i : Nat) : (pos start i).toNat = (start.toNat + i) % 2 ^ 64 := by
  rw [pos, UInt64.toNat_add, UInt64.toNat_ofNat', Nat.add_mod_mod]

variable {i j : Nat} {capacity : UInt64}

theorem toNat_pos_sub (start : UInt64) (hle : i ≤ j) (hlt : j - i < 2 ^ 64) :
    (pos start j - pos start i).toNat = j - i := by
  have hj : pos start j = pos start i + UInt64.ofNat (j - i) := by
    rw [pos_add, Nat.add_sub_of_le hle]
  rw [hj, UInt64.add_comm, UInt64.add_sub_cancel, UInt64.toNat_ofNat', Nat.mod_eq_of_lt hlt]

theorem pos_eq_iff {start : UInt64} (hle : i ≤ j) (hlt : j - i < 2 ^ 64) :
    pos start j = pos start i ↔ i = j := by
  constructor
  · intro heq
    have hsub := toNat_pos_sub start hle hlt
    rw [heq, UInt64.sub_self] at hsub
    have hzero : (0 : UInt64).toNat = 0 := rfl
    omega
  · rintro rfl
    rfl

/-- A capacity that `next_power_of_two` returns. -/
def PowerOfTwo (capacity : UInt64) : Prop :=
  capacity = 0 ∨ ∃ k < 64, capacity.toNat = 2 ^ k

theorem powerOfTwo_nextPowerOfTwo (n : UInt64) : PowerOfTwo (nextPowerOfTwo n) := by
  obtain ⟨k, hk⟩ := Nat.isPowerOfTwo_nextPowerOfTwo n.toNat
  have htoNat : (nextPowerOfTwo n).toNat = 2 ^ k % 2 ^ 64 := by
    rw [nextPowerOfTwo, UInt64.toNat_ofNat', hk]
  by_cases hlt : k < 64
  · exact .inr ⟨k, hlt, by rw [htoNat, Nat.mod_eq_of_lt (Nat.pow_lt_pow_right (by decide) hlt)]⟩
  · refine .inl (UInt64.toNat_inj.mp ?_)
    rw [htoNat, Nat.mod_eq_zero_of_dvd (Nat.pow_dvd_pow 2 (Nat.le_of_not_lt hlt))]
    rfl

theorem PowerOfTwo.le (hcap : PowerOfTwo capacity) :
    capacity.toNat ≤ 2 ^ 63 := by
  obtain rfl | ⟨k, hlt, hk⟩ := hcap
  · exact Nat.zero_le _
  · rw [hk]
    exact Nat.pow_le_pow_right (by decide) (by omega)

/-- The mask reduces a position modulo the capacity. -/
theorem toNat_mask (hcap : PowerOfTwo capacity) (hpos : 0 < capacity.toNat)
    (start : UInt64) (i : Nat) :
    (pos start i &&& (capacity - 1)).toNat = (start.toNat + i) % capacity.toNat := by
  obtain rfl | ⟨k, hlt, hk⟩ := hcap
  · exact absurd hpos (by decide)
  have hone : (1 : UInt64) ≤ capacity := hpos
  have hmask : (capacity - 1).toNat = 2 ^ k - 1 := by
    rw [UInt64.toNat_sub_of_le _ _ hone, hk]
    rfl
  rw [UInt64.toNat_and, hmask, Nat.and_two_pow_sub_one_eq_mod, toNat_pos, hk,
    Nat.mod_mod_of_dvd _ (Nat.pow_dvd_pow 2 (by omega))]

theorem mask_lt (hcap : PowerOfTwo capacity) (hpos : 0 < capacity.toNat)
    (start : UInt64) (i : Nat) : pos start i &&& (capacity - 1) < capacity := by
  rw [UInt64.lt_iff_toNat_lt, toNat_mask hcap hpos]
  exact Nat.mod_lt _ hpos

/-- Positions of one window have slots of their own. -/
theorem mask_ne (hcap : PowerOfTwo capacity) (start : UInt64)
    (hij : i < j) (hlt : j < i + capacity.toNat) :
    pos start i &&& (capacity - 1) ≠ pos start j &&& (capacity - 1) := by
  intro heq
  have hmod := congrArg UInt64.toNat heq
  rw [toNat_mask hcap (by omega), toNat_mask hcap (by omega)] at hmod
  have hdvd : capacity.toNat ∣ (start.toNat + j) - (start.toNat + i) :=
    Nat.dvd_of_mod_eq_zero (Nat.sub_mod_eq_zero_of_mod_eq hmod.symm)
  have := Nat.eq_zero_of_dvd_of_lt hdvd (by omega)
  omega

/-! ### The invariant -/

namespace System

/-- The position that the consumer has emptied and not yet left. -/
def inHand (s : System T) : Nat :=
  match s.consumer with
  | .storeTail _ _ => 1
  | _ => 0

/-- What the locals of a producer are in the state they are used in. -/
def ProducerOk (s : System T) : Producer T → Prop
  | .idle => True
  | .loadHead _ => True
  | .loadTail _ head => head = s.queue.head
  | .writeSlot _ head => head = s.queue.head ∧ s.queued < s.queue.capacity.toNat
  | .storeHead item head => head = s.queue.head ∧ s.queued < s.queue.capacity.toNat ∧
      s.queue.buffer (s.queue.index head) = some item

/-- What the locals of a consumer are. -/
def ConsumerOk (s : System T) : Consumer T → Prop
  | .idle => True
  | .loadTail => True
  | .loadHead tail => tail = s.queue.tail
  | .takeSlot tail => tail = s.queue.tail ∧ s.consumed < s.pushed.length
  | .storeTail tail item => tail = s.queue.tail ∧ s.consumed < s.pushed.length ∧
      item = s.pushed[s.consumed]?

/-- What holds of every state, without the moments of the calls. -/
structure Inv (start : UInt64) (s : System T) : Prop where
  capacity : PowerOfTwo s.queue.capacity
  mask : s.queue.mask = s.queue.capacity - 1
  head : s.queue.head = pos start s.pushed.length
  tail : s.queue.tail = pos start s.consumed
  consumed : s.consumed ≤ s.pushed.length
  room : s.pushed.length ≤ s.consumed + s.queue.capacity.toNat
  producer : s.ProducerOk s.producer
  consumer : s.ConsumerOk s.consumer
  stored : ∀ i, s.consumed + s.inHand ≤ i → i < s.pushed.length →
    s.queue.buffer (s.queue.index (pos start i)) = s.pushed[i]?
  popped : s.popped = s.pushed.take s.consumed
  advanced : ∀ call ∈ s.pops, call.advanced = call.item.isSome

/-- The moments of a call that has not returned go up to now; of those that returned, the ones
that failed had their reason. -/
structure Moments (s : System T) : Prop where
  push : s.queued ∈ s.duringPush
  pop : s.queued ∈ s.duringPop
  full : ∀ call ∈ s.pushes, call.accepted = false → s.queue.capacity.toNat ∈ call.queued
  empty : ∀ call ∈ s.pops, call.item = none → 0 ∈ call.queued

variable {start : UInt64} {s : System T}

theorem Inv.queued_lt (hinv : Inv start s) : s.pushed.length - s.consumed < 2 ^ 64 := by
  have hroom := hinv.room
  have hcap := hinv.capacity.le
  omega

/-- The number of items queued is the difference of the counters. -/
theorem Inv.toNat_sub (hinv : Inv start s) : (s.queue.head - s.queue.tail).toNat = s.queued := by
  rw [hinv.head, hinv.tail, toNat_pos_sub start hinv.consumed hinv.queued_lt, queued]

theorem Inv.index (hinv : Inv start s) (i : Nat) :
    s.queue.index (pos start i) = pos start i &&& (s.queue.capacity - 1) := by
  rw [Queue.index, hinv.mask]

/-- The test of `push` on a tail that is exact. -/
theorem Inv.full_iff (hinv : Inv start s) :
    s.queue.head + 1 - s.queue.tail > s.queue.capacity ↔ s.queued = s.queue.capacity.toNat := by
  have hroom := hinv.room
  have hconsumed := hinv.consumed
  have hcap := hinv.capacity.le
  have hsub : (s.queue.head + 1 - s.queue.tail).toNat = s.pushed.length + 1 - s.consumed := by
    rw [hinv.head, hinv.tail, pos_succ, toNat_pos_sub start (by omega) (by omega)]
  rw [gt_iff_lt, UInt64.lt_iff_toNat_lt, hsub, queued]
  omega

/-- The test of `pop` on a head that is exact. -/
theorem Inv.empty_iff (hinv : Inv start s) : s.queue.head = s.queue.tail ↔ s.queued = 0 := by
  have hconsumed := hinv.consumed
  rw [hinv.head, hinv.tail, pos_eq_iff hconsumed hinv.queued_lt, queued]
  omega

theorem inv_new (capacity start : UInt64) : Inv start (new capacity start : System T) where
  capacity := powerOfTwo_nextPowerOfTwo capacity
  mask := rfl
  head := (UInt64.add_zero start).symm
  tail := (UInt64.add_zero start).symm
  consumed := Nat.le_refl 0
  room := Nat.zero_le _
  producer := trivial
  consumer := trivial
  stored _ _ hlt := absurd hlt (Nat.not_lt_zero _)
  popped := rfl
  advanced _ hcall := absurd hcall List.not_mem_nil

theorem moments_new (capacity start : UInt64) : Moments (new capacity start : System T) where
  push := List.mem_singleton_self 0
  pop := List.mem_singleton_self 0
  full _ hcall := absurd hcall List.not_mem_nil
  empty _ hcall := absurd hcall List.not_mem_nil

/-! ### Steps -/

theorem pushed_pushReturns (s : System T) (item : T) (accepted : Bool) :
    (s.pushReturns item accepted).pushed = s.pushed ++ if accepted then [item] else [] := by
  cases accepted with
  | false => simp [pushed, pushReturns]
  | true => simp [pushed, pushReturns]

theorem consumed_popReturns (s : System T) (item : Option T) (advanced : Bool) :
    (s.popReturns item advanced).consumed = s.consumed + if advanced then 1 else 0 := by
  cases advanced with
  | false => simp [consumed, popReturns]
  | true => simp [consumed, popReturns]

theorem popped_popReturns (s : System T) (item : Option T) (advanced : Bool) :
    (s.popReturns item advanced).popped = s.popped ++ item.toList := by
  cases item with
  | none => simp [popped, popReturns]
  | some item => simp [popped, popReturns]

variable {s' : System T}

/-- What the producer does does not disturb the consumer. -/
theorem ConsumerOk.mono {place : Consumer T} (hok : s.ConsumerOk place)
    (htail : s'.queue.tail = s.queue.tail) (hconsumed : s'.consumed = s.consumed)
    (hpushed : s.pushed <+: s'.pushed) : s'.ConsumerOk place := by
  have hlength := hpushed.length_le
  cases place with
  | idle => trivial
  | loadTail => trivial
  | loadHead tail => exact hok.trans htail.symm
  | takeSlot tail =>
    obtain ⟨heq, hlt⟩ := hok
    exact ⟨heq.trans htail.symm, by omega⟩
  | storeTail tail item =>
    obtain ⟨heq, hlt, hitem⟩ := hok
    refine ⟨heq.trans htail.symm, by omega, ?_⟩
    rw [hitem, hconsumed, List.getElem?_eq_getElem hlt,
      List.getElem?_eq_getElem (Nat.lt_of_lt_of_le hlt hlength), hpushed.getElem hlt]

/-- What the consumer does does not disturb the producer. -/
theorem ProducerOk.mono {place : Producer T} (hok : s.ProducerOk place)
    (hhead : s'.queue.head = s.queue.head) (hcapacity : s'.queue.capacity = s.queue.capacity)
    (hqueued : s'.queued ≤ s.queued)
    (hslot : ∀ item, s.queued < s.queue.capacity.toNat →
      s.queue.buffer (s.queue.index s.queue.head) = some item →
      s'.queue.buffer (s'.queue.index s.queue.head) = some item) : s'.ProducerOk place := by
  cases place with
  | idle => trivial
  | loadHead item => trivial
  | loadTail item head => exact hok.trans hhead.symm
  | writeSlot item head =>
    obtain ⟨heq, hlt⟩ := hok
    exact ⟨heq.trans hhead.symm, by rw [hcapacity]; omega⟩
  | storeHead item head =>
    obtain ⟨rfl, hlt, hitem⟩ := hok
    exact ⟨hhead.symm, by rw [hcapacity]; omega, hslot item hlt hitem⟩

/-- The queue and what was pushed and popped stay; the places may change. -/
theorem Inv.of_places (hinv : Inv start s) (hqueue : s'.queue = s.queue)
    (hpushed : s'.pushed = s.pushed) (hconsumed : s'.consumed = s.consumed)
    (hpopped : s'.popped = s.popped) (hadvanced : ∀ call ∈ s'.pops, call.advanced = call.item.isSome)
    (hhand : s'.inHand = s.inHand) (hproducer : s'.ProducerOk s'.producer)
    (hconsumer : s'.ConsumerOk s'.consumer) : Inv start s' where
  capacity := by rw [hqueue]; exact hinv.capacity
  mask := by rw [hqueue]; exact hinv.mask
  head := by rw [hqueue, hpushed]; exact hinv.head
  tail := by rw [hqueue, hconsumed]; exact hinv.tail
  consumed := by rw [hconsumed, hpushed]; exact hinv.consumed
  room := by rw [hconsumed, hpushed, hqueue]; exact hinv.room
  producer := hproducer
  consumer := hconsumer
  stored := by rw [hconsumed, hhand, hpushed, hqueue]; exact hinv.stored
  popped := by rw [hpopped, hpushed, hconsumed]; exact hinv.popped
  advanced := hadvanced

/-- A step of the producer that leaves the queue and what was pushed as they are. -/
theorem Inv.of_producer (hinv : Inv start s) (hqueue : s'.queue = s.queue)
    (hpushed : s'.pushed = s.pushed) (hpops : s'.pops = s.pops) (hconsumer : s'.consumer = s.consumer)
    (hplace : s'.ProducerOk s'.producer) : Inv start s' := by
  have hconsumed : s'.consumed = s.consumed := by rw [System.consumed, System.consumed, hpops]
  refine hinv.of_places hqueue hpushed hconsumed ?_ ?_ ?_ hplace ?_
  · rw [System.popped, System.popped, hpops]
  · rw [hpops]
    exact hinv.advanced
  · rw [inHand, inHand, hconsumer]
  · rw [hconsumer]
    exact hinv.consumer.mono (by rw [hqueue]) hconsumed (hpushed ▸ List.prefix_rfl)

/-- A step of the consumer that leaves the queue and what was popped as they are. -/
theorem Inv.of_consumer (hinv : Inv start s) (hqueue : s'.queue = s.queue)
    (hpushes : s'.pushes = s.pushes) (hproducer : s'.producer = s.producer)
    (hconsumed : s'.consumed = s.consumed) (hpopped : s'.popped = s.popped)
    (hadvanced : ∀ call ∈ s'.pops, call.advanced = call.item.isSome)
    (hhand : s'.inHand = s.inHand) (hplace : s'.ConsumerOk s'.consumer) : Inv start s' := by
  have hpushed : s'.pushed = s.pushed := by rw [System.pushed, System.pushed, hpushes]
  refine hinv.of_places hqueue hpushed hconsumed hpopped hadvanced hhand ?_ hplace
  rw [hproducer]
  refine hinv.producer.mono (by rw [hqueue]) (by rw [hqueue]) ?_ ?_
  · exact Nat.le_of_eq (by rw [queued, queued, hpushed, hconsumed])
  · intro item _ hitem
    rw [hqueue]
    exact hitem

theorem Inv.room_lt (hinv : Inv start s) (hlt : s.queued < s.queue.capacity.toNat) :
    s.pushed.length < s.consumed + s.queue.capacity.toNat := by
  have hconsumed := hinv.consumed
  rw [queued] at hlt
  omega

/-- The slot at the head is that of no position that holds an item. -/
theorem Inv.index_head_ne (hinv : Inv start s) (hlt : s.queued < s.queue.capacity.toNat) {i : Nat}
    (hi : s.consumed ≤ i) (hlength : i < s.pushed.length) :
    s.queue.index (pos start i) ≠ s.queue.index s.queue.head := by
  have hroom := hinv.room_lt hlt
  rw [hinv.head, hinv.index, hinv.index]
  exact mask_ne hinv.capacity start hlength (by omega)

theorem Inv.writeSlot {item : T} {head : UInt64} (hinv : Inv start s)
    (hplace : s.producer = .writeSlot item head) : Inv start s.pushStep := by
  have hok := hinv.producer
  rw [hplace] at hok
  obtain ⟨rfl, hlt⟩ := hok
  rw [pushStep, hplace]
  exact {
    capacity := hinv.capacity
    mask := hinv.mask
    head := hinv.head
    tail := hinv.tail
    consumed := hinv.consumed
    room := hinv.room
    producer := ⟨rfl, hlt, Function.update_self _ _ _⟩
    consumer := hinv.consumer.mono rfl rfl List.prefix_rfl
    stored := by
      intro i hi hlength
      have hne := hinv.index_head_ne hlt (i := i) (Nat.le_of_add_right_le hi) hlength
      exact (Function.update_of_ne hne _ _).trans (hinv.stored i hi hlength)
    popped := hinv.popped
    advanced := hinv.advanced }

theorem Inv.storeHead {item : T} {head : UInt64} (hinv : Inv start s)
    (hplace : s.producer = .storeHead item head) : Inv start s.pushStep := by
  have hok := hinv.producer
  rw [hplace] at hok
  obtain ⟨rfl, hlt, hitem⟩ := hok
  have hroom := hinv.room_lt hlt
  have hconsumed := hinv.consumed
  have hpushed : s.pushStep.pushed = s.pushed ++ [item] := by
    rw [pushStep, hplace]
    exact pushed_pushReturns _ item true
  have hlength : s.pushStep.pushed.length = s.pushed.length + 1 := by
    rw [hpushed, List.length_append, List.length_singleton]
  have hstep : s.pushStep =
      pushReturns { s with queue := { s.queue with head := s.queue.head + 1 } } item true := by
    rw [pushStep, hplace]
  have hsame : s.pushStep.consumed = s.consumed := by rw [hstep]; rfl
  exact {
    capacity := by rw [hstep]; exact hinv.capacity
    mask := by rw [hstep]; exact hinv.mask
    head := by
      rw [hlength, hstep, ← pos_succ, ← hinv.head]
      rfl
    tail := by
      rw [hsame, hstep]
      exact hinv.tail
    consumed := by omega
    room := by
      rw [hlength, hsame, hstep]
      exact hroom
    producer := by rw [hstep]; trivial
    consumer := by
      have hold : s.pushStep.consumer = s.consumer := by rw [hstep]; rfl
      rw [hold]
      exact hinv.consumer.mono (by rw [hstep]; rfl) hsame (hpushed ▸ List.prefix_append _ _)
    stored := by
      intro i hi hnew
      have hi' : s.consumed + s.inHand ≤ i := by
        rw [hstep] at hi
        exact hi
      have hbuffer : s.pushStep.queue.buffer (s.pushStep.queue.index (pos start i)) =
          s.queue.buffer (s.queue.index (pos start i)) := by
        rw [hstep]
        rfl
      rw [hbuffer, hpushed]
      by_cases hold : i < s.pushed.length
      · rw [List.getElem?_append_left hold]
        exact hinv.stored i hi' hold
      · obtain rfl : i = s.pushed.length := by omega
        rw [← hinv.head, hitem, List.getElem?_concat_length]
    popped := by
      have hold : s.pushStep.popped = s.popped := by rw [hstep]; rfl
      rw [hold, hinv.popped, hsame, hpushed, List.take_append_of_le_length hconsumed]
    advanced := by rw [hstep]; exact hinv.advanced }

theorem Inv.takeSlot {tail : UInt64} (hinv : Inv start s)
    (hplace : s.consumer = .takeSlot tail) : Inv start s.popStep := by
  have hok := hinv.consumer
  rw [hplace] at hok
  obtain ⟨rfl, hlt⟩ := hok
  have hroom := hinv.room
  have hhand : s.inHand = 0 := by rw [inHand, hplace]
  have hitem : s.queue.buffer (s.queue.index s.queue.tail) = s.pushed[s.consumed]? := by
    rw [hinv.tail]
    exact hinv.stored s.consumed (by omega) hlt
  rw [popStep, hplace]
  exact {
    capacity := hinv.capacity
    mask := hinv.mask
    head := hinv.head
    tail := hinv.tail
    consumed := hinv.consumed
    room := hinv.room
    producer := by
      refine hinv.producer.mono rfl rfl (Nat.le_refl _) fun item hfree hslot => ?_
      have hne := hinv.index_head_ne hfree (Nat.le_refl _) hlt
      rw [← hinv.tail] at hne
      exact (Function.update_of_ne (Ne.symm hne) _ _).trans hslot
    consumer := ⟨rfl, hlt, hitem⟩
    stored := by
      intro i hi hlength
      have hi' : s.consumed + 1 ≤ i := hi
      have hlength' : i < s.pushed.length := hlength
      have hne : s.queue.index (pos start i) ≠ s.queue.index s.queue.tail := by
        rw [hinv.tail, hinv.index, hinv.index]
        exact (mask_ne hinv.capacity start (by omega) (by omega)).symm
      exact (Function.update_of_ne hne _ _).trans (hinv.stored i (by omega) hlength)
    popped := hinv.popped
    advanced := hinv.advanced }

theorem Inv.storeTail {tail : UInt64} {item : Option T} (hinv : Inv start s)
    (hplace : s.consumer = .storeTail tail item) : Inv start s.popStep := by
  have hok := hinv.consumer
  rw [hplace] at hok
  obtain ⟨rfl, hlt, hitem⟩ := hok
  have hroom := hinv.room
  have hhand : s.inHand = 1 := by rw [inHand, hplace]
  have hstep : s.popStep =
      popReturns { s with queue := { s.queue with tail := s.queue.tail + 1 } } item true := by
    rw [popStep, hplace]
  have hconsumed : s.popStep.consumed = s.consumed + 1 := by
    rw [hstep]
    exact consumed_popReturns _ item true
  have hpushed : s.popStep.pushed = s.pushed := by rw [hstep]; rfl
  exact {
    capacity := by rw [hstep]; exact hinv.capacity
    mask := by rw [hstep]; exact hinv.mask
    head := by
      rw [hpushed, hstep]
      exact hinv.head
    tail := by
      rw [hconsumed, hstep, ← pos_succ, ← hinv.tail]
      rfl
    consumed := by rw [hconsumed, hpushed]; exact hlt
    room := by
      have hcapacity : s.popStep.queue.capacity = s.queue.capacity := by rw [hstep]; rfl
      rw [hconsumed, hpushed, hcapacity]
      omega
    producer := by
      have hold : s.popStep.producer = s.producer := by rw [hstep]; rfl
      rw [hold]
      refine hinv.producer.mono (by rw [hstep]; rfl) (by rw [hstep]; rfl) ?_ ?_
      · rw [queued, queued, hpushed, hconsumed]
        omega
      · intro value _ hslot
        rw [hstep]
        exact hslot
    consumer := by rw [hstep]; trivial
    stored := by
      intro i hi hlength
      rw [hpushed] at hlength ⊢
      have hi' : s.consumed + 1 ≤ i := by omega
      rw [hstep]
      exact hinv.stored i (by omega) hlength
    popped := by
      have hnew : s.popStep.popped = s.popped ++ item.toList := by
        rw [hstep]
        exact popped_popReturns _ item true
      rw [hnew, hpushed, hconsumed, hinv.popped, hitem, List.take_add_one]
    advanced := by
      intro call hcall
      rw [hstep] at hcall
      obtain hold | hlast := List.mem_append.mp hcall
      · exact hinv.advanced call hold
      · rw [List.mem_singleton.mp hlast, hitem, List.getElem?_eq_getElem hlt]
        rfl }

theorem Inv.pushStep (hinv : Inv start s) : Inv start s.pushStep := by
  cases hplace : s.producer with
  | idle =>
    rw [System.pushStep, hplace]
    exact hinv
  | loadHead item =>
    rw [System.pushStep, hplace]
    exact hinv.of_producer rfl rfl rfl rfl rfl
  | loadTail item head =>
    have hok := hinv.producer
    rw [hplace] at hok
    rw [System.pushStep, hplace]
    obtain rfl : head = s.queue.head := hok
    by_cases hfull : s.queue.head + 1 - s.queue.tail > s.queue.capacity
    · simp only [if_pos hfull]
      refine hinv.of_producer rfl ?_ rfl rfl trivial
      rw [pushed_pushReturns]
      exact List.append_nil _
    · simp only [if_neg hfull]
      have hlt : s.queued < s.queue.capacity.toNat := by
        have hne := hinv.full_iff.not.mp hfull
        have hroom := hinv.room
        rw [queued] at hne ⊢
        omega
      exact hinv.of_producer rfl rfl rfl rfl ⟨rfl, hlt⟩
  | writeSlot item head => exact hinv.writeSlot hplace
  | storeHead item head => exact hinv.storeHead hplace

theorem Inv.popStep (hinv : Inv start s) : Inv start s.popStep := by
  cases hplace : s.consumer with
  | idle =>
    rw [System.popStep, hplace]
    exact hinv
  | loadTail =>
    rw [System.popStep, hplace]
    exact hinv.of_consumer rfl rfl rfl rfl rfl hinv.advanced (by rw [inHand, inHand, hplace]) rfl
  | loadHead tail =>
    have hok := hinv.consumer
    rw [hplace] at hok
    rw [System.popStep, hplace]
    obtain rfl : tail = s.queue.tail := hok
    by_cases hempty : s.queue.head = s.queue.tail
    · simp only [if_pos hempty]
      refine hinv.of_consumer rfl rfl rfl ?_ ?_ ?_ (by rw [inHand, inHand, hplace]; rfl) trivial
      · exact consumed_popReturns _ _ _
      · rw [popped_popReturns]
        exact List.append_nil _
      · intro call hcall
        obtain hold | hlast := List.mem_append.mp hcall
        · exact hinv.advanced call hold
        · rw [List.mem_singleton.mp hlast]
          rfl
    · simp only [if_neg hempty]
      have hlt : s.consumed < s.pushed.length := by
        have hne := hinv.empty_iff.not.mp hempty
        rw [queued] at hne
        omega
      exact hinv.of_consumer rfl rfl rfl rfl rfl hinv.advanced (by rw [inHand, inHand, hplace])
        ⟨rfl, hlt⟩
  | takeSlot tail => exact hinv.takeSlot hplace
  | storeTail tail item => exact hinv.storeTail hplace

theorem Inv.act (hinv : Inv start s) (move : Move T) : Inv start (s.act move) := by
  cases move with
  | push item =>
    cases hplace : s.producer with
    | idle =>
      simp only [System.act, hplace]
      exact hinv.of_producer rfl rfl rfl rfl trivial
    | _ =>
      simp only [System.act, hplace]
      exact hinv
  | producer => exact hinv.pushStep
  | pop =>
    cases hplace : s.consumer with
    | idle =>
      simp only [System.act, hplace]
      exact hinv.of_consumer rfl rfl rfl rfl rfl hinv.advanced
        (by rw [inHand, inHand, hplace]) trivial
    | _ =>
      simp only [System.act, hplace]
      exact hinv
  | consumer => exact hinv.popStep

theorem Inv.step (hinv : Inv start s) (move : Move T) : Inv start (s.step move) :=
  have hact := hinv.act move
  hact.of_places rfl rfl rfl rfl hact.advanced rfl
    (hact.producer.mono rfl rfl (Nat.le_refl _) fun _ _ h => h)
    (hact.consumer.mono rfl rfl List.prefix_rfl)

/-! ### The moments of the calls -/

/-- What a step may add to the calls that returned: a `push` that failed found the queue full,
a `pop` without an item found it empty. -/
structure Returns (s s' : System T) : Prop where
  capacity : s'.queue.capacity = s.queue.capacity
  push : s'.pushes = s.pushes ∨ ∃ item accepted,
    s'.pushes = s.pushes ++ [⟨item, accepted, s.duringPush⟩] ∧
      (accepted = false → s.queued = s.queue.capacity.toNat)
  pop : s'.pops = s.pops ∨ ∃ item advanced,
    s'.pops = s.pops ++ [⟨item, advanced, s.duringPop⟩] ∧ (item = none → s.queued = 0)

theorem returns_nothing (hcapacity : s'.queue.capacity = s.queue.capacity)
    (hpushes : s'.pushes = s.pushes) (hpops : s'.pops = s.pops) : Returns s s' :=
  ⟨hcapacity, .inl hpushes, .inl hpops⟩

theorem returns_pushStep (hinv : Inv start s) : Returns s s.pushStep := by
  cases hplace : s.producer with
  | idle =>
    rw [System.pushStep, hplace]
    exact returns_nothing rfl rfl rfl
  | loadHead item =>
    rw [System.pushStep, hplace]
    exact returns_nothing rfl rfl rfl
  | loadTail item head =>
    have hok := hinv.producer
    rw [hplace] at hok
    rw [System.pushStep, hplace]
    obtain rfl : head = s.queue.head := hok
    by_cases hfull : s.queue.head + 1 - s.queue.tail > s.queue.capacity
    · simp only [if_pos hfull]
      exact ⟨rfl, .inr ⟨item, false, rfl, fun _ => hinv.full_iff.mp hfull⟩, .inl rfl⟩
    · simp only [if_neg hfull]
      exact returns_nothing rfl rfl rfl
  | writeSlot item head =>
    rw [System.pushStep, hplace]
    exact returns_nothing rfl rfl rfl
  | storeHead item head =>
    rw [System.pushStep, hplace]
    exact ⟨rfl, .inr ⟨item, true, rfl, fun h => absurd h (by decide)⟩, .inl rfl⟩

theorem returns_popStep (hinv : Inv start s) : Returns s s.popStep := by
  cases hplace : s.consumer with
  | idle =>
    rw [System.popStep, hplace]
    exact returns_nothing rfl rfl rfl
  | loadTail =>
    rw [System.popStep, hplace]
    exact returns_nothing rfl rfl rfl
  | loadHead tail =>
    have hok := hinv.consumer
    rw [hplace] at hok
    rw [System.popStep, hplace]
    obtain rfl : tail = s.queue.tail := hok
    by_cases hempty : s.queue.head = s.queue.tail
    · simp only [if_pos hempty]
      exact ⟨rfl, .inl rfl, .inr ⟨none, false, rfl, fun _ => hinv.empty_iff.mp hempty⟩⟩
    · simp only [if_neg hempty]
      exact returns_nothing rfl rfl rfl
  | takeSlot tail =>
    rw [System.popStep, hplace]
    exact returns_nothing rfl rfl rfl
  | storeTail tail item =>
    have hok := hinv.consumer
    rw [hplace] at hok
    obtain ⟨-, hlt, hitem⟩ := hok
    rw [System.popStep, hplace]
    refine ⟨rfl, .inl rfl, .inr ⟨item, true, rfl, fun hnone => ?_⟩⟩
    rw [hitem, List.getElem?_eq_getElem hlt] at hnone
    cases hnone

theorem returns_act (hinv : Inv start s) (move : Move T) : Returns s (s.act move) := by
  cases move with
  | push item =>
    unfold System.act
    cases s.producer <;> exact returns_nothing rfl rfl rfl
  | producer => exact returns_pushStep hinv
  | pop =>
    unfold System.act
    cases s.consumer <;> exact returns_nothing rfl rfl rfl
  | consumer => exact returns_popStep hinv

theorem Moments.step (hmoments : Moments s) (hinv : Inv start s) (move : Move T) :
    Moments (s.step move) := by
  obtain ⟨hcapacity, hpush, hpop⟩ := returns_act hinv move
  refine ⟨List.mem_append_right _ (List.mem_singleton_self _),
    List.mem_append_right _ (List.mem_singleton_self _), ?_, ?_⟩
  · intro call hcall hfailed
    have hcall' : call ∈ (s.act move).pushes := hcall
    have hsame : (s.step move).queue.capacity = s.queue.capacity := hcapacity
    rw [hsame]
    obtain hold | ⟨item, accepted, hnew, hfull⟩ := hpush
    · exact hmoments.full call (hold ▸ hcall') hfailed
    · rw [hnew, List.mem_append, List.mem_singleton] at hcall'
      obtain hold | rfl := hcall'
      · exact hmoments.full call hold hfailed
      · rw [← hfull hfailed]
        exact hmoments.push
  · intro call hcall hnone
    have hcall' : call ∈ (s.act move).pops := hcall
    obtain hold | ⟨item, advanced, hnew, hempty⟩ := hpop
    · exact hmoments.empty call (hold ▸ hcall') hnone
    · rw [hnew, List.mem_append, List.mem_singleton] at hcall'
      obtain hold | rfl := hcall'
      · exact hmoments.empty call hold hnone
      · rw [← hempty hnone]
        exact hmoments.pop

/-! ### Runs -/

theorem Inv.run (hinv : Inv start s) (hmoments : Moments s) (moves : List (Move T)) :
    Inv start (run moves s) ∧ Moments (run moves s) := by
  induction moves generalizing s with
  | nil => exact ⟨hinv, hmoments⟩
  | cons move moves ih => exact ih (hinv.step move) (hmoments.step hinv move)

theorem map_range_eq {l : List T} {slot : Nat → Option T} (h : ∀ i < l.length, slot i = l[i]?) :
    (List.range l.length).map slot = l.map some := by
  refine List.ext_getElem (by simp) fun i hi _ => ?_
  rw [List.length_map, List.length_range] at hi
  rw [List.getElem_map, List.getElem_range, List.getElem_map, h i hi, List.getElem?_eq_getElem hi]

/-- What was pushed and not popped is between the counters, in order. -/
theorem Inv.inFlight_eq (hinv : Inv start s) : s.inFlight = (s.pushed.drop s.consumed).map some := by
  have hslot : ∀ i, s.inHand ≤ i → i < s.queued →
      s.queue.buffer (s.queue.index (s.queue.tail + UInt64.ofNat i)) =
        (s.pushed.drop s.consumed)[i]? := by
    intro i hi hlt
    have hlt' : i < s.pushed.length - s.consumed := hlt
    rw [hinv.tail, pos_add, List.getElem?_drop]
    exact hinv.stored _ (by omega) (by omega)
  have hlength : s.queued = (s.pushed.drop s.consumed).length := List.length_drop.symm
  unfold inFlight
  rw [hinv.toNat_sub, hlength]
  have hconsumer := hinv.consumer
  cases hplace : s.consumer with
  | storeTail tail item =>
    rw [hplace] at hconsumer
    obtain ⟨-, hlt, hitem⟩ := hconsumer
    have hhand : s.inHand = 1 := by rw [inHand, hplace]
    rw [List.drop_eq_getElem_cons hlt] at hslot hlength ⊢
    rw [List.length_cons, List.range_succ_eq_map, List.map_cons, List.map_map, List.map_cons,
      hitem, List.getElem?_eq_getElem hlt]
    refine congrArg (List.cons _) (map_range_eq fun i hi => ?_)
    exact hslot (i + 1) (by omega) (by rw [hlength, List.length_cons]; omega)
  | _ =>
    have hhand : s.inHand = 0 := by rw [inHand, hplace]
    exact map_range_eq fun i hi => hslot i (by omega) (by omega)

/-- A bounded queue that loses nothing and keeps the order. -/
structure Lossless (s : System T) : Prop where
  /-- every item pushed has been popped, in order, or is still there -/
  fifo : s.pushed.map some = s.popped.map some ++ s.inFlight
  counters : (s.queue.head - s.queue.tail).toNat = s.queued
  bounded : s.queued ≤ s.queue.capacity.toNat
  /-- a `push` that failed had a moment at which the queue was full -/
  full : ∀ call ∈ s.pushes, call.accepted = false → s.queue.capacity.toNat ∈ call.queued
  /-- a `pop` without an item had a moment at which the queue was empty -/
  empty : ∀ call ∈ s.pops, call.item = none → 0 ∈ call.queued
  /-- a position is left behind exactly with an item -/
  advanced : ∀ call ∈ s.pops, call.advanced = call.item.isSome
  /-- the slots that are accessed exist -/
  write : ∀ item head, s.producer = .writeSlot item head → s.queue.index head < s.queue.capacity
  take : ∀ tail, s.consumer = .takeSlot tail → s.queue.index tail < s.queue.capacity

theorem Inv.lossless (hinv : Inv start s) (hmoments : Moments s) : Lossless s where
  fifo := by
    rw [hinv.inFlight_eq, hinv.popped, ← List.map_append, List.take_append_drop]
  counters := hinv.toNat_sub
  bounded := by
    have hroom := hinv.room
    rw [queued]
    omega
  full := hmoments.full
  empty := hmoments.empty
  advanced := hinv.advanced
  write := by
    intro item head hplace
    have hok := hinv.producer
    rw [hplace] at hok
    obtain ⟨rfl, hlt⟩ := hok
    rw [hinv.head, hinv.index]
    exact mask_lt hinv.capacity (by omega) start _
  take := by
    intro tail hplace
    have hok := hinv.consumer
    rw [hplace] at hok
    obtain ⟨rfl, hlt⟩ := hok
    have hroom := hinv.room
    rw [hinv.tail, hinv.index]
    exact mask_lt hinv.capacity (by omega) start _

/-- **The queue is a lossless bounded FIFO**, whatever capacity is asked for, wherever the
counters start and however the steps of the two threads interleave. -/
theorem lossless_run (capacity start : UInt64) (moves : List (Move T)) :
    Lossless (run moves (new capacity start)) := by
  obtain ⟨hinv, hmoments⟩ := (inv_new capacity start).run (moments_new capacity start) moves
  exact hinv.lossless hmoments

end System

end LockFreeQueue

end IowarpCore
