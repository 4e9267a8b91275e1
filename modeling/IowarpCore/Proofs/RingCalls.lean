/-
What a ring buffer is under calls that come one after another.

Between `head_` and `tail_` stand the elements of a queue, oldest first, each in a ready
entry of its own.  Every call keeps it so, except for two pushes to a full buffer: the
extensible one refuses the element but keeps the tail it has taken, and the circular one
writes over the oldest element and leaves the head where it is.  From then on the counters
are further apart than there are elements.

Copying goes wrong for every buffer, since the new storage is one entry too short, and
resizing for every buffer that is not empty, since the counters stay behind.
-/
import IowarpCore.Shm.RingCalls
import IowarpCore.Proofs.RingBuffer

namespace IowarpCore
namespace RingBuffer

variable {α : Type} {r r' : Ring α} {q : List α} {val : α} {config : Config}

/-- The head moves exactly if something is popped. -/
theorem pop_cases (r : Ring α) :
    (r.pop.1 = none ∧ r.pop.2 = r) ∨
      (r.pop.1.isSome ∧ r.pop.2.head = r.head + 1 ∧ r.pop.2.tail = r.tail ∧ r.head < r.tail) := by
  unfold Ring.pop
  by_cases hempty : r.head ≥ r.tail
  · rw [if_pos hempty]
    exact Or.inl ⟨rfl, rfl⟩
  · rw [if_neg hempty]
    by_cases hready : r.ready (r.slot r.head) = true
    · rw [if_pos hready]
      exact Or.inr ⟨rfl, rfl, rfl, by omega⟩
    · rw [if_neg hready]
      exact Or.inl ⟨rfl, rfl⟩

/-- The buffer holds a queue. -/
structure Represents (r : Ring α) (q : List α) : Prop where
  tail : r.tail = r.head + q.length
  length_le : q.length ≤ r.size
  entry : ∀ i v, q[i]? = some v →
    r.ready (r.slot (r.head + i)) = true ∧ r.data (r.slot (r.head + i)) = v

namespace Represents

theorem new [Inhabited α] (depth : Nat) : Represents (Ring.new depth : Ring α) [] :=
  ⟨rfl, Nat.zero_le _, fun i v h => by cases h⟩

theorem bufferSize (h : Represents r q) : r.bufferSize = q.length := by
  rw [Ring.bufferSize, h.tail, if_pos (by omega)]
  omega

theorem isEmpty (h : Represents r q) : r.isEmpty = q.isEmpty := by
  rw [Bool.eq_iff_iff, Ring.isEmpty, beq_iff_eq, h.tail, List.isEmpty_iff_length_eq_zero]
  omega

/-! ### One call -/

/-- An element more, while there is an entry left. -/
theorem fill (h : Represents r q) (val : α) (hroom : q.length < r.size) :
    Represents (Ring.fill { r with tail := r.tail + 1 } r.tail val) (q ++ [val]) where
  tail := by
    show r.tail + 1 = r.head + (q ++ [val]).length
    rw [h.tail, List.length_append, List.length_singleton]
    omega
  length_le := by
    rw [List.length_append, List.length_singleton]
    exact hroom
  entry := by
    intro i v hi
    show Function.update r.ready (r.slot r.tail) true (r.slot (r.head + i)) = true ∧
      Function.update r.data (r.slot r.tail) val (r.slot (r.head + i)) = v
    by_cases hlt : i < q.length
    · rw [List.getElem?_append_left hlt] at hi
      have hne : r.slot (r.head + i) ≠ r.slot r.tail := by
        intro hslot
        have hsame := slot_inj (Nat.le_add_right _ _) (by rw [h.tail]; omega) (by omega)
          (by rw [h.tail]; omega) hslot
        rw [h.tail] at hsame
        omega
      rw [Function.update_of_ne hne, Function.update_of_ne hne]
      exact h.entry i v hi
    · have hlast : i = q.length := by
        have := (List.getElem?_eq_some_iff.mp hi).1
        rw [List.length_append, List.length_singleton] at this
        omega
      rw [hlast, List.getElem?_concat_length, Option.some.injEq] at hi
      rw [hlast, ← h.tail, Function.update_self, Function.update_self]
      exact ⟨rfl, hi⟩

theorem pop_nil (h : Represents r []) : r.pop = (none, r) := by
  rw [Ring.pop, if_pos (by rw [h.tail]; exact Nat.le_refl _)]

/-- The oldest element is popped. -/
theorem pop_cons (h : Represents r (val :: q)) :
    ∃ r', r.pop = (some val, r') ∧ Represents r' q ∧ r'.depth = r.depth := by
  have htail := h.tail
  rw [List.length_cons] at htail
  have hsize := h.length_le
  rw [List.length_cons] at hsize
  obtain ⟨hready, hdata⟩ := h.entry 0 val rfl
  rw [Nat.add_zero] at hready hdata
  refine ⟨{ r with
    ready := Function.update r.ready (r.slot r.head) false
    head := r.head + 1 }, ?_, ⟨?_, ?_, ?_⟩, rfl⟩
  · rw [Ring.pop, if_neg (by omega), if_pos hready, hdata]
  · show r.tail = r.head + 1 + q.length
    omega
  · show q.length ≤ r.size
    omega
  · intro i v hi
    obtain ⟨hlt, _⟩ := List.getElem?_eq_some_iff.mp hi
    have hplace : r.head + 1 + i = r.head + (i + 1) := by omega
    show Function.update r.ready (r.slot r.head) false (r.slot (r.head + 1 + i)) = true ∧
      r.data (r.slot (r.head + 1 + i)) = v
    have hne : r.slot (r.head + 1 + i) ≠ r.slot r.head := by
      intro hslot
      have := slot_inj (by omega) (Nat.le_refl _) (by omega) (by omega) hslot
      omega
    rw [Function.update_of_ne hne, hplace]
    exact h.entry (i + 1) v hi

theorem pop (h : Represents r q) :
    r.pop.1 = q.head? ∧ Represents r.pop.2 q.tail ∧ r.pop.2.depth = r.depth := by
  cases q with
  | nil =>
    rw [h.pop_nil]
    exact ⟨rfl, h, rfl⟩
  | cons val q =>
    obtain ⟨r', hpop, hr', hdepth⟩ := h.pop_cons
    rw [hpop]
    exact ⟨rfl, hr', hdepth⟩

end Represents

theorem queue_capacity_le (config : Config) (depth : Nat) :
    (config.queue depth).capacity ≤ depth + 1 := by
  cases config <;> simp [Config.queue]

/-- With room, every configuration accepts a push. -/
theorem Represents.emplace (h : Represents r q) (val : α)
    (hroom : q.length < (config.queue r.depth).capacity) :
    ∃ r', r.emplace config val = some (true, r') ∧ Represents r' (q ++ [val]) ∧
      r'.depth = r.depth := by
  have hsize := queue_capacity_le config r.depth
  have htail := h.tail
  refine ⟨_, ?_, h.fill val (Nat.lt_of_lt_of_le hroom hsize), rfl⟩
  cases config with
  | extRingBuffer | spscRingBuffer | mpscRingBuffer =>
    have hlt : ¬r.tail - r.head + 1 ≥ r.size := by
      unfold Config.queue at hroom
      unfold Ring.size
      dsimp only at hroom
      omega
    simp [Ring.emplace, Config.waitForSpace, Config.errorOnNoSpace, Config.dynamicSize, hlt]
  | circularMpscRingBuffer => rfl

/-! ### The calls of a run -/

/-- A push has room, in the configurations where a full buffer does not stay what it is. -/
def Roomy (config : Config) (r : Ring α) : QueueCall α → Prop
  | .push _ =>
    match config with
    | .extRingBuffer => r.bufferSize < r.capacity
    | .circularMpscRingBuffer => r.bufferSize < r.size
    | _ => True
  | .pop => True

/-- Every push of the calls has room. -/
def Fits (config : Config) : Ring α → List (QueueCall α) → Prop
  | _, [] => True
  | r, call :: calls => Roomy config r call ∧ ∀ r', r.Takes config call r' → Fits config r' calls

theorem fits_push {calls : List (QueueCall α)} {accepted : Bool}
    (hroomy : Roomy config r (.push val)) (h : r.emplace config val = some (accepted, r')) :
    Fits config r (.push val :: calls) ↔ Fits config r' calls := by
  refine ⟨fun hfits => hfits.2 r' ⟨accepted, h⟩, fun hfits => ⟨hroomy, ?_⟩⟩
  rintro r₁ ⟨accepted₁, h₁⟩
  rw [h, Option.some.injEq, Prod.mk.injEq] at h₁
  rw [← h₁.2]
  exact hfits

/-- What a full buffer does with a push. -/
theorem Represents.observe_full (h : Represents r q)
    (hfull : q.length = (config.queue r.depth).capacity) (calls : List (QueueCall α))
    (ih : r.observe config calls = (config.queue r.depth).observe q calls ↔ Fits config r calls) :
    r.observe config (.push val :: calls) = (config.queue r.depth).observe q (.push val :: calls) ↔
      Fits config r (.push val :: calls) := by
  have htail := h.tail
  have hsize := h.bufferSize
  have hnone : ¬q.length < (config.queue r.depth).capacity := by omega
  rw [Ring.observe, BoundedQueue.observe, BoundedQueue.push, if_neg hnone]
  cases config with
  | extRingBuffer =>
    have hfull' : q.length = r.depth := hfull
    have hge : r.tail - r.head + 1 ≥ r.size := by
      unfold Ring.size
      omega
    have hemplace : r.emplace .extRingBuffer val = some (false, { r with tail := r.tail + 1 }) := by
      simp [Ring.emplace, Config.waitForSpace, Config.errorOnNoSpace, Config.dynamicSize, hge]
    rw [hemplace]
    refine iff_of_false ?_ ?_
    · intro hsame
      have hlength := congrArg QueueSight.length (List.cons.inj hsame).1
      unfold Ring.bufferSize at hlength
      dsimp only at hlength
      rw [if_pos (by omega)] at hlength
      omega
    · rintro ⟨hroomy, _⟩
      have hlt : r.bufferSize < r.capacity := hroomy
      unfold Ring.capacity Ring.size at hlt
      rw [if_pos (by omega)] at hlt
      omega
  | spscRingBuffer =>
    have hfull' : q.length = r.depth := hfull
    have hge : r.tail - r.head + 1 ≥ r.size := by
      unfold Ring.size
      omega
    have hemplace : r.emplace .spscRingBuffer val = some (false, r) := by
      simp [Ring.emplace, Config.waitForSpace, Config.errorOnNoSpace, hge]
    have hroomy : Roomy .spscRingBuffer r (.push val) := trivial
    rw [fits_push hroomy hemplace, ← ih, hemplace]
    dsimp only [Config.queue]
    rw [hsize, h.isEmpty, List.cons.injEq, and_iff_right rfl]
  | mpscRingBuffer =>
    have hfull' : q.length = r.depth := hfull
    have hge : r.tail - r.head + 1 ≥ r.size := by
      unfold Ring.size
      omega
    have hemplace : r.emplace .mpscRingBuffer val = none := by
      simp [Ring.emplace, Config.waitForSpace, hge]
    rw [hemplace]
    refine iff_of_true rfl ⟨trivial, ?_⟩
    rintro r' ⟨accepted, hr'⟩
    rw [hemplace] at hr'
    cases hr'
  | circularMpscRingBuffer =>
    have hfull' : q.length = r.depth + 1 := hfull
    refine iff_of_false ?_ ?_
    · intro hsame
      have hlength := congrArg QueueSight.length (List.cons.inj hsame).1
      dsimp only [Config.queue] at hlength
      unfold Ring.bufferSize Ring.fill at hlength
      dsimp only at hlength
      rw [if_pos (by omega), List.length_drop, List.length_append, List.length_singleton] at hlength
      omega
    · rintro ⟨hroomy, _⟩
      have hlt : r.bufferSize < r.size := hroomy
      unfold Ring.size at hlt
      omega

theorem Represents.roomy (h : Represents r q)
    (hroom : q.length < (config.queue r.depth).capacity) : Roomy config r (.push val) := by
  have hsize := h.bufferSize
  cases config with
  | extRingBuffer =>
    show r.bufferSize < r.capacity
    have hlt : q.length < r.depth := hroom
    unfold Ring.capacity Ring.size
    rw [if_pos (by omega)]
    omega
  | circularMpscRingBuffer =>
    show r.bufferSize < r.size
    have hlt : q.length < r.depth + 1 := hroom
    unfold Ring.size
    omega
  | spscRingBuffer | mpscRingBuffer => trivial

/-- From a buffer that holds a queue, the calls are seen to do what they do to the queue
exactly if they fit. -/
theorem Represents.observe_iff (calls : List (QueueCall α)) :
    ∀ {r : Ring α} {q : List α}, Represents r q → q.length ≤ (config.queue r.depth).capacity →
      (r.observe config calls = (config.queue r.depth).observe q calls ↔ Fits config r calls) := by
  induction calls with
  | nil =>
    intro r q _ _
    exact iff_of_true rfl trivial
  | cons call calls ih =>
    intro r q h hle
    cases call with
    | push val =>
      by_cases hroom : q.length < (config.queue r.depth).capacity
      · obtain ⟨r', hemplace, hr', hdepth⟩ := h.emplace val hroom
        have hlength : (q ++ [val]).length ≤ (config.queue r'.depth).capacity := by
          rw [List.length_append, List.length_singleton, hdepth]
          exact hroom
        rw [fits_push (h.roomy hroom) hemplace, ← ih hr' hlength, Ring.observe, hemplace,
          BoundedQueue.observe, BoundedQueue.push_of_room val hroom]
        dsimp only
        rw [hr'.bufferSize, hr'.isEmpty, List.cons.injEq, and_iff_right rfl, hdepth]
      · exact h.observe_full (by omega) calls (ih h hle)
    | pop =>
      obtain ⟨hpop, hr', hdepth⟩ := h.pop
      have hlength : q.tail.length ≤ (config.queue r.pop.2.depth).capacity := by
        rw [hdepth, List.length_tail]
        omega
      have hfits : Fits config r (.pop :: calls) ↔ Fits config r.pop.2 calls := by
        refine ⟨fun hfits => hfits.2 _ rfl, fun hfits => ⟨trivial, ?_⟩⟩
        rintro r₁ rfl
        exact hfits
      rw [hfits, ← ih hr' hlength, Ring.observe, BoundedQueue.observe, hpop, hr'.bufferSize,
        hr'.isEmpty, List.cons.injEq, and_iff_right rfl, hdepth]

/--
**When a ring buffer is a queue.**  On a new buffer of any depth, what is seen of any calls
of `Push` and `Pop` (their results, and `Size` and `Empty` after each) is what is seen of
them on the queue that the configuration stands for, exactly if no push of the extensible
buffer finds it full, and no push of the circular one finds as many elements as there are
entries.
-/
theorem behaves_as_queue_iff [Inhabited α] (config : Config) (depth : Nat)
    (calls : List (QueueCall α)) :
    (Ring.new depth).observe config calls = (config.queue depth).observe [] calls ↔
      Fits config (Ring.new depth) calls :=
  (Represents.new depth).observe_iff calls (Nat.zero_le _)

/-- One element too many: the extensible buffer refuses it and has grown all the same, and
stays stuck; the circular buffer pops the newest first, and then nothing while there is an
element. -/
theorem not_queue_when_full :
    ((Ring.new 1).observe .extRingBuffer [.push 7, .push 8, .pop, .push 9, .pop] =
        [⟨true, none, 1, false⟩, ⟨false, none, 2, false⟩, ⟨true, some 7, 1, false⟩,
          ⟨false, none, 2, false⟩, ⟨false, none, 2, false⟩] ∧
      (Config.extRingBuffer.queue 1).observe [] [.push 7, .push 8, .pop, .push 9, .pop] =
        [⟨true, none, 1, false⟩, ⟨false, none, 1, false⟩, ⟨true, some 7, 0, true⟩,
          ⟨true, none, 1, false⟩, ⟨true, some 9, 0, true⟩]) ∧
    ((Ring.new 1).observe .circularMpscRingBuffer [.push 7, .push 8, .push 9, .pop, .pop, .pop] =
        [⟨true, none, 1, false⟩, ⟨true, none, 2, false⟩, ⟨true, none, 3, false⟩,
          ⟨true, some 9, 2, false⟩, ⟨true, some 8, 1, false⟩, ⟨false, none, 1, false⟩] ∧
      (Config.circularMpscRingBuffer.queue 1).observe []
          [.push 7, .push 8, .push 9, .pop, .pop, .pop] =
        [⟨true, none, 1, false⟩, ⟨true, none, 2, false⟩, ⟨true, none, 2, false⟩,
          ⟨true, some 8, 1, false⟩, ⟨true, some 9, 0, true⟩, ⟨false, none, 0, true⟩]) := by
  decide

end RingBuffer
end IowarpCore
