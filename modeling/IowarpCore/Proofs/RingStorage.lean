/-
What copying and resizing do to a ring buffer.

The copy's storage is one entry shorter than the original's, and the loop runs over the
indices of the original: its last index is behind the end, whatever the buffer holds.

Resizing pops every entry into a new storage and then takes the storage only.  The counters
of the old buffer have met by then, so the entries are there and none can be reached.  With
nothing to move this is a buffer of the new depth.
-/
import IowarpCore.Proofs.RingCalls

namespace IowarpCore
namespace RingBuffer

variable {α : Type} {r r' : Ring α} {q : List α} {val : α} {config : Config}

/-- The copy constructor stays inside the new storage, and the copy has the capacity of the
original and gives the same elements. -/
def CopyPreserves [Inhabited α] (r : Ring α) : Prop :=
  ∃ c, r.copy = some c ∧ c.capacity = r.capacity ∧ c.pops = r.pops

/-- `Resize` keeps the elements and their number, and then there is room for `newDepth` in
all. -/
structure ResizePreserves [Inhabited α] (config : Config) (r : Ring α) (newDepth : Nat)
    (r' : Ring α) : Prop where
  returns : r.resize config newDepth = some r'
  pops : r'.pops = r.pops
  size : r'.bufferSize = r.bufferSize
  capacity : r'.capacity = newDepth
  room : ∀ vals : List α, r.pops.length + vals.length ≤ newDepth →
    ∃ r'', r'.pushAll config vals = some r'' ∧ r''.pops = r.pops ++ vals

/-! ### Copying -/

theorem copyLoop_eq_none {other : Ring α} {newSize : Nat} {indices : List Nat} {i : Nat}
    (hi : i ∈ indices) (hge : newSize ≤ i) (queue : (Nat → Bool) × (Nat → α)) :
    other.copyLoop newSize indices queue = none := by
  induction indices generalizing queue with
  | nil => cases hi
  | cons j rest ih =>
    unfold Ring.copyLoop
    by_cases hlt : j < newSize
    · rw [if_pos hlt]
      rcases List.mem_cons.mp hi with hij | hrest
      · omega
      · exact ih hrest _
    · rw [if_neg hlt]

theorem copy_eq_none [Inhabited α] (r : Ring α) : r.copy = none := by
  have hlast : r.size - 1 ∈ List.range r.size := by
    rw [List.mem_range, Ring.size]
    omega
  rw [Ring.copy, copyLoop_eq_none hlast (Nat.le_refl _), Option.map_none]

/-! ### Counters -/

/-- Only a push that is refused or waits leaves the elements where they are. -/
theorem emplace_cases {accepted : Bool} (h : r.emplace config val = some (accepted, r')) :
    r'.head = r.head ∧ r'.depth = r.depth ∧ (r'.tail = r.tail ∨ r'.tail = r.tail + 1) ∧
      (accepted = true → r'.tail = r.tail + 1 ∧
        (config ≠ .circularMpscRingBuffer → r.tail - r.head < r.depth)) := by
  unfold Ring.emplace at h
  by_cases hfull : r.tail - r.head + 1 ≥ r.size
  · cases config with
    | mpscRingBuffer =>
      simp [Config.waitForSpace, hfull] at h
    | spscRingBuffer =>
      simp only [Config.waitForSpace, Config.errorOnNoSpace, hfull, if_true, Bool.false_eq_true,
        if_false, Option.some.injEq, Prod.mk.injEq] at h
      obtain ⟨rfl, rfl⟩ := h
      exact ⟨rfl, rfl, Or.inl rfl, fun haccepted => by cases haccepted⟩
    | extRingBuffer =>
      simp only [Config.waitForSpace, Config.errorOnNoSpace, Config.dynamicSize, hfull, if_true,
        Bool.false_eq_true, if_false, Option.some.injEq, Prod.mk.injEq] at h
      obtain ⟨rfl, rfl⟩ := h
      exact ⟨rfl, rfl, Or.inr rfl, fun haccepted => by cases haccepted⟩
    | circularMpscRingBuffer =>
      simp only [Config.waitForSpace, Config.errorOnNoSpace, Config.dynamicSize,
        Bool.false_eq_true, if_false, Option.some.injEq, Prod.mk.injEq] at h
      obtain ⟨rfl, rfl⟩ := h
      exact ⟨rfl, rfl, Or.inr rfl, fun _ => ⟨rfl, fun hne => absurd rfl hne⟩⟩
  · have hlt : r.tail - r.head < r.depth := by
      unfold Ring.size at hfull
      omega
    simp only [hfull, if_false, ite_self, Option.some.injEq, Prod.mk.injEq] at h
    obtain ⟨_, rfl⟩ := h
    exact ⟨rfl, rfl, Or.inr rfl, fun _ => ⟨rfl, fun _ => hlt⟩⟩

/-- The head does not pass the tail. -/
theorem head_le_tail [Inhabited α] {depth : Nat} {calls : List (QueueCall α)}
    (h : Along (Ring.Takes config) calls (Ring.new depth) r) : r.head ≤ r.tail := by
  refine h.invariant (I := fun r => r.head ≤ r.tail) ?_ (Nat.le_refl _)
  intro call _ s s' hle hcall
  cases call with
  | push val =>
    obtain ⟨accepted, hemplace⟩ := hcall
    obtain ⟨hhead, _, htail, _⟩ := emplace_cases hemplace
    omega
  | pop =>
    have hs' : s' = s.pop.2 := hcall
    rw [hs']
    rcases pop_cases s with ⟨_, hsame⟩ | ⟨_, hhead, htail, hlt⟩
    · rw [hsame]
      exact hle
    · omega

theorem resizeLoop_cases (fuel : Nat) :
    ∀ {r newQueue : Ring α} {p : Ring α × Ring α},
      r.resizeLoop config fuel newQueue = some p →
      p.2.depth = newQueue.depth ∧ p.1.tail = r.tail ∧ r.head ≤ p.1.head ∧
        (r.pop.1.isSome → 0 < fuel → r.head < p.1.head) ∧ (r.pop.1 = none → p = (r, newQueue)) := by
  induction fuel with
  | zero =>
    intro r newQueue p h
    rw [Ring.resizeLoop, Option.some.injEq] at h
    rw [← h]
    exact ⟨rfl, rfl, Nat.le_refl _, fun _ hpos => absurd hpos (Nat.lt_irrefl _), fun _ => rfl⟩
  | succ fuel ih =>
    intro r newQueue p h
    rw [Ring.resizeLoop] at h
    have hcases := pop_cases r
    cases hpop : r.pop with
    | mk popped r₁ =>
      rw [hpop] at h hcases
      cases popped with
      | none =>
        rcases hcases with ⟨_, hsame⟩ | ⟨hsome, _⟩
        · dsimp only at h hsame
          rw [Option.some.injEq, hsame] at h
          rw [← h]
          exact ⟨rfl, rfl, Nat.le_refl _, fun hsome => (by cases hsome), fun _ => rfl⟩
        · cases hsome
      | some v =>
        rcases hcases with ⟨hnone, _⟩ | ⟨_, hhead, htail, _⟩
        · cases hnone
        · dsimp only at h hhead htail
          cases hemplace : newQueue.emplace config v with
          | none =>
            rw [hemplace] at h
            cases h
          | some a =>
            obtain ⟨accepted, newQueue₁⟩ := a
            rw [hemplace] at h
            obtain ⟨hdepth, htail', hhead', _⟩ := ih h
            have hdepth₁ := (emplace_cases hemplace).2.1
            refine ⟨hdepth.trans hdepth₁, htail'.trans htail, by omega, fun _ _ => by omega,
              fun hnone => ?_⟩
            cases hnone

/-- So many pushes in a row fit. -/
theorem pushAll_cases (vals : List α) (hconfig : config ≠ .circularMpscRingBuffer) :
    ∀ {r r' : Ring α}, r.head ≤ r.tail → r.pushAll config vals = some r' →
      vals = [] ∨ r.tail - r.head + vals.length ≤ r.depth := by
  induction vals with
  | nil =>
    intro r r' _ _
    exact Or.inl rfl
  | cons v vals ih =>
    intro r r' hle h
    unfold Ring.pushAll at h
    cases hemplace : r.emplace config v with
    | none =>
      rw [hemplace] at h
      cases h
    | some p =>
      obtain ⟨accepted, r₁⟩ := p
      cases accepted with
      | false =>
        rw [hemplace] at h
        cases h
      | true =>
        rw [hemplace] at h
        obtain ⟨hhead, hdepth, _, htrue⟩ := emplace_cases hemplace
        obtain ⟨htail, hlt⟩ := htrue rfl
        have hlt := hlt hconfig
        refine Or.inr ?_
        rw [List.length_cons]
        rcases ih (by omega) h with hnil | hsum
        · rw [hnil, List.length_nil]
          omega
        · omega

/-! ### Elements -/

/-- What can be popped of a buffer that holds a queue is the queue. -/
theorem Represents.pops (h : Represents r q) : r.pops = q := by
  have hfuel : ∀ (q : List α) {r : Ring α}, Represents r q → Ring.popsFuel q.length r = q := by
    intro q
    induction q with
    | nil =>
      intro r _
      rfl
    | cons v q ih =>
      intro r h
      obtain ⟨r₁, hpop, hr₁, _⟩ := h.pop_cons
      rw [List.length_cons, Ring.popsFuel, hpop]
      exact congrArg (List.cons v) (ih hr₁)
  rw [Ring.pops, h.bufferSize]
  exact hfuel q h

theorem Represents.pushAll (vals : List α) :
    ∀ {r : Ring α} {q : List α}, Represents r q →
      q.length + vals.length ≤ (config.queue r.depth).capacity →
      ∃ r', r.pushAll config vals = some r' ∧ Represents r' (q ++ vals) := by
  induction vals with
  | nil =>
    intro r q h _
    exact ⟨r, rfl, by rw [List.append_nil]; exact h⟩
  | cons v vals ih =>
    intro r q h hle
    rw [List.length_cons] at hle
    have hroom : q.length < (config.queue r.depth).capacity := by omega
    obtain ⟨r₁, hemplace, hr₁, hdepth⟩ := h.emplace v hroom
    obtain ⟨r', hpush, hr'⟩ := ih hr₁ (by
      rw [List.length_append, List.length_singleton, hdepth]
      omega)
    refine ⟨r', ?_, ?_⟩
    · unfold Ring.pushAll
      rw [hemplace]
      exact hpush
    · rw [List.append_assoc] at hr'
      exact hr'

theorem capacity_eq (r : Ring α) : r.capacity = r.depth := by
  rw [Ring.capacity, Ring.size, if_pos (Nat.succ_pos _)]
  rfl

theorem queue_capacity (hconfig : config ≠ .circularMpscRingBuffer) (depth : Nat) :
    (config.queue depth).capacity = depth := by
  cases config with
  | extRingBuffer | spscRingBuffer | mpscRingBuffer => rfl
  | circularMpscRingBuffer => exact absurd rfl hconfig

/-! ### The two together -/

/--
**Neither copying nor resizing keeps the elements.**  Of a buffer that any calls have led to,
in a configuration that is not circular, the copy constructor never makes a copy: it writes
behind the end of the new storage.  And `Resize` to a depth no smaller than `Size` keeps the
elements and their number, with room up to the new depth, exactly if there are none.
-/
theorem copy_resize_iff [Inhabited α] {depth : Nat} {calls : List (QueueCall α)}
    (hconfig : config ≠ .circularMpscRingBuffer)
    (h : Along (Ring.Takes config) calls (Ring.new depth) r) :
    ¬CopyPreserves r ∧ ∀ newDepth, r.bufferSize ≤ newDepth →
      ((∃ r', ResizePreserves config r newDepth r') ↔ r.bufferSize = 0) := by
  have hhead := head_le_tail h
  have hsize : r.bufferSize = r.tail - r.head := if_pos hhead
  refine ⟨?_, fun newDepth hle => ⟨?_, fun hzero => ?_⟩⟩
  · rintro ⟨c, hcopy, _⟩
    rw [copy_eq_none] at hcopy
    cases hcopy
  · rintro ⟨r', hr'⟩
    by_contra hne
    obtain ⟨p, hloop, hp⟩ := Option.map_eq_some_iff.mp hr'.returns
    obtain ⟨hdepth, htail, _, hsome, hnone⟩ := resizeLoop_cases _ hloop
    rcases pop_cases r with ⟨hpop, _⟩ | ⟨hpop, _⟩
    · -- An entry that is not ready stands at the head, and counts against the new depth.
      have hpops : r.pops = [] := by
        obtain ⟨fuel, hfuel⟩ := Nat.exists_eq_succ_of_ne_zero hne
        cases hr : r.pop with
        | mk popped r₁ =>
          rw [hr] at hpop
          dsimp only at hpop
          rw [Ring.pops, hfuel, Ring.popsFuel, hr, hpop]
      obtain ⟨r'', hpush, _⟩ := hr'.room (List.replicate newDepth default)
        (Nat.le_of_eq (by
          rw [hpops, List.length_nil, List.length_replicate, Nat.zero_add]))
      have hle' : r'.head ≤ r'.tail := by
        rw [← hp, hnone hpop]
        exact hhead
      have hroom := pushAll_cases _ hconfig hle' hpush
      rw [List.replicate_eq_nil_iff, List.length_replicate, ← hp, hnone hpop] at hroom
      dsimp only [Ring.new] at hroom
      omega
    · have hmoved := hsome hpop (Nat.pos_of_ne_zero hne)
      have hsame := hr'.size
      rw [hsize, ← hp, Ring.bufferSize] at hsame
      dsimp only at hsame
      rw [htail] at hsame
      by_cases hge : r.tail ≥ p.1.head
      · rw [if_pos hge] at hsame
        omega
      · rw [if_neg hge] at hsame
        omega
  · have hempty : ∀ r₁ : Ring α, r₁.head = r.head → r₁.tail = r.tail → Represents r₁ [] := by
      intro r₁ hhead₁ htail₁
      refine ⟨?_, Nat.zero_le _, fun i v hi => by cases hi⟩
      rw [hhead₁, htail₁, List.length_nil]
      omega
    have hpops : r.pops = [] := (hempty r rfl rfl).pops
    have hresized : r.resize config newDepth =
        some { r with depth := newDepth, ready := fun _ => false, data := fun _ => default } := by
      rw [Ring.resize, hzero]
      rfl
    have hnew := hempty
      { r with depth := newDepth, ready := fun _ => false, data := fun _ => default } rfl rfl
    refine ⟨_, hresized, ?_, ?_, capacity_eq _, fun vals hvals => ?_⟩
    · rw [hpops]
      exact hnew.pops
    · rw [hnew.bufferSize, hzero]
      rfl
    · rw [hpops, List.length_nil] at hvals
      have hroom : ([] : List α).length + vals.length ≤ (config.queue newDepth).capacity := by
        rw [List.length_nil, queue_capacity hconfig]
        exact hvals
      obtain ⟨r'', hpush, hr''⟩ := hnew.pushAll vals hroom
      exact ⟨r'', hpush, by rw [hpops]; exact hr''.pops⟩

/-- One element, and room for two more: it cannot be copied, and resizing loses it. -/
theorem copy_resize_iff_one :
    ∃ r : Ring Nat, Along (Ring.Takes .spscRingBuffer) [.push 5] (Ring.new 2) r ∧
      ¬CopyPreserves r ∧ ¬∃ r', ResizePreserves .spscRingBuffer r 3 r' := by
  have hrun : Along (Ring.Takes .spscRingBuffer) [.push 5] (Ring.new 2) _ :=
    ⟨_, ⟨true, rfl⟩, rfl⟩
  obtain ⟨hcopy, hresize⟩ := copy_resize_iff (by decide) hrun
  refine ⟨_, hrun, hcopy, fun h => ?_⟩
  have hzero := (hresize 3 (by decide)).mp h
  exact absurd hzero (by decide)

/-- A buffer of depth 2 with the element 5: its copy would write behind its end, and with a
new depth of 3 nothing is left to pop. -/
theorem copy_and_resize_lose :
    let r := (Ring.fill { (Ring.new 2 : Ring Nat) with tail := 1 } 0 5)
    (Ring.new 2).emplace .spscRingBuffer 5 = some (true, r) ∧ r.pops = [5] ∧ r.bufferSize = 1 ∧
      r.copy = none ∧
      ∃ r', r.resize .spscRingBuffer 3 = some r' ∧ r'.pops = [] ∧ r'.bufferSize = 0 := by
  exact ⟨rfl, by decide, by decide, copy_eq_none _, _, rfl, by decide, by decide⟩

end RingBuffer
end IowarpCore
