/-
Worker lanes lose nothing and duplicate nothing.

A reserved position is in flight, published or popped, in this order.  Those that are not
popped and may have touched their entry lie in a window of less than `queue_.size()`
positions from the head on, so they have entries of their own (`slot_inj`), and a ready
flag says of exactly one position that it is published.
-/
import IowarpCore.Shm.RingBuffer

namespace IowarpCore
namespace RingBuffer

open Threads

variable {α : Type} {s s' : System α}

/-- The position a producer has reserved and not published. -/
def Producer.position : Producer α → Option Nat
  | .waitSpace _ tail | .writeData _ tail | .setReady tail => some tail
  | _ => none

/-- The value a producer was called with and has no position for. -/
def Producer.pending : Producer α → List α
  | .loadHead val | .addTail val _ => [val]
  | _ => []

/-- The consumer has cleared the flag of the position at the head. -/
def Consumer.clearing : Consumer α → Bool
  | .addHead _ => true
  | _ => false

/-- The value of a position. -/
def History.value (h : History α) (pos : Nat) : Option α :=
  (h.reserved[pos]?).map Prod.snd

/-- What a producer may rely on. -/
def ProducerOk (s : Lane α) : Producer α → Prop
  | .idle | .loadHead _ => True
  | .addTail _ head => head ≤ s.ring.head
  | .waitSpace val tail => s.past.value tail = some val
  | .writeData val tail => s.past.value tail = some val ∧ tail + 1 < s.ring.head + s.ring.size
  | .setReady tail => s.past.value tail = some (s.ring.data (s.ring.slot tail)) ∧
      tail + 1 < s.ring.head + s.ring.size

/-- What the consumer may rely on. -/
def ConsumerOk (s : Lane α) : Consumer α → Prop
  | .idle | .loadHead => True
  | .loadTail head => head = s.ring.head
  | .isReady head => head = s.ring.head
  | .readData head => head = s.ring.head ∧ s.ring.head ∈ s.past.published
  | .clearReady head val => head = s.ring.head ∧ s.ring.head ∈ s.past.published ∧
      s.past.value s.ring.head = some val
  | .addHead val => s.ring.head ∈ s.past.published ∧ s.past.value s.ring.head = some val

/-- The entries of the positions that are published and not popped. -/
structure Slots (s : Lane α) : Prop where
  reserved : ∀ t ∈ s.past.published, t < s.ring.tail
  window : ∀ t ∈ s.past.published, t + 1 < s.ring.head + s.ring.size
  value : ∀ t ∈ s.past.published, s.ring.head ≤ t →
    s.past.value t = some (s.ring.data (s.ring.slot t))
  ready : ∀ t ∈ s.past.published, s.ring.head ≤ t →
    s.ring.ready (s.ring.slot t) = true ∨ (t = s.ring.head ∧ s.consumer.clearing = true)
  readyOnly : ∀ j, s.ring.ready j = true → ∃ t ∈ s.past.published, s.ring.head ≤ t ∧
    s.ring.slot t = j ∧ ¬ (t = s.ring.head ∧ s.consumer.clearing = true)

structure Inv (s : System α) : Prop where
  length : s.shared.past.reserved.length = s.shared.ring.tail
  taken : s.shared.past.taken =
    (s.shared.past.reserved.map Prod.snd).take s.shared.ring.head
  head_le : s.shared.ring.head ≤ s.shared.ring.tail
  slots : Slots s.shared
  consumer : ConsumerOk s.shared s.shared.consumer
  producers : ∀ (i : Nat) (p : Producer α), s.locals[i]? = some p → ProducerOk s.shared p
  inFlight : ∀ (i : Nat) (p : Producer α), s.locals[i]? = some p → ∀ t, p.position = some t →
    s.shared.ring.head ≤ t ∧ t < s.shared.ring.tail ∧ t ∉ s.shared.past.published
  distinct : ∀ (i j : Nat) (p q : Producer α), s.locals[i]? = some p → s.locals[j]? = some q →
    ∀ t, p.position = some t → q.position = some t → i = j
  calls : ∀ i, ofProducer i s.shared.past.calls = ofProducer i s.shared.past.reserved ++
    (s.locals[i]?.map Producer.pending).getD []

/-- Positions of one window have entries of their own. -/
theorem slot_inj {r : Ring α} {a b : Nat} (ha : r.head ≤ a) (hb : r.head ≤ b)
    (ha' : a < r.head + r.size) (hb' : b < r.head + r.size) (h : r.slot a = r.slot b) : a = b := by
  have hzero {c d : Nat} (hmod : r.slot d = r.slot c) (hlt : d - c < r.size) : d - c = 0 :=
    Nat.eq_zero_of_dvd_of_lt (Nat.dvd_of_mod_eq_zero (Nat.sub_mod_eq_zero_of_mod_eq hmod)) hlt
  have := hzero h (by omega)
  have := hzero h.symm (by omega)
  omega

theorem inv_start [Inhabited α] (depth n : Nat) : Inv (start depth n : System α) := by
  have hidle : ∀ (i : Nat) (p : Producer α), (start depth n : System α).locals[i]? = some p →
      p = .idle := by
    intro i p hi
    exact List.eq_of_mem_replicate (List.mem_of_getElem? hi)
  refine ⟨rfl, rfl, Nat.le_refl _, ⟨?_, ?_, ?_, ?_, ?_⟩, trivial, ?_, ?_, ?_, ?_⟩
  · intro t ht
    cases ht
  · intro t ht
    cases ht
  · intro t ht
    cases ht
  · intro t ht
    cases ht
  · intro j hj
    cases hj
  · intro i p hi
    rw [hidle i p hi]
    trivial
  · intro i p hi t ht
    rw [hidle i p hi] at ht
    cases ht
  · intro i j p q hi hj t hp
    rw [hidle i p hi] at hp
    cases hp
  · intro i
    cases hi : (start depth n : System α).locals[i]? with
    | none => rfl
    | some p =>
      rw [hidle i p hi]
      rfl

/-! ### Steps of a producer -/

section

variable {i : Nat} {p p' : Producer α}

theorem pending_set (hi : s.locals[i]? = some p) (j : Nat) :
    ((s.locals.set i p')[j]?.map Producer.pending).getD [] =
      if j = i then p'.pending else (s.locals[j]?.map Producer.pending).getD [] := by
  have hlt : i < s.locals.length := (List.getElem?_eq_some_iff.mp hi).1
  by_cases hji : j = i
  · subst hji
    rw [List.getElem?_set_self hlt, if_pos rfl]
    rfl
  · rw [List.getElem?_set_ne (Ne.symm hji), if_neg hji]

/-- A producer that changes nothing but its place. -/
theorem Inv.move (hs : Inv s) (hi : s.locals[i]? = some p) (hok : ProducerOk s.shared p')
    (hpos : p'.position = p.position) (hpending : p'.pending = p.pending) :
    Inv ⟨s.shared, s.locals.set i p'⟩ := by
  refine { hs with
    producers := forall_set hi hs.producers hok (fun j q _ _ hq => hq)
    inFlight := forall_set hi hs.inFlight ?_ (fun j q _ _ hq => hq)
    distinct := ?_
    calls := ?_ }
  · intro t ht
    exact hs.inFlight i p hi t (hpos ▸ ht)
  · have hback : ∀ (j : Nat) (q : Producer α), (s.locals.set i p')[j]? = some q →
        ∃ q', s.locals[j]? = some q' ∧ q.position = q'.position :=
      forall_set (P := fun j q => s.locals[j]? = some q) hi (fun _ _ h => h) ⟨p, hi, hpos⟩
        (fun j q _ hj _ => ⟨q, hj, rfl⟩)
    intro j k q r hj hk t hq hr
    obtain ⟨q', hj', hq'⟩ := hback j q hj
    obtain ⟨r', hk', hr'⟩ := hback k r hk
    exact hs.distinct j k q' r' hj' hk' t (hq' ▸ hq) (hr' ▸ hr)
  · intro j
    have := hs.calls j
    rw [pending_set hi]
    split
    · rename_i hji
      subst hji
      rw [hi] at this
      rw [this, hpending]
      rfl
    · exact this

theorem ofProducer_concat (i j : Nat) (l : List (Nat × α)) (val : α) :
    ofProducer j (l ++ [(i, val)]) = ofProducer j l ++ if j = i then [val] else [] := by
  by_cases hji : j = i
  · simp [ofProducer, hji]
  · simp [ofProducer, hji, Ne.symm hji]

/-- `Push` is called. -/
theorem Inv.push {val : α} (hs : Inv s) (hi : s.locals[i]? = some .idle) :
    Inv ⟨{ s.shared with
      past := { s.shared.past with calls := s.shared.past.calls ++ [(i, val)] } },
      s.locals.set i (.loadHead val)⟩ := by
  refine { length := hs.length, taken := hs.taken, head_le := hs.head_le
           slots := ⟨hs.slots.1, hs.slots.2, hs.slots.3, hs.slots.4, hs.slots.5⟩
           consumer := ?_, producers := ?_
           inFlight := forall_set hi hs.inFlight (by simp [Producer.position]) (fun j q _ _ hq => hq)
           distinct := ?_, calls := ?_ }
  · have := hs.consumer
    cases hc : s.shared.consumer with
    | _ => rw [hc] at this; exact this
  · refine forall_set hi hs.producers trivial ?_
    intro j q _ _ hq
    cases q with
    | _ => exact hq
  · intro j k q r hj hk t hq hr
    rcases at_set hi hj with ⟨rfl, rfl⟩ | ⟨-, hj'⟩
    · cases hq
    · rcases at_set hi hk with ⟨rfl, rfl⟩ | ⟨-, hk'⟩
      · cases hr
      · exact hs.distinct j k q r hj' hk' t hq hr
  · intro j
    have hj := hs.calls j
    show ofProducer j (s.shared.past.calls ++ [(i, val)]) = ofProducer j s.shared.past.reserved ++ _
    rw [pending_set hi, ofProducer_concat, hj]
    split
    · rename_i hji
      subst hji
      simp [hi, Producer.pending]
    · simp

/-- What a producer relies on is not touched by others. -/
theorem ProducerOk.mono {l l' : Lane α} (h : ProducerOk l p)
    (hvalue : ∀ t v, l.past.value t = some v → l'.past.value t = some v)
    (hhead : l.ring.head ≤ l'.ring.head) (hsize : l'.ring.size = l.ring.size)
    (hdata : ∀ t, p = .setReady t →
      l'.ring.data (l'.ring.slot t) = l.ring.data (l.ring.slot t)) : ProducerOk l' p := by
  cases p with
  | idle | loadHead => trivial
  | addTail val head => exact Nat.le_trans h hhead
  | waitSpace val tail => exact hvalue _ _ h
  | writeData val tail =>
    refine ⟨hvalue _ _ h.1, ?_⟩
    have := h.2
    omega
  | setReady tail =>
    refine ⟨?_, ?_⟩
    · rw [hdata tail rfl]
      exact hvalue _ _ h.1
    · have := h.2
      omega

theorem afterHead_position (r : Ring α) (val : α) (tail head : Nat) :
    (afterHead r val tail head).position = some tail := by
  unfold afterHead
  split <;> rfl

theorem afterHead_pending (r : Ring α) (val : α) (tail head : Nat) :
    (afterHead r val tail head).pending = [] := by
  unfold afterHead
  split <;> rfl

theorem afterHead_ok {l : Lane α} {r : Ring α} {val : α} {tail head : Nat}
    (hvalue : l.past.value tail = some val) (hhead : head ≤ l.ring.head) (htail : head ≤ tail)
    (hsize : r.size = l.ring.size) : ProducerOk l (afterHead r val tail head) := by
  unfold afterHead
  split
  · exact hvalue
  · exact ⟨hvalue, by omega⟩

theorem value_concat {h : History α} {x : Nat × α} {t : Nat} {v : α}
    (hv : h.value t = some v) :
    ({ h with reserved := h.reserved ++ [x] } : History α).value t = some v := by
  obtain ⟨y, hy, rfl⟩ := Option.map_eq_some_iff.mp hv
  have hlt : t < h.reserved.length := (List.getElem?_eq_some_iff.mp hy).1
  unfold History.value
  rw [List.getElem?_append_left hlt, hy]
  rfl

/-- A position is reserved. -/
theorem Inv.reserve {val : α} {head : Nat} (hs : Inv s)
    (hi : s.locals[i]? = some (.addTail val head)) :
    Inv ⟨{ s.shared with
      ring := { s.shared.ring with tail := s.shared.ring.tail + 1 }
      past := { s.shared.past with reserved := s.shared.past.reserved ++ [(i, val)] } },
      s.locals.set i (afterHead s.shared.ring val s.shared.ring.tail head)⟩ := by
  have hhead : head ≤ s.shared.ring.head := hs.producers i _ hi
  have hvalue : ({ s.shared.past with
      reserved := s.shared.past.reserved ++ [(i, val)] } : History α).value s.shared.ring.tail =
        some val := by
    unfold History.value
    rw [← hs.length]
    simp
  refine { length := ?_, taken := ?_, head_le := Nat.le_succ_of_le hs.head_le
           slots := ⟨?_, hs.slots.window, ?_, hs.slots.ready, hs.slots.readyOnly⟩
           consumer := ?_, producers := ?_, inFlight := ?_, distinct := ?_, calls := ?_ }
  · show (s.shared.past.reserved ++ [(i, val)]).length = s.shared.ring.tail + 1
    rw [List.length_append, hs.length]
    rfl
  · show s.shared.past.taken = _
    rw [hs.taken, List.map_append, List.take_append_of_le_length]
    rw [List.length_map, hs.length]
    exact hs.head_le
  · intro t ht
    exact Nat.lt_succ_of_lt (hs.slots.reserved t ht)
  · intro t ht hle
    exact value_concat (hs.slots.value t ht hle)
  · have := hs.consumer
    cases hc : s.shared.consumer with
    | idle | loadHead => trivial
    | loadTail | isReady | readData =>
      rw [hc] at this
      exact this
    | clearReady head v =>
      rw [hc] at this
      exact ⟨this.1, this.2.1, value_concat this.2.2⟩
    | addHead v =>
      rw [hc] at this
      exact ⟨this.1, value_concat this.2⟩
  · refine forall_set hi hs.producers ?_ ?_
    · exact afterHead_ok hvalue hhead (Nat.le_trans hhead hs.head_le) rfl
    · intro j q _ _ hq
      exact hq.mono (fun t v => value_concat) (Nat.le_refl _) rfl (fun _ _ => rfl)
  · refine forall_set hi hs.inFlight ?_ ?_
    · intro t ht
      rw [afterHead_position] at ht
      obtain rfl := Option.some.inj ht
      exact ⟨hs.head_le, Nat.lt_succ_self _, fun hmem => Nat.lt_irrefl _ (hs.slots.reserved _ hmem)⟩
    · intro j q _ _ hq t ht
      obtain ⟨h1, h2, h3⟩ := hq t ht
      exact ⟨h1, Nat.lt_succ_of_lt h2, h3⟩
  · -- the position is beyond all others
    have hnew : ∀ (j : Nat) (q : Producer α), s.locals[j]? = some q →
        q.position ≠ some s.shared.ring.tail := by
      intro j q hj hq
      exact Nat.lt_irrefl _ (hs.inFlight j q hj _ hq).2.1
    intro j k q r hj hk t hq hr
    rcases at_set hi hj with ⟨rfl, rfl⟩ | ⟨-, hj'⟩
    · rcases at_set hi hk with ⟨rfl, rfl⟩ | ⟨-, hk'⟩
      · rfl
      · rw [afterHead_position] at hq
        rw [← Option.some.inj hq] at hr
        exact absurd hr (hnew k r hk')
    · rcases at_set hi hk with ⟨rfl, rfl⟩ | ⟨-, hk'⟩
      · rw [afterHead_position] at hr
        rw [← Option.some.inj hr] at hq
        exact absurd hq (hnew j q hj')
      · exact hs.distinct j k q r hj' hk' t hq hr
  · intro j
    have hj := hs.calls j
    show ofProducer j s.shared.past.calls = ofProducer j (s.shared.past.reserved ++ [(i, val)]) ++ _
    rw [pending_set hi, ofProducer_concat, hj, afterHead_pending]
    split
    · rename_i hji
      subst hji
      simp [hi, Producer.pending]
    · simp

/-- A position in flight whose entry may be touched shares it with no position that is
published and not popped, and with no other in flight. -/
theorem slot_ne {r : Ring α} {t u : Nat} (hne : u ≠ t) (ht : r.head ≤ t) (hu : r.head ≤ u)
    (ht' : t + 1 < r.head + r.size) (hu' : u + 1 < r.head + r.size) : r.slot u ≠ r.slot t :=
  fun h => hne (slot_inj hu ht (by omega) (by omega) h)

/-- The value is written into the entry. -/
theorem Inv.write {val : α} {tail : Nat} (hs : Inv s)
    (hi : s.locals[i]? = some (.writeData val tail)) :
    Inv ⟨{ s.shared with
      ring := { s.shared.ring with
        data := Function.update s.shared.ring.data (s.shared.ring.slot tail) val } },
      s.locals.set i (.setReady tail)⟩ := by
  obtain ⟨hvalue, hroom⟩ := hs.producers i _ hi
  obtain ⟨hge, hlt, hfresh⟩ := hs.inFlight i _ hi tail rfl
  refine { length := hs.length, taken := hs.taken, head_le := hs.head_le
           slots := ⟨hs.slots.reserved, hs.slots.window, ?_, hs.slots.ready, hs.slots.readyOnly⟩
           consumer := ?_, producers := ?_, inFlight := ?_, distinct := ?_, calls := ?_ }
  · intro t ht hle
    have hne : s.shared.ring.slot t ≠ s.shared.ring.slot tail :=
      slot_ne (fun h => hfresh (h ▸ ht)) hge hle hroom (hs.slots.window t ht)
    show _ = some (Function.update s.shared.ring.data _ val (s.shared.ring.slot t))
    rw [Function.update_of_ne hne]
    exact hs.slots.value t ht hle
  · have := hs.consumer
    cases hc : s.shared.consumer with
    | _ => rw [hc] at this; exact this
  · refine forall_set hi hs.producers ⟨?_, hroom⟩ ?_
    · show _ = some (Function.update s.shared.ring.data _ val (s.shared.ring.slot tail))
      rw [Function.update_self]
      exact hvalue
    · intro j q hji hj hq
      refine hq.mono (fun _ _ h => h) (Nat.le_refl _) rfl ?_
      rintro t rfl
      have hne : t ≠ tail := fun h => hji (hs.distinct j i _ _ hj hi t rfl (h ▸ rfl))
      exact Function.update_of_ne
        (slot_ne hne hge (hs.inFlight j _ hj t rfl).1 hroom hq.2) _ _
  · refine forall_set hi hs.inFlight ?_ (fun j q _ _ hq => hq)
    intro t ht
    exact hs.inFlight i _ hi t ht
  · intro j k q r hj hk t hq hr
    rcases at_set hi hj with ⟨rfl, rfl⟩ | ⟨-, hj'⟩
    · rcases at_set hi hk with ⟨rfl, rfl⟩ | ⟨-, hk'⟩
      · rfl
      · exact hs.distinct j k _ r hi hk' t hq hr
    · rcases at_set hi hk with ⟨rfl, rfl⟩ | ⟨-, hk'⟩
      · exact hs.distinct j k q _ hj' hi t hq hr
      · exact hs.distinct j k q r hj' hk' t hq hr
  · intro j
    have hj := hs.calls j
    show ofProducer j s.shared.past.calls = ofProducer j s.shared.past.reserved ++ _
    rw [pending_set hi, hj]
    split
    · rename_i hji
      subst hji
      simp [hi, Producer.pending]
    · rfl

/-- The position is published. -/
theorem Inv.publish {tail : Nat} (hs : Inv s) (hi : s.locals[i]? = some (.setReady tail)) :
    Inv ⟨{ s.shared with
      ring := { s.shared.ring with
        ready := Function.update s.shared.ring.ready (s.shared.ring.slot tail) true }
      past := { s.shared.past with published := s.shared.past.published ++ [tail] } },
      s.locals.set i .idle⟩ := by
  obtain ⟨hvalue, hroom⟩ := hs.producers i _ hi
  obtain ⟨hge, hlt, hfresh⟩ := hs.inFlight i _ hi tail rfl
  -- the consumer is busy with a position that is published already
  have hclearing : ¬ (tail = s.shared.ring.head ∧ s.shared.consumer.clearing = true) := by
    rintro ⟨rfl, hc⟩
    have hok := hs.consumer
    cases hcons : s.shared.consumer with
    | addHead v =>
      rw [hcons] at hok
      exact hfresh hok.1
    | _ =>
      rw [hcons] at hc
      cases hc
  have hmem {t : Nat} : t ∈ s.shared.past.published ++ [tail] ↔
      t ∈ s.shared.past.published ∨ t = tail := by
    rw [List.mem_append, List.mem_singleton]
  refine { length := hs.length, taken := hs.taken, head_le := hs.head_le
           slots := ⟨?_, ?_, ?_, ?_, ?_⟩
           consumer := ?_, producers := ?_, inFlight := ?_, distinct := ?_, calls := ?_ }
  · intro t ht
    rcases hmem.mp ht with ht | rfl
    · exact hs.slots.reserved t ht
    · exact hlt
  · intro t ht
    rcases hmem.mp ht with ht | rfl
    · exact hs.slots.window t ht
    · exact hroom
  · intro t ht hle
    rcases hmem.mp ht with ht | rfl
    · exact hs.slots.value t ht hle
    · exact hvalue
  · intro t ht hle
    by_cases hslot : s.shared.ring.slot t = s.shared.ring.slot tail
    · left
      show Function.update s.shared.ring.ready _ true (s.shared.ring.slot t) = true
      rw [hslot, Function.update_self]
    · rcases hmem.mp ht with ht | rfl
      · rcases hs.slots.ready t ht hle with h | h
        · left
          show Function.update s.shared.ring.ready _ true (s.shared.ring.slot t) = true
          rw [Function.update_of_ne hslot]
          exact h
        · exact Or.inr h
      · exact absurd rfl hslot
  · intro j hj
    by_cases hslot : j = s.shared.ring.slot tail
    · exact ⟨tail, hmem.mpr (Or.inr rfl), hge, hslot.symm, hclearing⟩
    · have hj' : s.shared.ring.ready j = true := by
        have h : Function.update s.shared.ring.ready (s.shared.ring.slot tail) true j = true := hj
        rw [Function.update_of_ne hslot] at h
        exact h
      obtain ⟨t, ht, h⟩ := hs.slots.readyOnly j hj'
      exact ⟨t, hmem.mpr (Or.inl ht), h⟩
  · have := hs.consumer
    cases hc : s.shared.consumer with
    | idle | loadHead => trivial
    | loadTail | isReady =>
      rw [hc] at this
      exact this
    | readData head =>
      rw [hc] at this
      exact ⟨this.1, hmem.mpr (Or.inl this.2)⟩
    | clearReady head v =>
      rw [hc] at this
      exact ⟨this.1, hmem.mpr (Or.inl this.2.1), this.2.2⟩
    | addHead v =>
      rw [hc] at this
      exact ⟨hmem.mpr (Or.inl this.1), this.2⟩
  · refine forall_set hi hs.producers trivial ?_
    intro j q _ _ hq
    exact hq.mono (fun _ _ h => h) (Nat.le_refl _) rfl (fun _ _ => rfl)
  · refine forall_set hi hs.inFlight (by simp [Producer.position]) ?_
    intro j q hji hj hq t ht
    obtain ⟨h1, h2, h3⟩ := hq t ht
    refine ⟨h1, h2, fun hm => ?_⟩
    rcases hmem.mp hm with hm | rfl
    · exact h3 hm
    · exact hji (hs.distinct j i q _ hj hi t ht rfl)
  · intro j k q r hj hk t hq hr
    rcases at_set hi hj with ⟨rfl, rfl⟩ | ⟨-, hj'⟩
    · cases hq
    · rcases at_set hi hk with ⟨rfl, rfl⟩ | ⟨-, hk'⟩
      · cases hr
      · exact hs.distinct j k q r hj' hk' t hq hr
  · intro j
    have hj := hs.calls j
    show ofProducer j s.shared.past.calls = ofProducer j s.shared.past.reserved ++ _
    rw [pending_set hi, hj]
    split
    · rename_i hji
      subst hji
      simp [hi, Producer.pending]
    · rfl

theorem Inv.producer {l : Lane α} (hs : Inv s) (hi : s.locals[i]? = some p)
    (h : emplaceStep i s.shared p = some (l, p')) : Inv ⟨l, s.locals.set i p'⟩ := by
  cases p with
  | idle => cases h
  | loadHead val =>
    obtain ⟨rfl, rfl⟩ := Prod.mk.inj (Option.some.inj h)
    exact hs.move hi (Nat.le_refl _) rfl rfl
  | addTail val head =>
    obtain ⟨rfl, rfl⟩ := Prod.mk.inj (Option.some.inj h)
    exact hs.reserve hi
  | waitSpace val tail =>
    obtain ⟨rfl, rfl⟩ := Prod.mk.inj (Option.some.inj h)
    refine hs.move hi ?_ (afterHead_position _ _ _ _) (afterHead_pending _ _ _ _)
    exact afterHead_ok (hs.producers i _ hi) (Nat.le_refl _) (hs.inFlight i _ hi tail rfl).1 rfl
  | writeData val tail =>
    obtain ⟨rfl, rfl⟩ := Prod.mk.inj (Option.some.inj h)
    exact hs.write hi
  | setReady tail =>
    obtain ⟨rfl, rfl⟩ := Prod.mk.inj (Option.some.inj h)
    exact hs.publish hi

end

/-! ### Steps of the consumer -/

/-- The consumer changes nothing but its place. -/
theorem Inv.look {c : Consumer α} (hs : Inv s) (hok : ConsumerOk s.shared c)
    (hbefore : s.shared.consumer.clearing = false) (hafter : c.clearing = false) :
    Inv { s with shared := { s.shared with consumer := c } } := by
  refine { length := hs.length, taken := hs.taken, head_le := hs.head_le
           slots := ⟨hs.slots.reserved, hs.slots.window, hs.slots.value, ?_, ?_⟩
           consumer := ?_, producers := ?_, inFlight := hs.inFlight, distinct := hs.distinct
           calls := hs.calls }
  · intro t ht hle
    rcases hs.slots.ready t ht hle with h | ⟨-, h⟩
    · exact Or.inl h
    · rw [hbefore] at h
      cases h
  · intro j hj
    obtain ⟨t, ht, hle, hslot, -⟩ := hs.slots.readyOnly j hj
    refine ⟨t, ht, hle, hslot, ?_⟩
    rintro ⟨-, h⟩
    rw [hafter] at h
    cases h
  · cases c with
    | _ => exact hok
  · intro i p hi
    exact (hs.producers i p hi).mono (fun _ _ h => h) (Nat.le_refl _) rfl (fun _ _ => rfl)

/-- `Pop` returns false. -/
theorem Inv.refuse (hs : Inv s) (hbefore : s.shared.consumer.clearing = false) :
    Inv { s with shared := s.shared.popped none } := by
  have hidle := hs.look (c := .idle) trivial hbefore rfl
  refine { hidle with taken := ?_, producers := ?_, slots := ?_, consumer := trivial }
  · show (s.shared.past.results ++ [none]).filterMap id =
      (s.shared.past.reserved.map Prod.snd).take s.shared.ring.head
    rw [List.filterMap_append, ← hs.taken]
    exact List.append_nil _
  · exact ⟨hidle.slots.1, hidle.slots.2, hidle.slots.3, hidle.slots.4, hidle.slots.5⟩
  · intro i p hi
    exact (hs.producers i p hi).mono (fun _ _ h => h) (Nat.le_refl _) rfl (fun _ _ => rfl)

/-- The flag of the position at the head is cleared. -/
theorem Inv.clear {head : Nat} {val : α} (hs : Inv s)
    (hc : s.shared.consumer = .clearReady head val) :
    Inv { s with shared := { s.shared with
      ring := { s.shared.ring with
        ready := Function.update s.shared.ring.ready (s.shared.ring.slot head) false }
      consumer := .addHead val } } := by
  have hok := hs.consumer
  rw [hc] at hok
  obtain ⟨rfl, hpub, hvalue⟩ := hok
  refine { length := hs.length, taken := hs.taken, head_le := hs.head_le
           slots := ⟨hs.slots.reserved, hs.slots.window, hs.slots.value, ?_, ?_⟩
           consumer := ⟨hpub, hvalue⟩, producers := ?_, inFlight := hs.inFlight
           distinct := hs.distinct, calls := hs.calls }
  · intro t ht hle
    by_cases hhead : t = s.shared.ring.head
    · exact Or.inr ⟨hhead, rfl⟩
    · left
      have hne := slot_ne hhead (Nat.le_refl _) hle (hs.slots.window _ hpub) (hs.slots.window t ht)
      show Function.update s.shared.ring.ready _ false (s.shared.ring.slot t) = true
      rw [Function.update_of_ne hne]
      rcases hs.slots.ready t ht hle with h | h
      · exact h
      · exact absurd h.1 hhead
  · intro j hj
    have hj : Function.update s.shared.ring.ready (s.shared.ring.slot s.shared.ring.head) false j =
      true := hj
    by_cases hslot : j = s.shared.ring.slot s.shared.ring.head
    · rw [hslot, Function.update_self] at hj
      cases hj
    · rw [Function.update_of_ne hslot] at hj
      obtain ⟨t, ht, hle, hts, -⟩ := hs.slots.readyOnly j hj
      refine ⟨t, ht, hle, hts, ?_⟩
      rintro ⟨rfl, -⟩
      exact hslot hts.symm
  · intro i p hi
    exact (hs.producers i p hi).mono (fun _ _ h => h) (Nat.le_refl _) rfl (fun _ _ => rfl)

/-- The head moves on and `Pop` returns the value. -/
theorem Inv.advance {val : α} (hs : Inv s) (hc : s.shared.consumer = .addHead val) :
    Inv { s with shared := Lane.popped { s.shared with
      ring := { s.shared.ring with head := s.shared.ring.head + 1 } } (some val) } := by
  have hok := hs.consumer
  rw [hc] at hok
  obtain ⟨hpub, hvalue⟩ := hok
  refine { length := hs.length, taken := ?_
           head_le := hs.slots.reserved _ hpub
           slots := ⟨hs.slots.reserved, ?_, ?_, ?_, ?_⟩
           consumer := trivial, producers := ?_, inFlight := ?_, distinct := hs.distinct
           calls := hs.calls }
  · show (s.shared.past.results ++ [some val]).filterMap id =
      (s.shared.past.reserved.map Prod.snd).take (s.shared.ring.head + 1)
    rw [List.filterMap_append, List.take_add_one, List.getElem?_map]
    have hlast : Option.map Prod.snd s.shared.past.reserved[s.shared.ring.head]? = some val := hvalue
    rw [hlast]
    exact congrArg (· ++ [val]) hs.taken
  · intro t ht
    have := hs.slots.window t ht
    show t + 1 < s.shared.ring.head + 1 + s.shared.ring.size
    omega
  · intro t ht hle
    exact hs.slots.value t ht (Nat.le_of_succ_le hle)
  · intro t ht hle
    rcases hs.slots.ready t ht (Nat.le_of_succ_le hle) with h | h
    · exact Or.inl h
    · have hle : s.shared.ring.head + 1 ≤ t := hle
      omega
  · intro j hj
    obtain ⟨t, ht, hle, hts, hnot⟩ := hs.slots.readyOnly j hj
    have hne : t ≠ s.shared.ring.head := fun h => hnot ⟨h, by rw [hc]; rfl⟩
    refine ⟨t, ht, ?_, hts, fun h => absurd h.2 (by simp [Lane.popped, Consumer.clearing])⟩
    show s.shared.ring.head + 1 ≤ t
    omega
  · intro i p hi
    exact (hs.producers i p hi).mono (fun _ _ h => h) (Nat.le_succ _) rfl (fun _ _ => rfl)
  · intro i p hi t ht
    obtain ⟨h1, h2, h3⟩ := hs.inFlight i p hi t ht
    have hne : t ≠ s.shared.ring.head := fun h => h3 (h ▸ hpub)
    refine ⟨?_, h2, h3⟩
    show s.shared.ring.head + 1 ≤ t
    omega

/-- The flag of the head's entry is set only for the position at the head. -/
theorem Inv.published_of_ready (hs : Inv s)
    (h : s.shared.ring.ready (s.shared.ring.slot s.shared.ring.head) = true) :
    s.shared.ring.head ∈ s.shared.past.published := by
  obtain ⟨t, ht, hle, hslot, -⟩ := hs.slots.readyOnly _ h
  have hwindow := hs.slots.window t ht
  have hhead : t = s.shared.ring.head :=
    slot_inj hle (Nat.le_refl _) (by omega) (by unfold Ring.size; omega) hslot
  exact hhead ▸ ht

theorem Inv.consumerStep {l : Lane α} (hs : Inv s) (h : popStep s.shared = some l) :
    Inv { s with shared := l } := by
  have hok := hs.consumer
  unfold popStep at h
  cases hc : s.shared.consumer with
  | idle =>
    rw [hc] at h
    cases h
  | loadHead =>
    rw [hc] at h
    obtain rfl := Option.some.inj h
    exact hs.look rfl (by rw [hc]; rfl) rfl
  | loadTail head =>
    rw [hc] at h hok
    dsimp only at h
    split at h
    · obtain rfl := Option.some.inj h
      exact hs.refuse (by rw [hc]; rfl)
    · obtain rfl := Option.some.inj h
      exact hs.look hok (by rw [hc]; rfl) rfl
  | isReady head =>
    rw [hc] at h hok
    obtain rfl : head = s.shared.ring.head := hok
    dsimp only at h
    split at h
    · rename_i hready
      obtain rfl := Option.some.inj h
      exact hs.look ⟨rfl, hs.published_of_ready hready⟩ (by rw [hc]; rfl) rfl
    · obtain rfl := Option.some.inj h
      exact hs.refuse (by rw [hc]; rfl)
  | readData head =>
    rw [hc] at h hok
    obtain ⟨rfl, hpub⟩ := hok
    obtain rfl := Option.some.inj h
    exact hs.look ⟨rfl, hpub, hs.slots.value _ hpub (Nat.le_refl _)⟩ (by rw [hc]; rfl) rfl
  | clearReady head val =>
    rw [hc] at h
    obtain rfl := Option.some.inj h
    exact hs.clear hc
  | addHead val =>
    rw [hc] at h
    obtain rfl := Option.some.inj h
    exact hs.advance hc

/-- **Every step keeps the invariant.** -/
theorem Inv.step {mv : Move α} (hs : Inv s) (h : step mv s = some s') : Inv s' := by
  cases mv with
  | push i val =>
    simp only [RingBuffer.step] at h
    split at h
    · rename_i hi
      obtain rfl := Option.some.inj h
      exact hs.push hi
    · cases h
  | producer i =>
    simp only [RingBuffer.step] at h
    split at h
    · rename_i p hi
      obtain ⟨⟨l, p'⟩, hstep, rfl⟩ := Option.map_eq_some_iff.mp h
      exact hs.producer hi hstep
    · cases h
  | pop =>
    simp only [RingBuffer.step] at h
    split at h
    · rename_i hc
      obtain rfl := Option.some.inj h
      exact hs.look trivial (by rw [hc]; rfl) rfl
    · cases h
  | consumer =>
    obtain ⟨l, hl, rfl⟩ := Option.map_eq_some_iff.mp h
    exact hs.consumerStep hl

/-! ### What follows -/

theorem Inv.length_taken (hs : Inv s) : s.shared.past.taken.length = s.shared.ring.head := by
  rw [hs.taken, List.length_take, List.length_map, hs.length]
  exact Nat.min_eq_left hs.head_le

theorem ofProducer_mono {l l' : List (Nat × α)} (i : Nat) (h : l <+: l') :
    ofProducer i l <+: ofProducer i l' :=
  (h.filter _).map _

/-- `Pop` returns false at the load of the tail or at the test of the flag. -/
theorem Inv.not_published_of_refused {l : Lane α} (hs : Inv s) (h : popStep s.shared = some l)
    (hresult : l.past.results = s.shared.past.results ++ [none]) :
    s.shared.ring.head ∉ s.shared.past.published := by
  have hquiet (hsame : l.past.results = s.shared.past.results) : False := by
    rw [hsame] at hresult
    exact absurd (congrArg List.length hresult) (by simp)
  have hok := hs.consumer
  unfold popStep at h
  cases hc : s.shared.consumer with
  | idle =>
    rw [hc] at h
    cases h
  | loadHead | readData | clearReady =>
    rw [hc] at h
    obtain rfl := Option.some.inj h
    exact absurd rfl hquiet
  | loadTail head =>
    rw [hc] at h hok
    obtain rfl : head = s.shared.ring.head := hok
    dsimp only at h
    split at h
    · rename_i hge
      intro hpub
      exact absurd (hs.slots.reserved _ hpub) (by omega)
    · obtain rfl := Option.some.inj h
      exact absurd rfl hquiet
  | isReady head =>
    rw [hc] at h hok
    obtain rfl : head = s.shared.ring.head := hok
    dsimp only at h
    split at h
    · obtain rfl := Option.some.inj h
      exact absurd rfl hquiet
    · rename_i hready
      intro hpub
      rcases hs.slots.ready _ hpub (Nat.le_refl _) with h | ⟨-, h⟩
      · exact hready h
      · rw [hc] at h
        cases h
  | addHead val =>
    rw [hc] at h
    obtain rfl := Option.some.inj h
    have hlast := List.append_cancel_left hresult
    cases hlast

theorem Inv.lossless (hs : Inv s) : Lossless s where
  inOrder := by
    rw [hs.taken]
    exact List.take_prefix _ _
  perProducer := by
    intro i
    refine (ofProducer_mono i (List.take_prefix _ _)).trans ?_
    rw [hs.calls i]
    exact List.prefix_append _ _
  kept := by
    intro i val tail hi pos hlt hslot
    rw [hs.length_taken]
    by_contra hge
    have hroom : tail + 1 < s.shared.ring.head + s.shared.ring.size := (hs.producers i _ hi).2
    have := slot_inj (Nat.le_of_not_lt hge) (hs.inFlight i _ hi tail rfl).1 (by omega) (by omega) hslot
    omega
  popFalse := by
    intro s' h hresult
    obtain ⟨l, hl, rfl⟩ := Option.map_eq_some_iff.mp h
    exact hs.not_published_of_refused hl hresult

/-- **Of every depth, with any number of producers and in any interleaving, a lane loses
nothing and duplicates nothing, and everything comes in order.** -/
theorem lossless_of_run [Inhabited α] {depth n : Nat} {mvs : List (Move α)}
    (h : Along (fun mv s s' => step mv s = some s') mvs (start depth n) s) : Lossless s :=
  (h.invariant (fun _ _ _ _ hs hstep => hs.step hstep) (inv_start depth n)).lossless

/-- Two producers and one entry that can be used: the second waits for the first to be
popped. -/
def twoProducers : List (Move Nat) :=
  [.push 0 5, .push 1 7, .producer 0, .producer 1, .producer 0, .producer 1, .producer 1,
    .producer 0, .producer 0, .pop] ++ List.replicate 6 .consumer ++
    [.producer 1, .producer 1, .producer 1, .pop] ++ List.replicate 6 .consumer ++
    [.pop, .consumer, .consumer]

theorem lossless_twoProducers :
    ∃ s, Along (fun mv s s' => step mv s = some s') twoProducers (start 1 2) s ∧
      s.shared.past.results = [some 5, some 7, none] ∧ Lossless s := by
  have hrun : (twoProducers.foldlM (fun s mv => step mv s) (start 1 2)).map
      (fun s => s.shared.past.results) = some [some 5, some 7, none] := by
    decide +kernel
  obtain ⟨s, hs, hresults⟩ := Option.map_eq_some_iff.mp hrun
  have halong := Along.of_foldlM hs
  exact ⟨s, halong, hresults, lossless_of_run halong⟩

end RingBuffer
end IowarpCore
