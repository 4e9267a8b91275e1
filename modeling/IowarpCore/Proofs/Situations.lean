/-
Where a suspended task waits.

Every task is in one of six situations (`Situated`): queued for its first execution, sent to
another node, waiting for a time, waiting for a future, ended with its event still under way,
or done.  A worker takes a task out of its situation, executes it and puts it into another
(`Around` describes the state in between).  This works as long as no coroutine yields for no
time, every coroutine awaits what it submitted, events come in time, and a task that wakes
up finds its container on this node (`Orderly`).
-/
import IowarpCore.Proofs.CoAwait

namespace IowarpCore
namespace Runtime

open State

/-! ### Coroutines that wait for what they started -/

/-- Every yield has a time, and every subtask that is not fire-and-forget is awaited before
the coroutine returns.  `held` says of each slot whether it has a future, and of which kind. -/
def Body.joins : List (Option Bool) → Body → Bool
  | held, .coReturn => held.all fun h => h != some false
  | held, .submit header body rest =>
    body.joins [] && rest.joins (held ++ [some header.fireAndForget])
  | held, .coAwait i rest => ((held[i]?).join).isSome && rest.joins (held.set i none)
  | held, .poll _ complete pending => complete.joins held && pending.joins held
  | held, .yield us rest => decide (0 < us) && rest.joins held

/-- What the slots of a coroutine hold. -/
def holds (s : State) (slots : List (Option TaskId)) : List (Option Bool) :=
  slots.map (Option.map fun f => (s.task f).header.fireAndForget)

theorem holds_congr {s s' : State} {slots : List (Option TaskId)}
    (h : ∀ i f, slot slots i = some f → (s'.task f).header = (s.task f).header) :
    holds s' slots = holds s slots := by
  refine List.map_congr_left ?_
  intro future hmem
  cases future with
  | none => rfl
  | some f =>
    obtain ⟨i, hi, hget⟩ := List.mem_iff_getElem.mp hmem
    have hslot : slot slots i = some f := by
      unfold slot
      rw [List.getElem?_eq_getElem hi, hget]
      rfl
    simp [h i f hslot]

variable {i : Nat} {f : TaskId}

theorem holds_set {s : State} {slots : List (Option TaskId)} :
    holds s (slots.set i none) = (holds s slots).set i none := by
  simp [holds, List.map_set]

theorem holds_append {s : State} {slots : List (Option TaskId)} :
    holds s (slots ++ [some f]) = holds s slots ++ [some (s.task f).header.fireAndForget] := by
  simp [holds]

theorem slot_of_holds {s : State} {slots : List (Option TaskId)}
    (h : (((holds s slots)[i]?).join).isSome = true) : ∃ f, slot slots i = some f := by
  unfold holds at h
  rw [List.getElem?_map] at h
  unfold slot
  cases hget : slots[i]? with
  | none =>
    rw [hget] at h
    simp at h
  | some future =>
    rw [hget] at h
    cases future with
    | none => simp at h
    | some f => exact ⟨f, rfl⟩

theorem slot_append_left {slots : List (Option TaskId)}
    {future : Option TaskId} (h : slot slots i = some f) :
    slot (slots ++ [future]) i = some f := by
  unfold slot at h ⊢
  rw [List.getElem?_append_left]
  · exact h
  · by_contra hlen
    rw [List.getElem?_eq_none (by omega)] at h
    simp at h

theorem slot_append_last {slots : List (Option TaskId)} :
    slot (slots ++ [some f]) slots.length = some f := by
  unfold slot
  simp

theorem slot_set_of_ne {slots : List (Option TaskId)} {j : Nat} (hne : j ≠ i) :
    slot (slots.set i none) j = slot slots j := by
  unfold slot
  rw [List.getElem?_set, if_neg (Ne.symm hne)]

theorem mem_of_slot {slots : List (Option TaskId)}
    (h : slot slots i = some f) : some f ∈ slots := by
  unfold slot at h
  cases hget : slots[i]? with
  | none =>
    rw [hget] at h
    simp at h
  | some future =>
    rw [hget] at h
    have hfuture : future = some f := h
    rw [← hfuture]
    exact List.mem_of_getElem? hget

/-- A coroutine that may return holds no future to wait for. -/
theorem joins_coReturn {s : State} {slots : List (Option TaskId)}
    (h : Body.coReturn.joins (holds s slots) = true) (hslot : slot slots i = some f) :
    (s.task f).header.fireAndForget = true := by
  rw [Body.joins, List.all_eq_true] at h
  have hmem : some (s.task f).header.fireAndForget ∈ holds s slots :=
    List.mem_map.mpr ⟨some f, mem_of_slot hslot, rfl⟩
  have hne := h _ hmem
  cases hfire : (s.task f).header.fireAndForget with
  | true => rfl
  | false =>
    rw [hfire] at hne
    simp at hne

/-! ### Situations -/

namespace Queue

/-- Queues whose tasks are still to be executed. -/
def isRun : Queue → Bool
  | .events _ | .sendOut _ => false
  | _ => true

/-- Queues from which a suspended task is resumed. -/
def isWait : Queue → Bool
  | .lane _ | .periodic _ _ | .blocked _ _ => true
  | _ => false

def isLane : Queue → Bool
  | .lane _ => true
  | _ => false

def isSendOut : Queue → Bool
  | .sendOut _ => true
  | _ => false

end Queue

/-- The task has a context, which belongs to a worker. -/
abbrev Bound (task : Task) : Prop := task.hasContext = true ∧ task.ctx.worker ≠ none

/-- The six situations of a task. -/
inductive Situated (s : State) (t : TaskId) : Prop where
  | fresh (q : Queue) (hq : q.isRun = true) (hmem : t ∈ s.queue q)
      (hstarted : (s.task t).started = false) (hcoro : (s.task t).ctx.coroHandle = none)
      (hidle : (s.task t).ctx.isYielded = false) (hopen : (s.task t).complete = false)
      (hworker : q.isLane = false → Bound (s.task t))
      (hcontainer : q.isWait = true → q.isLane = false ∨ (s.task t).routed = true →
        (s.task t).ctx.container ≠ none)
  | sent (hmap : s.sendMap t ≠ none) (hstarted : (s.task t).started = false)
      (hcoro : (s.task t).ctx.coroHandle = none) (hidle : (s.task t).ctx.isYielded = false)
      (hopen : (s.task t).complete = false) (hworker : Bound (s.task t))
  | yielding (q : Queue) (slots : List (Option TaskId)) (us : ℚ) (rest : Body)
      (hq : q.isWait = true) (hmem : t ∈ s.queue q) (hstarted : (s.task t).started = true)
      (hcoro : (s.task t).ctx.coroHandle = some ⟨slots, .yield us rest⟩)
      (hopen : (s.task t).complete = false)
      (hworker : Bound (s.task t)) (hcontainer : (s.task t).ctx.container ≠ none)
      (hrouted : q.isLane = true → (s.task t).routed = true)
  | awaiting (f : TaskId) (hstarted : (s.task t).started = true) (hawaits : awaited s t = some f)
      (hcomplete : (s.task f).complete = false)
      (hfire : (s.task f).header.fireAndForget = false) (hopen : (s.task t).complete = false)
      (hworker : Bound (s.task t)) (hcontainer : (s.task t).ctx.container ≠ none)
  | ended (w : WorkerId) (hmem : t ∈ s.queue (.events w))
      (hcoro : (s.task t).ctx.coroHandle = none) (hcomplete : (s.task t).complete = false)
      (hfire : (s.task t).header.fireAndForget = false) (hparent : (s.task t).parent ≠ none)
  | done (hcoro : (s.task t).ctx.coroHandle = none) (hunmapped : s.sendMap t = none)
      (hqueue : ∀ q, t ∈ s.queue q → q.isSendOut = true)
      (hdone : (s.task t).parent ≠ none →
        (s.task t).complete = true ∨ (s.task t).header.fireAndForget = true)

/-- Nothing about the task has changed. -/
structure Untouched (s s' : State) (t : TaskId) : Prop where
  task : s'.task t = s.task t
  queue : ∀ q, t ∈ s'.queue q ↔ t ∈ s.queue q
  map : s'.sendMap t = s.sendMap t

theorem Untouched.refl (s : State) (t : TaskId) : Untouched s s t := ⟨rfl, fun _ => Iff.rfl, rfl⟩

theorem Untouched.trans {s s' s'' : State} {t : TaskId} (h : Untouched s s' t)
    (h' : Untouched s' s'' t) : Untouched s s'' t :=
  ⟨h'.task.trans h.task, fun q => (h'.queue q).trans (h.queue q), h'.map.trans h.map⟩

/-- An untouched task is where it was, if the future it waits for is still incomplete. -/
theorem Situated.untouched {s s' : State} {t : TaskId} (h : Situated s t)
    (hsame : Untouched s s' t)
    (hfuture : ∀ f, awaited s t = some f → (s.task f).complete = false →
      (s'.task f).complete = false ∧ (s'.task f).header = (s.task f).header) :
    Situated s' t := by
  obtain ⟨htask, hqueue, hmap⟩ := hsame
  have hawaited : awaited s' t = awaited s t := by
    unfold awaited
    rw [htask]
  cases h with
  | fresh q hq hmem hstarted hcoro hidle hopen hworker hcontainer =>
    rw [← htask] at hstarted hcoro hidle hopen hworker hcontainer
    exact .fresh q hq ((hqueue q).mpr hmem) hstarted hcoro hidle hopen hworker hcontainer
  | sent hm hstarted hcoro hidle hopen hworker =>
    rw [← htask] at hstarted hcoro hidle hopen hworker
    exact .sent (by rwa [hmap]) hstarted hcoro hidle hopen hworker
  | yielding q slots us rest hq hmem hstarted hcoro hopen hworker hcontainer hrouted =>
    rw [← htask] at hstarted hcoro hopen hworker hcontainer hrouted
    exact .yielding q slots us rest hq ((hqueue q).mpr hmem) hstarted hcoro hopen hworker
      hcontainer hrouted
  | awaiting f hstarted hawaits hcomplete hfire hopen hworker hcontainer =>
    obtain ⟨hcomplete', hheader⟩ := hfuture f hawaits hcomplete
    rw [← htask] at hstarted hopen hworker hcontainer
    rw [← hheader] at hfire
    rw [← hawaited] at hawaits
    exact .awaiting f hstarted hawaits hcomplete' hfire hopen hworker hcontainer
  | ended w hmem hcoro hcomplete hfire hparent =>
    rw [← htask] at hcoro hcomplete hfire hparent
    exact .ended w ((hqueue _).mpr hmem) hcoro hcomplete hfire hparent
  | done hcoro hunmapped hq hdone =>
    rw [← htask] at hcoro hdone
    exact .done hcoro (by rwa [hmap]) (fun q hmem => hq q ((hqueue q).mp hmem)) hdone

/-! ### Untouched tasks -/

section

variable {L : Layout} {w : WorkerId} {s : State} {t t' : TaskId}

theorem untouched_setTask {f : Task → Task} (hne : t' ≠ t) : Untouched s (s.setTask t f) t' :=
  ⟨s.setTask_of_ne t f hne, fun _ => Iff.rfl, rfl⟩

theorem untouched_setCtx {g : RunContext → RunContext} (hne : t' ≠ t) :
    Untouched s (s.setCtx t g) t' :=
  untouched_setTask hne

theorem untouched_push {q : Queue} (hne : t' ≠ t) : Untouched s (s.push q t) t' := by
  refine ⟨rfl, ?_, rfl⟩
  intro q'
  refine ⟨fun hmem => ?_, fun hmem => ?_⟩
  · rcases mem_push hmem with hmem | ⟨_, heq⟩
    · exact hmem
    · exact absurd heq hne
  · by_cases hq : q' = q
    · subst hq
      rw [push_queue_self]
      exact List.mem_append_left _ hmem
    · rwa [push_queue_of_ne s t q hq]

theorem untouched_pop {q : Queue} {rest : List TaskId} (hq : s.queue q = t :: rest)
    (hne : t' ≠ t) : Untouched s (s.pop q) t' := by
  refine ⟨rfl, ?_, rfl⟩
  intro q'
  refine ⟨mem_pop, fun hmem => ?_⟩
  by_cases hq' : q' = q
  · subst hq'
    rw [hq] at hmem
    rw [pop_queue_self, hq]
    exact (List.mem_cons.mp hmem).resolve_left hne
  · rwa [pop_queue_of_ne s q hq']

theorem untouched_new {task : Task} (hlt : t' < s.next) :
    Untouched s (({ s with next := s.next + 1, task := Function.update s.task s.next task } :
      State).push (.lane w) s.next) t' := by
  have hne : t' ≠ s.next := Nat.ne_of_lt hlt
  have hfirst : Untouched s
      { s with next := s.next + 1, task := Function.update s.task s.next task } t' :=
    ⟨Function.update_of_ne hne _ _, fun _ => Iff.rfl, rfl⟩
  exact hfirst.trans (untouched_push hne)

theorem untouched_awaitResume {future : Option TaskId} :
    Untouched s (s.awaitResume t future) t' := by
  cases future with
  | none => exact Untouched.refl s t'
  | some f => exact ⟨rfl, fun _ => Iff.rfl, rfl⟩

end

/-! ### Parents and subtasks -/

/-- The futures that a suspended task still has. -/
def frameSlots (s : State) (t : TaskId) : Option (List (Option TaskId)) :=
  (s.task t).ctx.coroHandle.map Frame.slots

/-- A subtask that is not complete is in a slot of its parent. -/
structure Kin (s : State) (slotsOf : TaskId → Option (List (Option TaskId))) : Prop where
  lineage : ∀ f < s.next, ∀ p, (s.task f).parent = some p → p < f ∧ (s.task f).origin = none
  bodies : ∀ t < s.next, (s.task t).body.joins [] = true
  owned : ∀ p slots i f, slotsOf p = some slots → slot slots i = some f →
    f < s.next ∧ (s.task f).parent = some p
  kept : ∀ f < s.next, ∀ p, (s.task f).parent = some p →
    (s.task f).header.fireAndForget = false → (s.task f).complete = false →
    ∃ slots i, slotsOf p = some slots ∧ slot slots i = some f

/-- What no worker changes once a task is there. -/
structure Lasting (s s' : State) (t : TaskId) : Prop where
  header : (s'.task t).header = (s.task t).header
  body : (s'.task t).body = (s.task t).body
  parent : (s'.task t).parent = (s.task t).parent
  origin : (s'.task t).origin = (s.task t).origin
  complete : (s.task t).complete = true → (s'.task t).complete = true

theorem Untouched.lasting {s s' : State} {t : TaskId} (h : Untouched s s' t) : Lasting s s' t := by
  constructor <;> simp [h.task]

theorem Kin.lasting {s s' : State} {slotsOf : TaskId → Option (List (Option TaskId))}
    (h : Kin s slotsOf) (hnext : s'.next = s.next) (hlast : ∀ t < s.next, Lasting s s' t) :
    Kin s' slotsOf := by
  refine ⟨?_, ?_, ?_, ?_⟩
  · intro f hf p hp
    rw [hnext] at hf
    rw [(hlast f hf).parent] at hp
    rw [(hlast f hf).origin]
    exact h.lineage f hf p hp
  · intro t ht
    rw [hnext] at ht
    rw [(hlast t ht).body]
    exact h.bodies t ht
  · intro p slots i f hslots hslot
    obtain ⟨hf, hp⟩ := h.owned p slots i f hslots hslot
    rw [hnext, (hlast f hf).parent]
    exact ⟨hf, hp⟩
  · intro f hf p hp hfire hcomplete
    rw [hnext] at hf
    rw [(hlast f hf).parent] at hp
    rw [(hlast f hf).header] at hfire
    refine h.kept f hf p hp hfire ?_
    by_contra hc
    rw [(hlast f hf).complete (by simpa using hc)] at hcomplete
    simp at hcomplete

/-- What one task holds changes, and the others hold what they held. -/
theorem Kin.replace {s : State} {t : TaskId} {g : TaskId → Option (List (Option TaskId))}
    {slots slots' : Option (List (Option TaskId))} (h : Kin s (Function.update g t slots))
    (howned : ∀ l' j f, slots' = some l' → slot l' j = some f →
      ∃ l i, slots = some l ∧ slot l i = some f)
    (hkept : ∀ l i f, slots = some l → slot l i = some f →
      (s.task f).header.fireAndForget = false → (s.task f).complete = false →
      ∃ l' j, slots' = some l' ∧ slot l' j = some f) : Kin s (Function.update g t slots') := by
  refine ⟨h.lineage, h.bodies, ?_, ?_⟩
  · intro p l' j f hslots hslot
    by_cases heq : p = t
    · subst heq
      rw [Function.update_self] at hslots
      obtain ⟨l, i, hl, hf⟩ := howned l' j f hslots hslot
      exact h.owned p l i f (by rw [Function.update_self, hl]) hf
    · rw [Function.update_of_ne heq] at hslots
      exact h.owned p l' j f (by rw [Function.update_of_ne heq, hslots]) hslot
  · intro f hf p hp hfire hcomplete
    obtain ⟨l, i, hslots, hslot⟩ := h.kept f hf p hp hfire hcomplete
    by_cases heq : p = t
    · subst heq
      rw [Function.update_self] at hslots ⊢
      exact hkept l i f hslots hslot hfire hcomplete
    · rw [Function.update_of_ne heq] at hslots ⊢
      exact ⟨l, i, hslots, hslot⟩

/-- Every other task is in order, and the task has these futures. -/
structure Rest (s : State) (t : TaskId) (slots : Option (List (Option TaskId))) : Prop where
  tidy : Tidy s
  situated : ∀ t' < s.next, t' ≠ t → Situated s t'
  kin : Kin s (Function.update (frameSlots s) t slots)
  joined : ∀ t' frame, t' ≠ t → (s.task t').ctx.coroHandle = some frame →
    frame.point.joins (holds s frame.slots) = true

/-- Everything is in order but for the task in hand. -/
structure Around (s : State) (t : TaskId) (slots : Option (List (Option TaskId))) : Prop
    extends Rest s t slots where
  held : Held s t

/-- Every task is in order. -/
structure Orderly (s : State) : Prop where
  tidy : Tidy s
  situated : ∀ t < s.next, Situated s t
  kin : Kin s (frameSlots s)
  joined : ∀ t frame, (s.task t).ctx.coroHandle = some frame →
    frame.point.joins (holds s frame.slots) = true

section

variable {L : Layout} {w : WorkerId} {s s' : State} {t : TaskId}
  {slots : Option (List (Option TaskId))}

theorem awaited_lt (h : Tidy s) {f : TaskId} (hawaits : awaited s t = some f) : f < s.next := by
  obtain ⟨slots, i, rest, hframe, hslot⟩ := awaited_eq_some hawaits
  exact (h.slots t _ hframe).2 i f hslot

/-- A future that is awaited is a subtask of the task that awaits it. -/
theorem Rest.parent_of_awaited (h : Rest s t slots) {t' f : TaskId} (hne : t' ≠ t)
    (hawaits : awaited s t' = some f) : (s.task f).parent = some t' := by
  obtain ⟨slots', i, rest, hframe, hslot⟩ := awaited_eq_some hawaits
  refine (h.kin.owned t' slots' i f ?_ hslot).2
  rw [Function.update_of_ne hne, frameSlots, hframe]
  rfl

/-- A change that concerns only one task. -/
theorem Rest.change (h : Rest s t slots) (htidy : Tidy s')
    (hnext : s'.next = s.next) (hsame : ∀ t' < s.next, t' ≠ t → Untouched s s' t')
    (hlast : Lasting s s' t)
    (hopen : (s.task t).complete = false → (s'.task t).complete = false ∨
      ∀ p, (s.task t).parent = some p → p = t) :
    Rest s' t slots := by
  have hlasting : ∀ t' < s.next, Lasting s s' t' := by
    intro t' ht'
    by_cases heq : t' = t
    · rw [heq]
      exact hlast
    · exact (hsame t' ht' heq).lasting
  have hcoro : ∀ t' frame, t' ≠ t → (s'.task t').ctx.coroHandle = some frame →
      t' < s.next ∧ (s.task t').ctx.coroHandle = some frame := by
    intro t' frame hne hframe
    have hlt := (htidy.slots t' frame hframe).1
    rw [hnext] at hlt
    rw [(hsame t' hlt hne).task] at hframe
    exact ⟨hlt, hframe⟩
  refine ⟨htidy, ?_, ?_, ?_⟩
  · intro t' ht' hne
    rw [hnext] at ht'
    refine (h.situated t' ht' hne).untouched (hsame t' ht' hne) ?_
    intro f hawaits hcomplete
    have hf := awaited_lt h.tidy hawaits
    refine ⟨?_, (hlasting f hf).header⟩
    by_cases heq : f = t
    · rw [heq] at hcomplete ⊢
      refine (hopen hcomplete).resolve_right ?_
      intro hself
      exact hne (hself t' (heq ▸ h.parent_of_awaited hne hawaits))
    · rw [(hsame f hf heq).task]
      exact hcomplete
  · have hkin := h.kin.lasting hnext hlasting
    refine ⟨hkin.lineage, hkin.bodies, ?_, ?_⟩
    · intro p slots' i f hslots hslot
      by_cases heq : p = t
      · subst heq
        rw [Function.update_self] at hslots
        exact hkin.owned p slots' i f (by rw [Function.update_self]; exact hslots) hslot
      · rw [Function.update_of_ne heq] at hslots
        refine hkin.owned p slots' i f ?_ hslot
        rw [Function.update_of_ne heq]
        obtain ⟨frame, hframe, hs⟩ := Option.map_eq_some_iff.mp hslots
        rw [frameSlots, (hcoro p frame heq hframe).2]
        exact congrArg some hs
    · intro f hf p hp hfire hcomplete
      obtain ⟨slots', i, hslots, hslot⟩ := hkin.kept f hf p hp hfire hcomplete
      refine ⟨slots', i, ?_, hslot⟩
      by_cases heq : p = t
      · subst heq
        rw [Function.update_self] at hslots ⊢
        exact hslots
      · rw [Function.update_of_ne heq] at hslots ⊢
        have hlt : p < s.next := by
          rw [← hnext]
          exact Nat.lt_trans (hkin.lineage f hf p hp).1 hf
        rw [frameSlots, (hsame p hlt heq).task]
        exact hslots
  · intro t' frame hne hframe
    obtain ⟨hlt, hframe'⟩ := hcoro t' frame hne hframe
    have hheaders : holds s' frame.slots = holds s frame.slots := by
      refine holds_congr ?_
      intro i f hf
      exact (hlasting f ((h.tidy.slots t' frame hframe').2 i f hf)).header
    rw [hheaders]
    exact h.joined t' frame hne hframe'

theorem Around.change (h : Around s t slots) (htidy : Tidy s') (hheld : Held s' t)
    (hnext : s'.next = s.next) (hsame : ∀ t' < s.next, t' ≠ t → Untouched s s' t')
    (hlast : Lasting s s' t)
    (hopen : (s.task t).complete = false → (s'.task t).complete = false) :
    Around s' t slots :=
  ⟨h.toRest.change htidy hnext hsame hlast fun hc => Or.inl (hopen hc), hheld⟩

/-- The task goes to its place. -/
theorem Rest.settle (h : Rest s t slots) (hslots : frameSlots s t = slots)
    (hsituated : Situated s t)
    (hjoined : ∀ frame, (s.task t).ctx.coroHandle = some frame →
      frame.point.joins (holds s frame.slots) = true) : Orderly s := by
  refine ⟨h.tidy, ?_, ?_, ?_⟩
  · intro t' ht'
    by_cases heq : t' = t
    · rw [heq]
      exact hsituated
    · exact h.situated t' ht' heq
  · have hkin := h.kin
    rwa [← hslots, Function.update_eq_self] at hkin
  · intro t' frame hframe
    by_cases heq : t' = t
    · rw [heq] at hframe
      exact hjoined frame hframe
    · exact h.joined t' frame heq hframe

/-! ### Running a coroutine -/

/-- The task in hand while its coroutine runs. -/
structure Running (s : State) (t : TaskId) (slots : List (Option TaskId)) : Prop where
  around : Around s t (some slots)
  opened : (s.task t).complete = false
  idle : (s.task t).ctx.isYielded = false
  worker : Bound (s.task t)
  container : (s.task t).ctx.container ≠ none

/-- The task in hand once its coroutine gave back control. -/
inductive Paused (s : State) (t : TaskId) : Prop where
  | returned (around : Around s t none) (hcoro : (s.task t).ctx.coroHandle = none)
      (hidle : (s.task t).ctx.isYielded = false)
  | yielded (slots : List (Option TaskId)) (us : ℚ) (rest : Body)
      (around : Around s t (some slots))
      (hcoro : (s.task t).ctx.coroHandle = some ⟨slots, .yield us rest⟩) (hus : 0 < us)
      (hyielded : (s.task t).ctx.isYielded = true) (htime : (s.task t).ctx.yieldTime = us)
      (hjoins : (Body.yield us rest).joins (holds s slots) = true)
  | awaiting (slots : List (Option TaskId)) (i : Nat) (rest : Body) (f : TaskId)
      (around : Around s t (some slots))
      (hcoro : (s.task t).ctx.coroHandle = some ⟨slots, .coAwait i rest⟩)
      (hyielded : (s.task t).ctx.isYielded = true) (htime : (s.task t).ctx.yieldTime = 0)
      (hjoins : (Body.coAwait i rest).joins (holds s slots) = true)
      (hslot : slot slots i = some f) (hcomplete : (s.task f).complete = false)
      (hfire : (s.task f).header.fireAndForget = false)

/-- What a coroutine leaves as it was. -/
structure Steady (s : State) (t : TaskId) : Prop where
  opened : (s.task t).complete = false
  worker : Bound (s.task t)
  container : (s.task t).ctx.container ≠ none

variable {g : RunContext → RunContext} {f : Task → Task}

theorem lasting_setCtx : Lasting s (s.setCtx t g) t := by
  constructor <;> simp

/-- There is one more task, in a queue, and the others are as they were. -/
structure Newborn (s s' : State) (new : Task) (q : Queue) : Prop where
  next : s'.next = s.next + 1
  task : s'.task s.next = new
  coro : new.ctx.coroHandle = none
  same : ∀ t < s.next, Untouched s s' t
  queued : s.next ∈ s'.queue q
  before : Tidy s
  tidy : Tidy s'

theorem newborn {new : Task} (htidy : Tidy s) (hcoro : new.ctx.coroHandle = none) :
    Newborn s (({ s with next := s.next + 1, task := Function.update s.task s.next new } :
      State).push (.lane w) s.next) new (.lane w) where
  next := rfl
  task := Function.update_self _ _ _
  coro := hcoro
  same _ := untouched_new
  queued := by
    rw [push_queue_self]
    simp
  before := htidy
  tidy := htidy.new hcoro

namespace Newborn

variable {new : Task} {q : Queue} {t' : TaskId} {frame : Frame}

theorem old_or_new (h : Newborn s s' new q) (ht' : t' < s'.next) : t' < s.next ∨ t' = s.next := by
  rw [h.next] at ht'
  exact Nat.lt_or_eq_of_le (Nat.le_of_lt_succ ht')

theorem frames (h : Newborn s s' new q) (hframe : (s'.task t').ctx.coroHandle = some frame) :
    t' < s.next ∧ (s.task t').ctx.coroHandle = some frame := by
  rcases h.old_or_new (h.tidy.slots t' frame hframe).1 with hlt | heq
  · rw [(h.same t' hlt).task] at hframe
    exact ⟨hlt, hframe⟩
  · rw [heq, h.task, h.coro] at hframe
    simp at hframe

theorem situated (h : Newborn s s' new q) (hlt : t' < s.next) (hs : Situated s t') :
    Situated s' t' := by
  refine hs.untouched (h.same t' hlt) ?_
  intro f hawaits hcomplete
  rw [(h.same f (awaited_lt h.before hawaits)).task]
  exact ⟨hcomplete, rfl⟩

theorem bodies (h : Newborn s s' new q) (hbody : new.body.joins [] = true)
    (hs : ∀ t < s.next, (s.task t).body.joins [] = true) :
    ∀ t < s'.next, (s'.task t).body.joins [] = true := by
  intro t' ht'
  rcases h.old_or_new ht' with hlt | heq
  · rw [(h.same t' hlt).task]
    exact hs t' hlt
  · rw [heq, h.task]
    exact hbody

theorem holds_eq (h : Newborn s s' new q) (hframe : (s'.task t').ctx.coroHandle = some frame) :
    holds s' frame.slots = holds s frame.slots := by
  refine holds_congr ?_
  intro i f hf
  rw [(h.same f ((h.before.slots t' frame (h.frames hframe).2).2 i f hf)).task]

end Newborn

/-- A subtask is submitted. -/
theorem Running.submit {slots : List (Option TaskId)} {header : Header} {body : Body}
    (h : Running s t slots) (hbody : body.joins [] = true) :
    Running (sendRuntimeClient L w t header body s) t (slots ++ [some s.next]) := by
  rw [sendRuntimeClient_eq]
  have hnewborn := @newborn (L.clientMapTask s.next) s (submitted w t header body)
    h.around.tidy rfl
  generalize hs' : ({ s with
      next := s.next + 1
      task := Function.update s.task s.next (submitted w t header body) } : State).push
    (.lane (L.clientMapTask s.next)) s.next = s' at hnewborn ⊢
  have hheld : Held s' t := by
    rw [← hs']
    exact h.around.held.new
  have hsame := hnewborn.same
  have hnew := hnewborn.task
  have hborn := h.around.held.born
  have hme := (hsame t hborn).task
  refine ⟨⟨⟨hnewborn.tidy, ?_, ⟨?_, hnewborn.bodies hbody h.around.kin.bodies, ?_, ?_⟩, ?_⟩, hheld⟩,
    ?_, ?_, ?_, ?_⟩
  · intro t' ht' hne
    rcases hnewborn.old_or_new ht' with hlt | heq
    · exact hnewborn.situated hlt (h.around.situated t' hlt hne)
    · subst heq
      refine .fresh _ rfl hnewborn.queued ?_ ?_ ?_ ?_ ?_ ?_ <;>
        simp [hnew, submitted, Task.new, Queue.isLane]
  · intro f hf p hp
    rcases hnewborn.old_or_new hf with hlt | heq
    · rw [(hsame f hlt).task] at hp ⊢
      exact h.around.kin.lineage f hlt p hp
    · rw [heq, hnew] at hp ⊢
      obtain rfl : t = p := Option.some.inj hp
      exact ⟨hborn, rfl⟩
  · intro p slots' i f hslots hslot
    rw [hnewborn.next]
    by_cases heq : p = t
    · subst heq
      rw [Function.update_self] at hslots
      rw [← Option.some.inj hslots] at hslot
      rcases slot_append hslot with hslot | hslot
      · obtain ⟨hf, hp⟩ := h.around.kin.owned p slots i f (Function.update_self _ _ _) hslot
        rw [(hsame f hf).task]
        exact ⟨Nat.lt_succ_of_lt hf, hp⟩
      · rw [← Option.some.inj hslot, hnew]
        exact ⟨Nat.lt_succ_self _, rfl⟩
    · rw [Function.update_of_ne heq] at hslots
      obtain ⟨frame, hframe, hs⟩ := Option.map_eq_some_iff.mp hslots
      obtain ⟨hf, hp⟩ := h.around.kin.owned p slots' i f (by
        rw [Function.update_of_ne heq, frameSlots, (hnewborn.frames hframe).2]
        exact congrArg some hs) hslot
      rw [(hsame f hf).task]
      exact ⟨Nat.lt_succ_of_lt hf, hp⟩
  · intro f hf p hp hfire hcomplete
    rcases hnewborn.old_or_new hf with hlt | heq
    · rw [(hsame f hlt).task] at hp hfire hcomplete
      obtain ⟨slots', i, hslots, hslot⟩ := h.around.kin.kept f hlt p hp hfire hcomplete
      by_cases heq : p = t
      · subst heq
        rw [Function.update_self] at hslots
        refine ⟨_, i, Function.update_self _ _ _, ?_⟩
        rw [← Option.some.inj hslots] at hslot
        exact slot_append_left hslot
      · rw [Function.update_of_ne heq] at hslots
        refine ⟨slots', i, ?_, hslot⟩
        have hlt' := Nat.lt_trans (h.around.kin.lineage f hlt p hp).1 hlt
        rw [Function.update_of_ne heq, frameSlots, (hsame p hlt').task]
        exact hslots
    · rw [heq, hnew] at hp
      obtain rfl : t = p := Option.some.inj hp
      rw [heq]
      exact ⟨_, slots.length, Function.update_self _ _ _, slot_append_last⟩
  · intro t' frame hne hframe
    rw [hnewborn.holds_eq hframe]
    exact h.around.joined t' frame hne (hnewborn.frames hframe).2
  · rw [hme]
    exact h.opened
  · rw [hme]
    exact h.idle
  · rw [hme]
    exact h.worker
  · rw [hme]
    exact h.container

/-- A `co_await` returns, its future being complete or fire-and-forget. -/
theorem Running.awaitResume {slots : List (Option TaskId)} {i : Nat}
    (h : Running s t slots)
    (hdone : ∀ f, slot slots i = some f →
      (s.task f).complete = true ∨ (s.task f).header.fireAndForget = true) :
    Running (s.awaitResume t (slot slots i)) t (slots.set i none) := by
  have hkin := h.around.kin
  have htidy : Tidy (s.awaitResume t (slot slots i)) := by
    refine h.around.tidy.awaitResume ?_
    intro f hf
    exact ⟨(hkin.owned t slots i f (Function.update_self _ _ _) hf).1, hdone f hf⟩
  have haround := h.around.change htidy h.around.held.awaitResume (by simp)
    (fun t' _ _ => untouched_awaitResume) (Untouched.lasting untouched_awaitResume) (by simp)
  refine ⟨⟨⟨htidy, haround.situated, haround.kin.replace ?_ ?_, haround.joined⟩, haround.held⟩,
    by simpa using h.opened, by simpa using h.idle, by simpa using h.worker,
    by simpa using h.container⟩
  · intro l' j f hl hslot
    obtain rfl := Option.some.inj hl
    exact ⟨_, j, rfl, slot_set_none hslot⟩
  · intro l j f hl hslot hfire hcomplete
    obtain rfl := Option.some.inj hl
    refine ⟨_, j, rfl, ?_⟩
    rw [slot_set_of_ne]
    · exact hslot
    · intro hji
      rw [hji] at hslot
      simp only [State.awaitResume_task] at hfire hcomplete
      rcases hdone f hslot with hc | hc
      · rw [hc] at hcomplete
        simp at hcomplete
      · rw [hc] at hfire
        simp at hfire

/-- The coroutine is suspended: only the task in hand changes. -/
theorem Running.suspend {slots : List (Option TaskId)} {point : Body} {us : ℚ}
    (h : Running s t slots) : Around (suspend t ⟨slots, point⟩ us s) t (some slots) := by
  refine h.around.change ?_ h.around.held.setCtx rfl ?_ lasting_setCtx ?_
  · refine h.around.tidy.suspend h.around.held ?_
    intro i f hf
    exact (h.around.kin.owned t slots i f (Function.update_self _ _ _) hf).1
  · intro t' _ hne
    exact untouched_setCtx hne
  · intro hopen
    rw [Runtime.suspend, setCtx_self]
    exact hopen

theorem holds_setCtx (slots : List (Option TaskId)) :
    holds (s.setCtx t g) slots = holds s slots := by
  refine holds_congr ?_
  intro i f _
  by_cases heq : f = t
  · rw [heq, setCtx_self]
  · rw [setCtx_of_ne s t g heq]

/-- The coroutine returns with nothing left to wait for. -/
theorem Running.return {slots : List (Option TaskId)} (h : Running s t slots)
    (hjoins : Body.coReturn.joins (holds s slots) = true) :
    Around (s.setCtx t fun ctx => { ctx with coroHandle := none }) t none := by
  have haround : Around (s.setCtx t fun ctx => { ctx with coroHandle := none }) t (some slots) :=
    h.around.change (h.around.tidy.setCtx (Or.inr rfl)) h.around.held.setCtx rfl
      (fun t' _ hne => untouched_setCtx hne) lasting_setCtx (by simp)
  refine ⟨⟨haround.tidy, haround.situated, haround.kin.replace ?_ ?_, haround.joined⟩, haround.held⟩
  · intro l' j f hl
    simp at hl
  · intro l i f hl hslot hfire
    obtain rfl := Option.some.inj hl
    rw [← @holds_setCtx s t fun ctx => { ctx with coroHandle := none }] at hjoins
    rw [joins_coReturn hjoins hslot] at hfire
    simp at hfire

/-- **A coroutine that runs** returns or suspends in order. -/
theorem paused_runBody (body : Body) (slots : List (Option TaskId)) (h : Running s t slots)
    (hjoins : body.joins (holds s slots) = true) :
    Paused (runBody L w t body slots s) t ∧ Steady (runBody L w t body slots s) t := by
  refine runBody_rule
    (P := fun body slots s => Running s t slots ∧ body.joins (holds s slots) = true)
    (Q := fun s => Paused s t ∧ Steady s t) ?_ ?_ ?_ ?_ ?_ ?_ ?_ body slots s ⟨h, hjoins⟩
  · rintro header body rest slots s ⟨h, hjoins⟩
    rw [Body.joins, Bool.and_eq_true] at hjoins
    have h' := @Running.submit L w s t slots header body h hjoins.1
    refine ⟨h', ?_⟩
    have hheaders : holds (sendRuntimeClient L w t header body s) slots = holds s slots := by
      refine holds_congr ?_
      intro i f hf
      have hlt := (h.around.kin.owned t slots i f (Function.update_self _ _ _) hf).1
      rw [sendRuntimeClient_eq, (untouched_new hlt).task]
    rw [holds_append, hheaders]
    have hnew : ((sendRuntimeClient L w t header body s).task s.next).header = header := by
      rw [sendRuntimeClient_eq, push_task]
      dsimp only
      rw [Function.update_self]
      rfl
    rw [hnew]
    exact hjoins.2
  · rintro i rest slots s ⟨h, hjoins⟩ hready
    rw [Body.joins, Bool.and_eq_true] at hjoins
    refine ⟨h.awaitResume ?_, ?_⟩
    · intro f hf
      rw [hf] at hready
      simpa [State.awaitReady, State.isComplete] using hready
    · rw [holds_set, @holds_congr s (s.awaitResume t (slot slots i)) slots (by simp)]
      exact hjoins.2
  · rintro i complete pending slots s ⟨h, hjoins⟩
    rw [Body.joins, Bool.and_eq_true] at hjoins
    exact ⟨h, hjoins.1⟩
  · rintro i complete pending slots s ⟨h, hjoins⟩
    rw [Body.joins, Bool.and_eq_true] at hjoins
    exact ⟨h, hjoins.2⟩
  · rintro slots s ⟨h, hjoins⟩
    refine ⟨.returned (h.return hjoins) (by simp) (by simpa using h.idle), ?_, ?_, ?_⟩
    · simpa using h.opened
    · simpa using h.worker
    · simpa using h.container
  · rintro i rest slots s ⟨h, hjoins⟩ hready
    have hslot : ∃ f, slot slots i = some f := by
      rw [Body.joins, Bool.and_eq_true] at hjoins
      exact slot_of_holds hjoins.1
    obtain ⟨f, hf⟩ := hslot
    have hnot : (s.task f).complete = false ∧ (s.task f).header.fireAndForget = false := by
      rw [hf] at hready
      simpa [State.awaitReady, State.isComplete] using hready
    have hf' : (Runtime.suspend t ⟨slots, .coAwait i rest⟩ 0 s).task f =
        (if f = t then (Runtime.suspend t ⟨slots, .coAwait i rest⟩ 0 s).task t else s.task f) := by
      by_cases heq : f = t
      · rw [if_pos heq, heq]
      · rw [if_neg heq, Runtime.suspend, setCtx_of_ne s t _ heq]
    refine ⟨.awaiting slots i rest f h.suspend (by simp [Runtime.suspend])
      (by simp [Runtime.suspend]) (by simp [Runtime.suspend]) ?_ hf ?_ ?_, ?_, ?_, ?_⟩
    · rw [Runtime.suspend, holds_setCtx]
      exact hjoins
    · rw [hf']
      split
      next heq =>
        rw [Runtime.suspend, setCtx_self]
        rw [← heq]
        exact hnot.1
      · exact hnot.1
    · rw [hf']
      split
      next heq =>
        rw [Runtime.suspend, setCtx_self]
        rw [← heq]
        exact hnot.2
      · exact hnot.2
    · simpa [Runtime.suspend] using h.opened
    · simpa [Runtime.suspend] using h.worker
    · simpa [Runtime.suspend] using h.container
  · rintro us rest slots s ⟨h, hjoins⟩
    have hus : 0 < us := by
      rw [Body.joins, Bool.and_eq_true, decide_eq_true_eq] at hjoins
      exact hjoins.1
    refine ⟨.yielded slots us rest h.suspend (by simp [Runtime.suspend]) hus
      (by simp [Runtime.suspend]) (by simp [Runtime.suspend]) ?_, ?_, ?_, ?_⟩
    · rw [Runtime.suspend, holds_setCtx]
      exact hjoins
    · simpa [Runtime.suspend] using h.opened
    · simpa [Runtime.suspend] using h.worker
    · simpa [Runtime.suspend] using h.container

/-! ### Executing a task -/

theorem lasting_rfl (h : s'.task t = s.task t) : Lasting s s' t := by
  constructor <;> simp [h]

/-- The task in hand goes to a queue. -/
theorem Around.push (h : Around s t slots) (hslots : frameSlots s t = slots)
    (hrun : Unawaiting s t) (q : Queue) (hsituated : Situated (s.push q t) t)
    (hjoined : ∀ frame, (s.task t).ctx.coroHandle = some frame →
      frame.point.joins (holds s frame.slots) = true) : Orderly (s.push q t) :=
  (h.toRest.change (h.tidy.push h.held hrun q) rfl (fun _ _ hne => untouched_push hne)
    (lasting_rfl rfl) (fun hc => Or.inl hc)).settle hslots hsituated hjoined

theorem mem_push_self {q : Queue} : t ∈ (s.push q t).queue q := by simp

theorem unawaiting_of_none (h : (s.task t).ctx.coroHandle = none) : Unawaiting s t := by
  intro slots i rest
  rw [h]
  simp

theorem frameSlots_of_none (h : (s.task t).ctx.coroHandle = none) : frameSlots s t = none := by
  rw [frameSlots, h]
  rfl

/-- A task that was not started waits in a queue. -/
theorem Around.pushFresh {q : Queue} (h : Around s t none) (hq : q.isRun = true)
    (hstarted : (s.task t).started = false) (hcoro : (s.task t).ctx.coroHandle = none)
    (hidle : (s.task t).ctx.isYielded = false) (hopen : (s.task t).complete = false)
    (hworker : q.isLane = false → Bound (s.task t))
    (hcontainer : q.isWait = true → q.isLane = false ∨ (s.task t).routed = true →
      (s.task t).ctx.container ≠ none) : Orderly (s.push q t) :=
  h.push (frameSlots_of_none hcoro) (unawaiting_of_none hcoro) q
    (.fresh q hq mem_push_self hstarted hcoro hidle hopen hworker hcontainer)
    (by simp [hcoro])

/-- A periodic task that has returned waits for its next period. -/
theorem orderly_reschedule {period : ℚ} (h : Around s t none)
    (hcoro : (s.task t).ctx.coroHandle = none) (hidle : (s.task t).ctx.isYielded = false)
    (hsteady : Steady s t) : Orderly (reschedulePeriodicTask w t period s) := by
  have h₁ : Around (s.setTask t fun task => { task with
      started := false, ctx := { task.ctx with yieldTime := period } }) t none :=
    h.change (h.tidy.setTask rfl (Or.inl rfl)) h.held.setTask rfl
      (fun _ _ hne => untouched_setTask hne) (by constructor <;> simp) (by simp)
  obtain ⟨hcontext, hworker⟩ := hsteady.worker
  have hcontainer := hsteady.container
  have hopened := hsteady.opened
  unfold reschedulePeriodicTask addToBlockedQueue
  split
  · have h₂ : Around ((s.setTask t fun task => { task with
        started := false, ctx := { task.ctx with yieldTime := period } }).setCtx t
          fun ctx => { ctx with yieldCount := ctx.yieldCount + 1 }) t none :=
      h₁.change (h₁.tidy.setCtx (Or.inl rfl)) h₁.held.setCtx rfl
        (fun _ _ hne => untouched_setCtx hne) lasting_setCtx (by simp)
    refine h₂.pushFresh rfl ?_ ?_ ?_ ?_ ?_ ?_ <;> simp [*, Queue.isLane, Bound]
  · refine h₁.pushFresh rfl ?_ ?_ ?_ ?_ ?_ ?_ <;> simp [*, Queue.isLane, Bound]

/-- A parent whose subtask is not complete is suspended, on some worker. -/
theorem Around.parent_worker (h : Around s t slots) {p : TaskId}
    (hp : (s.task t).parent = some p) (hfire : (s.task t).header.fireAndForget = false)
    (hopened : (s.task t).complete = false) : (s.task p).ctx.worker ≠ none := by
  have hlt := (h.kin.lineage t h.held.born p hp).1
  have hne : p ≠ t := Nat.ne_of_lt hlt
  obtain ⟨slots', i, hslots, _⟩ := h.kin.kept t h.held.born p hp hfire hopened
  rw [Function.update_of_ne hne] at hslots
  obtain ⟨frame, hframe, _⟩ := Option.map_eq_some_iff.mp hslots
  cases h.situated p (Nat.lt_trans hlt h.held.born) hne with
  | fresh q hq hmem hstarted hcoro =>
    rw [hcoro] at hframe
    simp at hframe
  | sent hmap hstarted hcoro =>
    rw [hcoro] at hframe
    simp at hframe
  | yielding q slots us rest hq hmem hstarted hcoro hopen hworker => exact hworker.2
  | awaiting f hstarted hawaits hcomplete hfire hopen hworker => exact hworker.2
  | ended w hmem hcoro =>
    rw [hcoro] at hframe
    simp at hframe
  | done hcoro =>
    rw [hcoro] at hframe
    simp at hframe

theorem Held.queue_push {q : Queue} (h : Held s t) :
    ∀ q', t ∈ (s.push q t).queue q' → q' = q := by
  intro q' hmem
  rcases mem_push hmem with hmem | ⟨heq, _⟩
  · exact absurd hmem (h.away q')
  · exact heq

/-- A task that has returned answers whoever waits for it. -/
theorem orderly_reply (h : Around s t none) (hcoro : (s.task t).ctx.coroHandle = none)
    (hopened : (s.task t).complete = false) : Orderly (replyTask L w t s) := by
  have hjoined : ∀ frame, (s.task t).ctx.coroHandle = some frame →
      frame.point.joins (holds s frame.slots) = true := by simp [hcoro]
  unfold replyTask
  split
  next hfire =>
    refine h.toRest.settle (frameSlots_of_none hcoro) (.done hcoro h.held.unmapped ?_
      fun _ => Or.inr hfire) hjoined
    intro q hmem
    exact absurd hmem (h.held.away q)
  next hfire =>
    have hfire' : (s.task t).header.fireAndForget = false := by simpa using hfire
    split
    next horigin =>
      refine h.push (frameSlots_of_none hcoro) (unawaiting_of_none hcoro) _ ?_ hjoined
      refine .done hcoro h.held.unmapped ?_ ?_
      · intro q hmem
        rw [h.held.queue_push q hmem]
        rfl
      · intro hparent
        obtain ⟨p, hp⟩ := Option.ne_none_iff_exists'.mp hparent
        have hnone := (h.kin.lineage t h.held.born p hp).2
        rw [hnone] at horigin
        simp at horigin
    · split
      next v hv =>
        obtain ⟨p, hp, _⟩ := Option.bind_eq_some_iff.mp hv
        refine h.push (frameSlots_of_none hcoro) (unawaiting_of_none hcoro) _ ?_ hjoined
        exact .ended v mem_push_self hcoro hopened hfire' (by rw [push_task, hp]; simp)
      next hv =>
        have hparent : (s.task t).parent = none := by
          by_contra hsome
          obtain ⟨p, hp⟩ := Option.ne_none_iff_exists'.mp hsome
          rw [hp] at hv
          exact h.parent_worker hp hfire' hopened hv
        have hrest : Rest (s.setTask t fun task => { task with complete := true }) t none :=
          h.toRest.change (h.tidy.setTask rfl (Or.inl rfl)) rfl
            (fun _ _ hne => untouched_setTask hne) (by constructor <;> simp)
            (fun _ => Or.inr (by simp [hparent]))
        refine hrest.settle (frameSlots_of_none (by simp [hcoro])) ?_ (by simp [hcoro])
        refine .done (by simp [hcoro]) h.held.unmapped ?_ (by simp)
        intro q hmem
        exact absurd hmem (h.held.away q)

theorem orderly_endTask (h : Around s t none) (hcoro : (s.task t).ctx.coroHandle = none)
    (hidle : (s.task t).ctx.isYielded = false) (hsteady : Steady s t) :
    Orderly (endTask L w t s) := by
  unfold endTask
  split
  next hnone => exact absurd hnone hsteady.container
  next c _ =>
    split
    · exact orderly_reschedule h hcoro hidle hsteady
    · refine orderly_reply ?_ hcoro hsteady.opened
      exact h.change (tidy_updateWork h.tidy) (held_updateWork h.held) rfl
        (fun _ _ _ => ⟨rfl, fun _ => Iff.rfl, rfl⟩) (lasting_rfl rfl) (fun hc => hc)

/-- **The task in hand is put where it belongs.** -/
theorem orderly_settleTask (h : Paused s t) (hsteady : Steady s t)
    (hstarted : (s.task t).started = true) : Orderly (settleTask L w t s) := by
  unfold settleTask
  cases h with
  | returned around hcoro hidle =>
    rw [if_neg (by simp [hidle])]
    exact orderly_endTask around hcoro hidle hsteady
  | yielded slots us rest around hcoro hus hyielded htime hjoins =>
    have hne : us ≠ 0 := by
      intro heq
      rw [heq] at hus
      exact absurd hus (by decide)
    rw [if_pos hyielded, htime, if_pos hus, addToBlockedQueue, htime, if_neg hne]
    refine around.push ?_ ?_ _ ?_ ?_
    · rw [frameSlots, hcoro]
      rfl
    · intro slots' i rest'
      rw [hcoro]
      simp
    · exact .yielding (.periodic w _) slots us rest rfl mem_push_self hstarted hcoro hsteady.opened
        hsteady.worker hsteady.container (by simp [Queue.isLane])
    · intro frame hframe
      rw [hcoro] at hframe
      rw [← Option.some.inj hframe]
      exact hjoins
  | awaiting slots i rest f around hcoro hyielded htime hjoins hslot hcomplete hfire =>
    rw [if_pos hyielded, htime, if_neg (by decide)]
    refine around.toRest.settle ?_ ?_ ?_
    · rw [frameSlots, hcoro]
      rfl
    · refine .awaiting f hstarted ?_ hcomplete hfire hsteady.opened hsteady.worker
        hsteady.container
      rw [awaited, hcoro]
      exact hslot
    · intro frame hframe
      rw [hcoro] at hframe
      rw [← Option.some.inj hframe]
      exact hjoins

/-- Running a coroutine does not touch `TASK_STARTED`. -/
theorem started_runBody (body : Body) (slots : List (Option TaskId)) (hborn : t < s.next) :
    ((runBody L w t body slots s).task t).started = (s.task t).started := by
  refine runBody_rule
    (P := fun _ _ s' => t < s'.next ∧ (s'.task t).started = (s.task t).started)
    (Q := fun s' => (s'.task t).started = (s.task t).started)
    ?_ ?_ (fun _ _ _ _ _ h => h) (fun _ _ _ _ _ h => h) ?_ ?_ ?_ body slots s ⟨hborn, rfl⟩
  · rintro header body rest slots s' ⟨hlt, hs'⟩
    rw [sendRuntimeClient_eq]
    refine ⟨Nat.lt_succ_of_lt hlt, ?_⟩
    rw [(untouched_new hlt).task]
    exact hs'
  · intro i rest slots s' h _
    simpa using h
  · intro slots s' h
    simpa using h.2
  · intro i rest slots s' h _
    simpa [Runtime.suspend] using h.2
  · intro us rest slots s' h
    simpa [Runtime.suspend] using h.2

theorem Steady.setTask (h : Steady s t) (hcomplete : (f (s.task t)).complete = (s.task t).complete)
    (hcontext : (f (s.task t)).hasContext = (s.task t).hasContext)
    (hworker : (f (s.task t)).ctx.worker = (s.task t).ctx.worker)
    (hcontainer : (f (s.task t)).ctx.container ≠ none) : Steady (s.setTask t f) t := by
  refine ⟨?_, ?_, ?_⟩
  · rw [setTask_self, hcomplete]
    exact h.opened
  · rw [setTask_self, Bound, hcontext, hworker]
    exact h.worker
  · rw [setTask_self]
    exact hcontainer

/-- Setting a flag of the task in hand. -/
theorem Around.setTask (h : Around s t slots)
    (hcoro : (f (s.task t)).ctx.coroHandle = (s.task t).ctx.coroHandle)
    (hlast : Lasting s (s.setTask t f) t)
    (hcomplete : (f (s.task t)).complete = (s.task t).complete) : Around (s.setTask t f) t slots := by
  refine h.change (h.tidy.setTask ?_ (Or.inl hcoro)) h.held.setTask rfl
    (fun _ _ hne => untouched_setTask hne) hlast ?_
  · have hheader := hlast.header
    rwa [setTask_self] at hheader
  · intro hopen
    rw [setTask_self, hcomplete]
    exact hopen

theorem Around.setCtx (h : Around s t slots)
    (hcoro : (g (s.task t).ctx).coroHandle = (s.task t).ctx.coroHandle) :
    Around (s.setCtx t g) t slots :=
  Around.setTask (f := fun task => { task with ctx := g task.ctx }) h hcoro
    (by constructor <;> simp) rfl

theorem holds_setTask (hheader : (f (s.task t)).header = (s.task t).header)
    (slots : List (Option TaskId)) : holds (s.setTask t f) slots = holds s slots := by
  refine holds_congr ?_
  intro i f' _
  by_cases heq : f' = t
  · rw [heq, setTask_self, hheader]
  · rw [setTask_of_ne s t f heq]

theorem Paused.started (h : Paused s t) :
    Paused (s.setTask t fun task => { task with started := true }) t := by
  have haround : ∀ {slots}, Around s t slots →
      Around (s.setTask t fun task => { task with started := true }) t slots :=
    fun h => h.setTask rfl (by constructor <;> simp) rfl
  have hcomplete : ∀ f, ((s.setTask t fun task => { task with started := true }).task f).complete =
      (s.task f).complete := by
    intro f
    by_cases heq : f = t
    · rw [heq, setTask_self]
    · rw [setTask_of_ne s t _ heq]
  have hheader : ∀ f, ((s.setTask t fun task => { task with started := true }).task f).header =
      (s.task f).header := by
    intro f
    by_cases heq : f = t
    · rw [heq, setTask_self]
    · rw [setTask_of_ne s t _ heq]
  cases h with
  | returned around hcoro hidle =>
    exact .returned (haround around) (by simp [hcoro]) (by simp [hidle])
  | yielded slots us rest around hcoro hus hyielded htime hjoins =>
    refine .yielded slots us rest (haround around) (by simp [hcoro]) hus (by simp [hyielded])
      (by simp [htime]) ?_
    rw [holds_setTask rfl]
    exact hjoins
  | awaiting slots i rest f around hcoro hyielded htime hjoins hslot hcomplete' hfire =>
    refine .awaiting slots i rest f (haround around) (by simp [hcoro]) (by simp [hyielded])
      (by simp [htime]) ?_ hslot (by rw [hcomplete]; exact hcomplete') (by rw [hheader]; exact hfire)
    rw [holds_setTask rfl]
    exact hjoins

/-- A task with no subtasks under way may start. -/
theorem Around.empty (h : Around s t none) : Around s t (some []) := by
  refine ⟨⟨h.tidy, h.situated, h.kin.replace ?_ ?_, h.joined⟩, h.held⟩
  · intro l' j f hl hslot
    obtain rfl := Option.some.inj hl
    simp [slot] at hslot
  · intro l i f hl
    simp at hl

/-- Resolving the container of the task in hand. -/
theorem around_resolveContainer (h : Around s t slots) (hsteady : Steady s t) :
    Around (resolveContainer L w t s) t slots ∧ Steady (resolveContainer L w t s) t := by
  unfold resolveContainer
  split
  · exact ⟨h.setCtx rfl, hsteady.setTask rfl rfl rfl (by simp)⟩
  · exact ⟨h, hsteady⟩

theorem task_resolveContainer : ∃ c, (resolveContainer L w t s).task t =
    { s.task t with ctx := { (s.task t).ctx with container := c } } := by
  unfold resolveContainer
  split
  next c _ => exact ⟨some c, by simp⟩
  · exact ⟨(s.task t).ctx.container, rfl⟩

/-- **A task is started** and put where it belongs. -/
theorem orderly_start (h : Around s t none) (hsteady : Steady s t)
    (hidle : (s.task t).ctx.isYielded = false) : Orderly (execTask L w t false s) := by
  obtain ⟨h₁, hsteady₁⟩ := @around_resolveContainer L w s t none h hsteady
  obtain ⟨c₁, htask₁⟩ := @task_resolveContainer L w s t
  have hidle₁ : ((resolveContainer L w t s).task t).ctx.isYielded = false := by
    rw [htask₁]
    exact hidle
  unfold execTask
  generalize resolveContainer L w t s = s₁ at h₁ hsteady₁ hidle₁
  have hrun : Paused (startCoroutine L w t s₁) t ∧ Steady (startCoroutine L w t s₁) t := by
    unfold startCoroutine
    split
    next hnone => exact absurd hnone hsteady₁.container
    next c hc =>
      generalize hs₂ : (if (s₁.task t).header.period = none then updateWork t c 1 s₁ else s₁) = s₂
      have hkeep : Around s₂ t none ∧ s₂.task t = s₁.task t := by
        rw [← hs₂]
        split
        · exact ⟨h₁.change (tidy_updateWork h₁.tidy) (held_updateWork h₁.held) rfl
            (fun _ _ _ => ⟨rfl, fun _ => Iff.rfl, rfl⟩) (lasting_rfl rfl) (fun hc => hc), rfl⟩
        · exact ⟨h₁, rfl⟩
      obtain ⟨h₂, htask⟩ := hkeep
      have h₃ : Around (s₂.observe (.run t c)) t none :=
        h₂.change (h₂.tidy.observe (by simp)) h₂.held.observe rfl
          (fun _ _ _ => ⟨rfl, fun _ => Iff.rfl, rfl⟩) (lasting_rfl rfl) (fun hc => hc)
      refine paused_runBody _ _ ⟨h₃.empty, ?_, ?_, ?_, ?_⟩ ?_
      · rw [observe_task, htask]
        exact hsteady₁.opened
      · rw [observe_task, htask]
        exact hidle₁
      · rw [observe_task, htask]
        exact hsteady₁.worker
      · rw [observe_task, htask]
        exact hsteady₁.container
      · exact h₃.kin.bodies t h₃.held.born
  unfold runCoroutine
  rw [if_neg (by simp)]
  refine orderly_settleTask hrun.1.started ?_ (by simp)
  exact hrun.2.setTask rfl rfl rfl hrun.2.container

/-- **A task is resumed** and put where it belongs. -/
theorem orderly_resume {frame : Frame} (h : Around s t (some frame.slots)) (hsteady : Steady s t)
    (hcoro : (s.task t).ctx.coroHandle = some frame) (hstarted : (s.task t).started = true)
    (hjoins : frame.point.joins (holds s frame.slots) = true)
    (hdone : ∀ i rest f, frame.point = .coAwait i rest → slot frame.slots i = some f →
      (s.task f).complete = true) : Orderly (execTask L w t true s) := by
  obtain ⟨h₁, hsteady₁⟩ := @around_resolveContainer L w s t _ h hsteady
  obtain ⟨c₁, htask₁⟩ := @task_resolveContainer L w s t
  have hlast : ∀ f, (s.task f).complete = true →
      ((resolveContainer L w t s).task f).complete = true := by
    intro f hf
    rw [(tidy_resolveContainer h.tidy h.held).2.2.2]
    exact hf
  have hholds : holds (resolveContainer L w t s) frame.slots = holds s frame.slots := by
    unfold resolveContainer
    split
    · exact holds_setCtx _
    · rfl
  have hstarted₁ : ((resolveContainer L w t s).task t).started = true := by
    rw [htask₁]
    exact hstarted
  have hcoro₁ : ((resolveContainer L w t s).task t).ctx.coroHandle = some frame := by
    rw [htask₁]
    exact hcoro
  unfold execTask
  generalize resolveContainer L w t s = s₁ at h₁ hsteady₁ hlast hholds hstarted₁ hcoro₁
  generalize hs₂ : (s₁.setCtx t fun ctx => { ctx with isYielded := false }) = s₂
  have hrunning : Running s₂ t frame.slots := by
    rw [← hs₂]
    refine ⟨h₁.setCtx rfl, ?_, by simp, ?_, ?_⟩
    · simpa using hsteady₁.opened
    · simpa using hsteady₁.worker
    · simpa using hsteady₁.container
  have hjoins₂ : frame.point.joins (holds s₂ frame.slots) = true := by
    rw [← hs₂, holds_setCtx, hholds]
    exact hjoins
  have hstarted₂ : (s₂.task t).started = true := by
    rw [← hs₂, setCtx_self]
    exact hstarted₁
  have hcoro₂ : (s₂.task t).ctx.coroHandle = some frame := by
    rw [← hs₂, setCtx_self]
    exact hcoro₁
  have hdone₂ : ∀ f, (s₁.task f).complete = true → (s₂.task f).complete = true := by
    intro f hf
    rw [← hs₂]
    by_cases heq : f = t
    · rw [heq, setCtx_self]
      rw [heq] at hf
      exact hf
    · rw [setCtx_of_ne s₁ t _ heq]
      exact hf
  have hrun : ∃ body slots s₃, resumeCoroutine L w t s₁ = runBody L w t body slots s₃ ∧
      Running s₃ t slots ∧ body.joins (holds s₃ slots) = true ∧ (s₃.task t).started = true := by
    unfold resumeCoroutine
    dsimp only
    rw [hs₂, hcoro₂]
    obtain ⟨slots, point⟩ := frame
    cases point with
    | coAwait i rest =>
      rw [Body.joins, Bool.and_eq_true] at hjoins₂
      refine ⟨rest, slots.set i none, s₂.awaitResume t (slot slots i), rfl, ?_, ?_, ?_⟩
      · refine hrunning.awaitResume ?_
        intro f hf
        exact Or.inl (hdone₂ f (hlast f (hdone i rest f rfl hf)))
      · rw [holds_set, @holds_congr s₂ (s₂.awaitResume t (slot slots i)) slots (by simp)]
        exact hjoins₂.2
      · simpa using hstarted₂
    | yield us rest =>
      rw [Body.joins, Bool.and_eq_true] at hjoins₂
      exact ⟨rest, slots, s₂, rfl, hrunning, hjoins₂.2, hstarted₂⟩
    | coReturn => exact ⟨_, slots, s₂, rfl, hrunning, hjoins₂, hstarted₂⟩
    | submit header body rest => exact ⟨_, slots, s₂, rfl, hrunning, hjoins₂, hstarted₂⟩
    | poll i complete pending => exact ⟨_, slots, s₂, rfl, hrunning, hjoins₂, hstarted₂⟩
  obtain ⟨body, slots, s₃, heq, hrunning₃, hjoins₃, hstarted₃⟩ := hrun
  unfold runCoroutine
  rw [if_pos rfl, heq]
  obtain ⟨hpaused, hsteady₃⟩ := @paused_runBody L w s₃ t body slots hrunning₃ hjoins₃
  refine orderly_settleTask hpaused hsteady₃ ?_
  rw [started_runBody body slots hrunning₃.around.held.born]
  exact hstarted₃

end

end Runtime
end IowarpCore
