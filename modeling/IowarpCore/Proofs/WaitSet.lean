/-
Every suspended task waits in exactly one place.

`Regular` is what the loop needs from outside: coroutines that yield for a time and await
what they submit, events in time, pools that exist, and for a task that wakes up a route to
a container of this node.  Then every step keeps all tasks in order, and in every state that
is reached no task is forgotten and none can be resumed twice.
-/
import Mathlib.Data.List.Nodup
import IowarpCore.Proofs.Situations

namespace IowarpCore
namespace Runtime

open State

/-- A task is sent to a worker of this node. -/
def Route.isHere : Route → Bool
  | .here _ => true
  | _ => false

section

variable (L : Layout)

/-- The condition on a step, in the state before it. -/
def Regular : Act → State → Prop
  | .accept _ _ body, _ => body.joins [] = true
  | .newTask w route, s => ∀ t ∈ (s.queue (.lane w)).head?,
      L.staticContainer (L.node w) (s.task t).header.address ≠ none ∧
      ((s.task t).routed = false → route ≠ .unresolved)
  | .event w, s => Timely (.event w) s
  | .periodic w i due route, s => due = true → ∀ t ∈ (s.queue (.periodic w i)).head?,
      route ≠ .unresolved ∧
      ((s.task t).started = true → route.isHere = true ∧ available L w t s ≠ none)
  | .recvOut n w, s => ∀ copy ∈ (s.queue (.sendOut n)).head?, ∀ t ∈ (s.task copy).origin,
      L.staticContainer (L.node w) (s.task t).header.address ≠ none
  | _, _ => True

instance decidableRegular (a : Act) (s : State) : Decidable (Regular L a s) :=
  match a with
  | .accept _ _ body => inferInstanceAs (Decidable (body.joins [] = true))
  | .newTask w route => inferInstanceAs (Decidable (∀ t ∈ (s.queue (.lane w)).head?,
      L.staticContainer (L.node w) (s.task t).header.address ≠ none ∧
      ((s.task t).routed = false → route ≠ .unresolved)))
  | .event w => decidableTimely (.event w) s
  | .periodic w i due route => inferInstanceAs (Decidable (due = true →
      ∀ t ∈ (s.queue (.periodic w i)).head?, route ≠ .unresolved ∧
        ((s.task t).started = true → route.isHere = true ∧ available L w t s ≠ none)))
  | .recvOut n w => inferInstanceAs (Decidable (∀ copy ∈ (s.queue (.sendOut n)).head?,
      ∀ t ∈ (s.task copy).origin,
        L.staticContainer (L.node w) (s.task t).header.address ≠ none))
  | .blocked .. | .retry .. | .sendIn .. | .plug .. | .move .. => inferInstanceAs (Decidable True)

end

section

variable {L : Layout} {w : WorkerId} {s : State} {t : TaskId} {q : Queue}
  {slots : Option (List (Option TaskId))}

/-! ### Taking a task from its queue -/

/-- What a task in a queue may be: not yet started, or suspended at a yield. -/
inductive Queued (s : State) (q : Queue) (t : TaskId) : Prop where
  | fresh (hstarted : (s.task t).started = false) (hcoro : (s.task t).ctx.coroHandle = none)
      (hidle : (s.task t).ctx.isYielded = false) (hopen : (s.task t).complete = false)
      (hworker : q.isLane = false → Bound (s.task t))
      (hcontainer : q.isWait = true → q.isLane = false ∨ (s.task t).routed = true →
        (s.task t).ctx.container ≠ none)
  | yielding (slots : List (Option TaskId)) (us : ℚ) (rest : Body)
      (hwait : q.isWait = true) (hstarted : (s.task t).started = true)
      (hcoro : (s.task t).ctx.coroHandle = some ⟨slots, .yield us rest⟩)
      (hopen : (s.task t).complete = false) (hworker : Bound (s.task t))
      (hcontainer : (s.task t).ctx.container ≠ none)
      (hrouted : q.isLane = true → (s.task t).routed = true)

theorem Orderly.queued (h : Orderly s) (hrun : q.isRun = true) (hmem : t ∈ s.queue q) :
    Queued s q t := by
  cases h.situated t (h.tidy.existing q t hmem) with
  | fresh q' hq' hmem' hstarted hcoro hidle hopen hworker hcontainer =>
    obtain rfl := h.tidy.once t q' q hmem' hmem
    exact .fresh hstarted hcoro hidle hopen hworker hcontainer
  | sent hmap => exact absurd hmem ((h.tidy.mapped t hmap).2 q)
  | yielding q' slots us rest hq' hmem' hstarted hcoro hopen hworker hcontainer hrouted =>
    obtain rfl := h.tidy.once t q' q hmem' hmem
    exact .yielding slots us rest hq' hstarted hcoro hopen hworker hcontainer hrouted
  | awaiting f hstarted hawaits =>
    obtain ⟨slots, i, rest, hframe, _⟩ := awaited_eq_some hawaits
    exact absurd hmem ((h.tidy.waiting t slots i rest hframe).1 q)
  | ended v hmem' =>
    obtain rfl := h.tidy.once t _ q hmem' hmem
    simp [Queue.isRun] at hrun
  | done hcoro hunmapped hqueue =>
    have hout := hqueue q hmem
    cases q <;> simp [Queue.isRun, Queue.isSendOut] at hrun hout

/-- Taking a task leaves all the others in order. -/
theorem Orderly.take {rest : List TaskId} (h : Orderly s) (hq : s.queue q = t :: rest) :
    Around (s.pop q) t (frameSlots s t) := by
  obtain ⟨htidy, hheld⟩ := h.tidy.pop hq
  refine ⟨⟨htidy, ?_, ?_, ?_⟩, hheld⟩
  · intro t' ht' hne
    refine (h.situated t' ht').untouched (untouched_pop hq hne) ?_
    intro f _ hcomplete
    exact ⟨hcomplete, rfl⟩
  · have hsame : Function.update (frameSlots (s.pop q)) t (frameSlots s t) = frameSlots s :=
      Function.update_eq_self t (frameSlots s)
    rw [hsame]
    exact h.kin.lasting rfl fun _ _ => lasting_rfl rfl
  · intro t' frame _ hframe
    exact h.joined t' frame hframe

/-- What is in order is so around any task. -/
theorem Orderly.rest (h : Orderly s) : Rest s t (frameSlots s t) := by
  refine ⟨h.tidy, fun t' ht' _ => h.situated t' ht', ?_, fun t' frame _ => h.joined t' frame⟩
  rw [Function.update_eq_self]
  exact h.kin

/-- The context of the task in hand is bound to the worker. -/
theorem Around.bind (h : Around s t slots) :
    Around (s.setCtx t fun ctx => { ctx with worker := some w }) t slots :=
  h.setCtx rfl

/-! ### Routing -/

/-- A task that was not started goes where it is routed. -/
theorem orderly_route_fresh {route : Route} (h : Around s t none)
    (hstarted : (s.task t).started = false) (hcoro : (s.task t).ctx.coroHandle = none)
    (hidle : (s.task t).ctx.isYielded = false) (hopen : (s.task t).complete = false)
    (hworker : Bound (s.task t))
    (hcontainer : (s.task t).routed = true → (s.task t).ctx.container ≠ none)
    (hroute : (s.task t).routed = false → route ≠ .unresolved) :
    Orderly (routeAndExec L w t route false s) := by
  obtain ⟨hcontext, hworker⟩ := hworker
  unfold routeAndExec routeTask
  by_cases hrouted : (s.task t).routed = true
  · rw [if_pos hrouted]
    exact orderly_start h ⟨hopen, ⟨hcontext, hworker⟩, hcontainer hrouted⟩ hidle
  rw [if_neg hrouted]
  have hroute' := hroute (by simpa using hrouted)
  cases route with
  | unresolved => exact absurd rfl hroute'
  | elsewhere =>
    have hpush := h.setTask (f := fun task => { task with routed := true }) rfl
      (by constructor <;> simp) rfl
    have hcomm : routeGlobal L w t s =
        (s.setTask t fun task => { task with routed := true }).push (.sendIn (L.node w)) t := rfl
    dsimp only
    rw [hcomm]
    refine hpush.pushFresh rfl ?_ ?_ ?_ ?_ ?_ ?_ <;> simp [*, Queue.isWait, Bound]
  | here dest =>
    have h₁ := h.setTask (f := fun task => { task with routed := true }) rfl
      (by constructor <;> simp) rfl
    dsimp only
    unfold routeLocal
    cases havailable : available L w t (s.setTask t fun task => { task with routed := true }) with
    | none =>
      dsimp only
      rw [havailable]
      refine h₁.pushFresh rfl ?_ ?_ ?_ ?_ ?_ ?_ <;> simp [*, Queue.isWait, Bound]
    | some c =>
      have h₂ := h₁.setCtx (g := fun ctx => { ctx with container := some c }) rfl
      dsimp only
      rw [havailable]
      dsimp only
      by_cases hdest : dest = w
      · rw [if_pos hdest]
        refine orderly_start h₂ ⟨?_, ?_, ?_⟩ ?_ <;> simp [*, Bound]
      · rw [if_neg hdest]
        refine h₂.pushFresh rfl ?_ ?_ ?_ ?_ ?_ ?_ <;> simp [*, Queue.isLane, Bound]

/-- A task that wakes up goes on here, or on the worker it is given to. -/
theorem orderly_route_yielding {route : Route} {slots : List (Option TaskId)} {us : ℚ} {rest : Body}
    (h : Around s t (some slots)) (hstarted : (s.task t).started = true)
    (hcoro : (s.task t).ctx.coroHandle = some ⟨slots, .yield us rest⟩)
    (hopen : (s.task t).complete = false) (hworker : Bound (s.task t))
    (hcontainer : (s.task t).ctx.container ≠ none)
    (hjoins : (Body.yield us rest).joins (holds s slots) = true)
    (hroute : (s.task t).routed = false → route.isHere = true ∧ available L w t s ≠ none) :
    Orderly (routeAndExec L w t route true s) := by
  obtain ⟨hcontext, hworker⟩ := hworker
  unfold routeAndExec routeTask
  by_cases hrouted : (s.task t).routed = true
  · rw [if_pos hrouted]
    exact @orderly_resume L w s t ⟨slots, .yield us rest⟩ h ⟨hopen, ⟨hcontext, hworker⟩, hcontainer⟩
      hcoro hstarted hjoins (by simp)
  rw [if_neg hrouted]
  obtain ⟨hhere, havailable⟩ := hroute (by simpa using hrouted)
  cases route with
  | unresolved => simp [Route.isHere] at hhere
  | elsewhere => simp [Route.isHere] at hhere
  | here dest =>
    have h₁ := h.setTask (f := fun task => { task with routed := true }) rfl
      (by constructor <;> simp) rfl
    have hsame : available L w t (s.setTask t fun task => { task with routed := true }) =
        available L w t s := by simp [available]
    dsimp only
    unfold routeLocal
    dsimp only
    rw [hsame]
    cases hav : available L w t s with
    | none => exact absurd hav havailable
    | some c =>
      have h₂ := h₁.setCtx (g := fun ctx => { ctx with container := some c }) rfl
      have hjoins₂ : (Body.yield us rest).joins (holds ((s.setTask t fun task =>
          { task with routed := true }).setCtx t fun ctx => { ctx with container := some c })
            slots) = true := by
        rw [holds_setCtx, holds_setTask rfl]
        exact hjoins
      dsimp only
      by_cases hdest : dest = w
      · rw [if_pos hdest]
        refine @orderly_resume L w _ t ⟨slots, .yield us rest⟩ h₂ ⟨?_, ?_, ?_⟩ ?_ ?_ hjoins₂
          (by simp) <;> simp [*, Bound]
      · rw [if_neg hdest]
        refine h₂.push ?_ ?_ _ ?_ ?_
        · simp [frameSlots, hcoro]
        · intro slots' i rest'
          simp [hcoro]
        · refine .yielding (.lane _) slots us rest rfl mem_push_self ?_ ?_ ?_ ?_ ?_ ?_ <;> simp [*, Bound]
        · intro frame hframe
          rw [setCtx_self, setTask_self] at hframe
          dsimp only at hframe
          rw [hcoro] at hframe
          rw [← Option.some.inj hframe]
          exact hjoins₂

/-! ### The queues -/

theorem orderly_processNewTask {route : Route} (h : Orderly s)
    (hregular : Regular L (.newTask w route) s) : Orderly (processNewTask L w route s) := by
  unfold processNewTask
  split
  · exact h
  next t rest hq =>
    have hmem : t ∈ s.queue (.lane w) := by simp [hq]
    obtain ⟨hstatic, hroute⟩ := hregular t (by simp [hq])
    have htake := h.take hq
    dsimp only
    split
    next hnone => exact absurd hnone hstatic
    next c _ =>
      cases h.queued rfl hmem with
      | fresh hstarted hcoro hidle hopen hworker hcontainer =>
        rw [frameSlots_of_none hcoro] at htake
        have hstarted' : ((s.pop (.lane w)).task t).started = false := hstarted
        split
        next hcontext =>
          rw [pop_task] at hcontext
          rw [setCtx_self]
          dsimp only
          rw [hstarted']
          refine orderly_route_fresh htake.bind ?_ ?_ ?_ ?_ ?_ ?_ ?_
          · simpa using hstarted
          · simpa using hcoro
          · simpa using hidle
          · simpa using hopen
          · simp [hcontext, Bound]
          · simpa using fun hr => hcontainer rfl (Or.inr hr)
          · simpa using hroute
        · have hbegin : Around (beginTask w (some c) t (s.pop (.lane w))) t none := by
            unfold beginTask
            refine htake.setTask ?_ (by constructor <;> simp) rfl
            exact hcoro.symm
          have htask : (beginTask w (some c) t (s.pop (.lane w))).task t = { s.task t with
              hasContext := true
              ctx := ⟨some c, some w, none, false, (s.task t).header.period.getD 0, 0⟩ } := by
            simp [beginTask]
          rw [htask]
          dsimp only
          rw [hstarted]
          refine orderly_route_fresh hbegin ?_ ?_ ?_ ?_ ?_ ?_ ?_ <;> rw [htask]
          · exact hstarted
          · exact hopen
          · exact ⟨rfl, by simp⟩
          · simp
          · exact hroute
      | yielding slots us rest' hwait hstarted hcoro hopen hworker hcontainer hrouted =>
        have hslots : frameSlots s t = some slots := by
          rw [frameSlots, hcoro]
          rfl
        rw [hslots] at htake
        rw [if_pos (by simpa using hworker.1), setCtx_self]
        dsimp only
        rw [pop_task, hstarted]
        have hjoins := h.joined t _ hcoro
        refine @orderly_route_yielding L w _ t route slots us rest' htake.bind
          ?_ ?_ ?_ ?_ ?_ ?_ ?_
        · simpa using hstarted
        · simpa using hcoro
        · simpa using hopen
        · simp [Bound, hworker.1]
        · simpa using hcontainer
        · rw [holds_setCtx]
          exact hjoins
        · intro hnot
          rw [setCtx_self] at hnot
          dsimp only at hnot
          rw [pop_task, hrouted rfl] at hnot
          simp at hnot

/-- The task whose event is queued has ended, and its parent is suspended. -/
theorem Orderly.ended_of_event {f : TaskId} (h : Orderly s) (hmem : f ∈ s.queue (.events w)) :
    (s.task f).ctx.coroHandle = none ∧ (s.task f).complete = false ∧
      (s.task f).header.fireAndForget = false ∧ (s.task f).parent ≠ none := by
  cases h.situated f (h.tidy.existing _ f hmem) with
  | fresh q hqrun hmem' =>
    obtain rfl := h.tidy.once f q _ hmem' hmem
    simp [Queue.isRun] at hqrun
  | sent hmap => exact absurd hmem ((h.tidy.mapped f hmap).2 _)
  | yielding q slots us rest hwait hmem' =>
    obtain rfl := h.tidy.once f q _ hmem' hmem
    simp [Queue.isWait] at hwait
  | awaiting g hstarted hawaits =>
    obtain ⟨slots, i, rest, hframe, _⟩ := awaited_eq_some hawaits
    exact absurd hmem ((h.tidy.waiting f slots i rest hframe).1 _)
  | ended v hmem' hcoro hcomplete hfire hparent => exact ⟨hcoro, hcomplete, hfire, hparent⟩
  | done hcoro _ hqueue => exact absurd (hqueue _ hmem) (by simp [Queue.isSendOut])

/-- An event in time resumes the parent that waits for it. -/
theorem orderly_processEvent (h : Orderly s) (htime : Timely (.event w) s) :
    Orderly (processEvent L w s) := by
  unfold processEvent
  split
  · exact h
  next f rest hq =>
    have hmem : f ∈ s.queue (.events w) := by simp [hq]
    have hborn := h.tidy.existing _ f hmem
    obtain ⟨hcorof, hcompletef, hfiref, hparentf⟩ := h.ended_of_event hmem
    obtain ⟨p, hp⟩ := Option.ne_none_iff_exists'.mp hparentf
    obtain ⟨slots, i, hslots, hslot⟩ := h.kin.kept f hborn p hp hfiref hcompletef
    obtain ⟨frame, hframe, hframeSlots⟩ := Option.map_eq_some_iff.mp hslots
    have hpf : p ≠ f := Nat.ne_of_lt (h.kin.lineage f hborn p hp).1
    have hawaits : awaited s p = some f := by
      refine (htime f (by simp [hq]) p hp).resolve_left ?_
      rw [hframe]
      simp
    obtain ⟨slots', i', rest', hframe', hslot'⟩ := awaited_eq_some hawaits
    obtain ⟨haway, hunmapped⟩ := h.tidy.waiting p slots' i' rest' hframe'
    have hpborn := (h.tidy.slots p _ hframe').1
    generalize hs₁ : (s.pop (.events w)).setTask f (fun task => { task with complete := true }) = s₁
    have htask : ∀ t', t' ≠ f → s₁.task t' = s.task t' := by
      intro t' hne
      rw [← hs₁, setTask_of_ne _ _ _ hne]
      rfl
    have htaskf : s₁.task f = { s.task f with complete := true } := by
      rw [← hs₁, setTask_self]
      rfl
    have htidy : Tidy s₁ := by
      rw [← hs₁]
      exact (h.tidy.pop hq).1.setTask rfl (Or.inl rfl)
    have hsame : ∀ t', t' ≠ f → Untouched s s₁ t' := by
      intro t' hne
      rw [← hs₁]
      exact (untouched_pop hq hne).trans (untouched_setTask hne)
    have hlast : ∀ t', Lasting s s₁ t' := by
      intro t'
      by_cases heq : t' = f
      · rw [heq]
        constructor <;> simp [htaskf]
      · exact (hsame t' heq).lasting
    have hsituated : ∀ t' < s₁.next, t' ≠ p → Situated s₁ t' := by
      intro t' ht' hne
      have hlt : t' < s.next := by
        rw [← hs₁] at ht'
        exact ht'
      by_cases heq : t' = f
      · rw [heq]
        have hunmappedf : s₁.sendMap f = none := by
          rw [← hs₁]
          exact (h.tidy.pop hq).2.unmapped
        refine .done (by rw [htaskf]; exact hcorof) hunmappedf ?_ (by rw [htaskf]; simp)
        intro q hq'
        exfalso
        rw [← hs₁] at hq'
        exact (h.tidy.pop hq).2.away q hq'
      · refine (h.situated t' hlt).untouched (hsame t' heq) ?_
        intro g hawaits' hcomplete
        have hgf : g ≠ f := by
          intro hgf
          obtain ⟨slots₂, i₂, rest₂, hframe₂, hslot₂⟩ := awaited_eq_some hawaits'
          have hparent := (h.kin.owned t' slots₂ i₂ g (by rw [frameSlots, hframe₂]; rfl) hslot₂).2
          rw [hgf, hp] at hparent
          exact hne (Option.some.inj hparent).symm
        rw [htask g hgf]
        exact ⟨hcomplete, rfl⟩
    have hkin : Kin s₁ (frameSlots s) :=
      h.kin.lasting (by rw [← hs₁]; rfl) fun t' _ => hlast t'
    have hframes : frameSlots s₁ = frameSlots s := by
      funext t'
      by_cases heq : t' = f
      · rw [heq, frameSlots, frameSlots, htaskf]
      · rw [frameSlots, frameSlots, htask t' heq]
    have hholds : ∀ slots, holds s₁ slots = holds s slots :=
      fun slots => holds_congr fun _ g _ => (hlast g).header
    have hheld : Held s₁ p := by
      rw [← hs₁]
      exact ⟨hpborn, fun q hq' => haway q (mem_pop hq'), hunmapped⟩
    have haround : Around s₁ p (some slots') := by
      refine ⟨⟨htidy, hsituated, ?_, ?_⟩, hheld⟩
      · have hself : some slots' = frameSlots s₁ p := by
          rw [hframes, frameSlots, hframe']
          rfl
        rw [hself, Function.update_eq_self, hframes]
        exact hkin
      · intro t' frame' _ hframe''
        rw [hholds]
        refine h.joined t' frame' ?_
        by_cases heq : t' = f
        · rw [heq, htaskf] at hframe''
          rw [heq]
          exact hframe''
        · rwa [htask t' heq] at hframe''
    dsimp only
    rw [htaskf]
    dsimp only
    rw [hp]
    dsimp only
    rw [htask p hpf, hframe', if_neg (by simp)]
    cases h.situated p hpborn with
    | fresh q hqrun hmem' => exact absurd hmem' (haway q)
    | sent hmap => exact absurd hunmapped hmap
    | yielding q slots us rest hwait hmem' => exact absurd hmem' (haway q)
    | ended v hmem' => exact absurd hmem' (haway _)
    | done hcoro =>
      rw [hcoro] at hframe'
      simp at hframe'
    | awaiting g hstarted hawaits' hcomplete hfire hopen hworker hcontainer =>
      refine @orderly_resume L w _ p ⟨slots', .coAwait i' rest'⟩ (haround.setCtx rfl)
        ⟨?_, ?_, ?_⟩ ?_ ?_ ?_ ?_
      · simpa [htask p hpf] using hopen
      · rw [setCtx_self, htask p hpf]
        exact hworker
      · simpa [htask p hpf] using hcontainer
      · simpa [htask p hpf] using hframe'
      · simpa [htask p hpf] using hstarted
      · rw [holds_setCtx, hholds]
        exact h.joined p _ hframe'
      · intro i₂ rest₂ g' hpoint hslot₂
        obtain ⟨rfl, rfl⟩ := Body.coAwait.inj hpoint
        rw [hslot'] at hslot₂
        obtain rfl := Option.some.inj hslot₂
        rw [setCtx_of_ne _ _ _ (Ne.symm hpf), htaskf]

/-- What a yielding task has in its slots. -/
theorem frameSlots_of_some {slots : List (Option TaskId)} {point : Body}
    (h : (s.task t).ctx.coroHandle = some ⟨slots, point⟩) : frameSlots s t = some slots := by
  rw [frameSlots, h]
  rfl

theorem orderly_processPeriodic {i : Fin 4} {due : Bool} {route : Route} (h : Orderly s)
    (hregular : Regular L (.periodic w i due route) s) :
    Orderly (processPeriodic L w i due route s) := by
  unfold processPeriodic
  split
  · exact h
  next t rest hq =>
    have hmem : t ∈ s.queue (.periodic w i) := by simp [hq]
    have htake := h.take hq
    dsimp only
    cases h.queued rfl hmem with
    | fresh hstarted hcoro hidle hopen hworker hcontainer =>
      rw [frameSlots_of_none hcoro] at htake
      obtain ⟨hcontext, hworker⟩ := hworker rfl
      have hcontainer := hcontainer rfl (Or.inl rfl)
      split
      next hdue =>
        obtain ⟨hroute, _⟩ := hregular hdue t (by simp [hq])
        rw [pop_task, hstarted]
        refine orderly_route_fresh (htake.setTask rfl (by constructor <;> simp) rfl)
          ?_ ?_ ?_ ?_ ?_ ?_ (fun _ => hroute) <;> simp [*, Bound]
      · refine htake.pushFresh rfl ?_ ?_ ?_ ?_ ?_ ?_ <;> simp [*, Bound]
    | yielding slots us rest' hwait hstarted hcoro hopen hworker hcontainer hrouted =>
      rw [frameSlots_of_some hcoro] at htake
      have hjoins := h.joined t _ hcoro
      split
      next hdue =>
        obtain ⟨_, hstay⟩ := hregular hdue t (by simp [hq])
        rw [pop_task, hstarted]
        refine @orderly_route_yielding L w _ t route slots us rest'
          (htake.setTask rfl (by constructor <;> simp) rfl) ?_ ?_ ?_ ?_ ?_ ?_ ?_
        · simpa using hstarted
        · simpa using hcoro
        · simpa using hopen
        · simpa [Bound] using hworker
        · simpa using hcontainer
        · rw [holds_setTask rfl]
          exact hjoins
        · intro _
          simpa [available] using hstay hstarted
      · refine htake.push (frameSlots_of_some hcoro) ?_ _ ?_ ?_
        · intro slots' j rest''
          simp [hcoro]
        · exact .yielding (.periodic w i) slots us rest' rfl mem_push_self hstarted hcoro hopen
            hworker hcontainer (by simp [Queue.isLane])
        · intro frame hframe
          rw [pop_task, hcoro] at hframe
          rw [← Option.some.inj hframe]
          exact hjoins

theorem orderly_processBlocked {i : Fin 4} (h : Orderly s) : Orderly (processBlocked L w i s) := by
  unfold processBlocked
  split
  · exact h
  next t rest hq =>
    have hmem : t ∈ s.queue (.blocked w i) := by simp [hq]
    have htake := h.take hq
    dsimp only
    cases h.queued rfl hmem with
    | fresh hstarted hcoro hidle hopen hworker hcontainer =>
      rw [frameSlots_of_none hcoro] at htake
      obtain ⟨hcontext, hworker⟩ := hworker rfl
      have hcontainer := hcontainer rfl (Or.inl rfl)
      rw [pop_task, hstarted, if_neg (by simp)]
      refine orderly_start (htake.setCtx rfl) ⟨?_, ?_, ?_⟩ ?_ <;> simp [*, Bound]
    | yielding slots us rest' hwait hstarted hcoro hopen hworker hcontainer hrouted =>
      rw [frameSlots_of_some hcoro] at htake
      rw [pop_task, hstarted, hcoro, if_neg (by simp)]
      refine @orderly_resume L w _ t ⟨slots, .yield us rest'⟩ (htake.setCtx rfl) ⟨?_, ?_, ?_⟩
        ?_ ?_ ?_ (by simp)
      · simpa using hopen
      · simpa [Bound] using hworker
      · simpa using hcontainer
      · simpa using hcoro
      · simpa using hstarted
      · rw [holds_setCtx]
        exact h.joined t _ hcoro

theorem orderly_processRetry {route : Route} (h : Orderly s) :
    Orderly (processRetry L w route s) := by
  unfold processRetry
  split
  · exact h
  next t rest hq =>
    have hmem : t ∈ s.queue (.retry w) := by simp [hq]
    have htake := h.take hq
    cases h.queued rfl hmem with
    | yielding slots us rest' hwait => simp [Queue.isWait] at hwait
    | fresh hstarted hcoro hidle hopen hworker hcontainer =>
      rw [frameSlots_of_none hcoro] at htake
      obtain ⟨hcontext, hworker⟩ := hworker rfl
      have hglobal : Orderly (routeGlobal L w t (s.pop (.retry w))) := by
        have hset := htake.setTask (f := fun task => { task with routed := true }) rfl
          (by constructor <;> simp) rfl
        refine hset.pushFresh rfl ?_ ?_ ?_ ?_ ?_ ?_ <;> simp [*, Queue.isWait, Bound]
      dsimp only
      split
      · cases havailable : available L w t (s.pop (.retry w)) with
        | none =>
          dsimp only
          refine htake.pushFresh rfl ?_ ?_ ?_ ?_ ?_ ?_ <;> simp [*, Queue.isWait, Bound]
        | some c =>
          dsimp only
          refine orderly_start (htake.setCtx rfl) ⟨?_, ?_, ?_⟩ ?_ <;> simp [*, Bound]
      · exact hglobal

/-! ### The network -/

/-- A new task that nobody waits for. -/
theorem orderly_new {task : Task} (h : Orderly s) (hbody : task.body.joins [] = true)
    (hparent : task.parent = none) (hstarted : task.started = false)
    (hrouted : task.routed = false) (hopen : task.complete = false)
    (hcoro : task.ctx.coroHandle = none) (hidle : task.ctx.isYielded = false) :
    Orderly (({ s with next := s.next + 1, task := Function.update s.task s.next task } :
      State).push (.lane w) s.next) := by
  have hnewborn := newborn (w := w) h.tidy hcoro
  generalize hs' : (({ s with next := s.next + 1, task := Function.update s.task s.next task } :
    State).push (.lane w) s.next) = s' at hnewborn ⊢
  have hsame := hnewborn.same
  have hnew := hnewborn.task
  refine ⟨hnewborn.tidy, ?_, ⟨?_, hnewborn.bodies hbody h.kin.bodies, ?_, ?_⟩, ?_⟩
  · intro t' ht'
    rcases hnewborn.old_or_new ht' with hlt | heq
    · exact hnewborn.situated hlt (h.situated t' hlt)
    · subst heq
      refine .fresh (.lane w) rfl hnewborn.queued ?_ ?_ ?_ ?_ ?_ ?_ <;> simp [*, Queue.isLane]
  · intro f hf p hp
    rcases hnewborn.old_or_new hf with hlt | heq
    · rw [(hsame f hlt).task] at hp ⊢
      exact h.kin.lineage f hlt p hp
    · rw [heq, hnew, hparent] at hp
      simp at hp
  · intro p slots i f hslots hslot
    obtain ⟨frame, hframe, hslots'⟩ := Option.map_eq_some_iff.mp hslots
    obtain ⟨hf, hp⟩ := h.kin.owned p slots i f (by
      rw [frameSlots, (hnewborn.frames hframe).2]
      exact congrArg some hslots') hslot
    rw [hnewborn.next, (hsame f hf).task]
    exact ⟨Nat.lt_succ_of_lt hf, hp⟩
  · intro f hf p hp hfire hcomplete
    rcases hnewborn.old_or_new hf with hlt | heq
    · rw [(hsame f hlt).task] at hp hfire hcomplete
      obtain ⟨slots, i, hslots, hslot⟩ := h.kin.kept f hlt p hp hfire hcomplete
      refine ⟨slots, i, ?_, hslot⟩
      rw [frameSlots, (hsame p (Nat.lt_trans (h.kin.lineage f hlt p hp).1 hlt)).task]
      exact hslots
    · rw [heq, hnew, hparent] at hp
      simp at hp
  · intro t' frame hframe
    rw [hnewborn.holds_eq hframe]
    exact h.joined t' frame (hnewborn.frames hframe).2

theorem orderly_arrived (arrived : List WorkerId) : ∀ {s : State}, Orderly s → t < s.next →
    Orderly (arrived.foldl (recvIn t) s) := by
  induction arrived with
  | nil =>
    intro s h _
    exact h
  | cons w arrived ih =>
    intro s h hborn
    refine ih ?_ (Nat.lt_succ_of_lt hborn)
    unfold recvIn State.setTask
    exact orderly_new h (h.kin.bodies t hborn) rfl rfl rfl rfl rfl rfl

/-- The send map changes at a task that is in no queue. -/
theorem Rest.setMap {replicas : Option Nat} (h : Rest s t slots) (hborn : t < s.next)
    (haway : Away s t) (hrun : Unawaiting s t) :
    Rest { s with sendMap := Function.update s.sendMap t replicas } t slots := by
  refine h.change (tidy_unmap t replicas h.tidy hborn haway fun _ => hrun) rfl ?_ (lasting_rfl rfl)
    (fun hc => Or.inl hc)
  intro t' _ hne
  exact ⟨rfl, fun _ => Iff.rfl, Function.update_of_ne hne _ _⟩

theorem orderly_sendIn {n : NodeId} {replicas : Nat} {arrived : List WorkerId} (h : Orderly s) :
    Orderly (sendIn n replicas arrived s) := by
  unfold sendIn
  split
  · exact h
  next t rest hq =>
    have hmem : t ∈ s.queue (.sendIn n) := by simp [hq]
    have htake := h.take hq
    cases h.queued rfl hmem with
    | yielding slots us rest' hwait => simp [Queue.isWait] at hwait
    | fresh hstarted hcoro hidle hopen hworker hcontainer =>
      rw [frameSlots_of_none hcoro] at htake
      refine orderly_arrived arrived ?_ htake.held.born
      refine (htake.toRest.setMap htake.held.born htake.held.away
        (unawaiting_of_none hcoro)).settle (frameSlots_of_none hcoro) ?_ (by simp [hcoro])
      exact .sent (by simp) hstarted hcoro hidle hopen (hworker rfl)

theorem orderly_recvOut {n : NodeId} (h : Orderly s) (hregular : Regular L (.recvOut n w) s) :
    Orderly (recvOut L n w s) := by
  unfold recvOut
  split
  · exact h
  next copy rest hq =>
    have hmem : copy ∈ s.queue (.sendOut n) := by simp [hq]
    have htake := h.take hq
    have hborn := h.tidy.existing _ copy hmem
    -- The replica has ended; it is done with.
    have hdone : Orderly (s.pop (.sendOut n)) := by
      cases h.situated copy hborn with
      | fresh q hqrun hmem' =>
        obtain rfl := h.tidy.once copy q _ hmem' hmem
        simp [Queue.isRun] at hqrun
      | sent hmap => exact absurd hmem ((h.tidy.mapped copy hmap).2 _)
      | yielding q slots us rest hwait hmem' =>
        obtain rfl := h.tidy.once copy q _ hmem' hmem
        simp [Queue.isWait] at hwait
      | awaiting g hstarted hawaits =>
        obtain ⟨slots, i, rest, hframe, _⟩ := awaited_eq_some hawaits
        exact absurd hmem ((h.tidy.waiting copy slots i rest hframe).1 _)
      | ended v hmem' =>
        have hq' := h.tidy.once copy _ _ hmem' hmem
        simp at hq'
      | done hcoro hunmapped hqueue hanswer =>
        rw [frameSlots_of_none hcoro] at htake
        refine htake.toRest.settle (frameSlots_of_none hcoro) ?_ (by simp [hcoro])
        exact .done hcoro hunmapped (fun q hmem' => hqueue q (mem_pop hmem')) hanswer
    dsimp only
    split
    · exact hdone
    next t horigin =>
      have hstatic := hregular copy (by simp [hq]) t horigin
      generalize hs₁ : s.pop (.sendOut n) = s₁ at hdone
      have hstatic₁ : L.staticContainer (L.node w) (s₁.task t).header.address ≠ none := by
        rw [← hs₁]
        exact hstatic
      -- An origin that still waits for answers was never started.
      have hsent : s₁.sendMap t ≠ none → t < s₁.next ∧ Away s₁ t ∧
          (s₁.task t).started = false ∧ (s₁.task t).ctx.coroHandle = none ∧
          (s₁.task t).ctx.isYielded = false ∧ (s₁.task t).complete = false ∧
          Bound (s₁.task t) := by
        intro hmap
        obtain ⟨hlt, haway⟩ := hdone.tidy.mapped t hmap
        cases hdone.situated t hlt with
        | fresh q hqrun hmem' => exact absurd hmem' (haway q)
        | sent hmap hstarted hcoro hidle hopen hworker =>
          exact ⟨hlt, haway, hstarted, hcoro, hidle, hopen, hworker⟩
        | yielding q slots us rest hwait hmem' => exact absurd hmem' (haway q)
        | awaiting g hstarted hawaits =>
          obtain ⟨slots, i, rest, hframe, _⟩ := awaited_eq_some hawaits
          exact absurd (hdone.tidy.waiting t slots i rest hframe).2 hmap
        | ended v hmem' => exact absurd hmem' (haway _)
        | done hcoro hunmapped => exact absurd hunmapped hmap
      split
      · exact hdone
      · exact hdone
      next hmap =>
        obtain ⟨hlt, haway, hstarted, hcoro, hidle, hopen, hworker⟩ :=
          hsent (by rw [hmap]; simp)
        have hrest := hdone.rest (t := t)
        rw [frameSlots_of_none hcoro] at hrest
        have haround : Around { s₁ with sendMap := Function.update s₁.sendMap t none } t none :=
          ⟨hrest.setMap hlt haway (unawaiting_of_none hcoro), ⟨hlt, haway, by simp⟩⟩
        cases hfound : L.staticContainer (L.node w) (s₁.task t).header.address with
        | none => exact absurd hfound hstatic₁
        | some c =>
          dsimp only
          refine orderly_endTask (haround.setCtx rfl) ?_ ?_ ⟨?_, ?_, ?_⟩
          · simpa using hcoro
          · simpa using hidle
          · simpa using hopen
          · simpa [Bound] using hworker
          · simp
      next replicas hmap =>
        obtain ⟨hlt, haway, hstarted, hcoro, hidle, hopen, hworker⟩ :=
          hsent (by rw [hmap]; simp)
        have hrest := hdone.rest (t := t)
        rw [frameSlots_of_none hcoro] at hrest
        refine (hrest.setMap hlt haway (unawaiting_of_none hcoro)).settle
          (frameSlots_of_none hcoro) ?_ (by simp [hcoro])
        exact .sent (by simp) hstarted hcoro hidle hopen hworker

/-! ### Runs -/

theorem orderly_init (container : NodeId → Address → Option Container) :
    Orderly (State.init container) := by
  refine ⟨tidy_init container, ?_, ⟨?_, ?_, ?_, ?_⟩, ?_⟩ <;>
    simp [State.init, Task.new, frameSlots]

/-- **One step** of a worker, the environment being regular, keeps every task in order. -/
theorem orderly_step {a : Act} (h : Orderly s) (hregular : Regular L a s) :
    Orderly (step L a s) := by
  cases a with
  | accept w header body =>
    exact orderly_new h hregular rfl rfl rfl rfl rfl rfl
  | newTask w route => exact orderly_processNewTask h hregular
  | event w => exact orderly_processEvent h hregular
  | periodic w i due route => exact orderly_processPeriodic h hregular
  | blocked w i => exact orderly_processBlocked h
  | retry w route => exact orderly_processRetry h
  | sendIn n replicas arrived => exact orderly_sendIn h
  | recvOut n w => exact orderly_recvOut h hregular
  | plug _ _ | move _ _ _ =>
    refine ⟨⟨h.tidy.once, h.tidy.nodup, h.tidy.existing, h.tidy.mapped, h.tidy.waiting,
      h.tidy.slots, h.tidy.honest⟩, ?_, h.kin.lasting rfl fun _ _ => lasting_rfl rfl, h.joined⟩
    intro t ht
    exact (h.situated t ht).untouched ⟨rfl, fun _ => Iff.rfl, rfl⟩ fun _ _ hc => ⟨hc, rfl⟩

theorem orderly_run {acts : List Act} {container : NodeId → Address → Option Container}
    (hrun : Runs L (Regular L) acts (State.init container) s) : Orderly s := by
  refine hrun.invariant (I := Orderly) ?_ (orderly_init container)
  intro a _ s s' h hstep
  rw [hstep.2]
  exact orderly_step h hstep.1

end

/-! ### The wait set -/

/-- The event of a subtask is still to come: it is on its way, or the subtask is still at
work, here or on another node. -/
def Coming (s : State) (f : TaskId) : Prop :=
  (∃ q, f ∈ s.queue q) ∨ (s.task f).ctx.coroHandle ≠ none ∨ s.sendMap f ≠ none

/-- The coroutine of the task has returned. -/
def Finished (s : State) (t : TaskId) : Prop :=
  (s.task t).started = true ∧ (s.task t).ctx.coroHandle = none

/-- Where tasks wait. -/
structure WaitSet (s : State) : Prop where
  /-- A suspended task has one entry in one queue, or waits for one future of its own. -/
  exactlyOne : ∀ t, (s.task t).ctx.coroHandle ≠ none →
    (awaited s t = none ∧ ∃ q, q.isWait = true ∧ (s.queue q).count t = 1 ∧
      ∀ q', q' ≠ q → t ∉ s.queue q') ∨
    (Away s t ∧ ∃ f, awaited s t = some f ∧ (s.task f).complete = false ∧
      (s.task f).parent = some t ∧ Coming s f)
  /-- No queue of work has a task that has returned. -/
  queues : ∀ q t, q.isRun = true → t ∈ s.queue q → ¬Finished s t
  /-- No event is about a subtask of a task that has returned. -/
  events : ∀ w f p, f ∈ s.queue (.events w) → (s.task f).parent = some p →
    (s.task p).ctx.coroHandle ≠ none

theorem Orderly.waitSet {s : State} (h : Orderly s) : WaitSet s := by
  refine ⟨?_, ?_, ?_⟩
  · intro t hsome
    obtain ⟨frame, hframe⟩ := Option.ne_none_iff_exists'.mp hsome
    have hborn := (h.tidy.slots t frame hframe).1
    cases h.situated t hborn with
    | fresh q hq hmem hstarted hcoro => exact absurd hcoro hsome
    | sent hmap hstarted hcoro => exact absurd hcoro hsome
    | ended w hmem hcoro => exact absurd hcoro hsome
    | done hcoro => exact absurd hcoro hsome
    | yielding q slots us rest hq hmem hstarted hcoro =>
      left
      refine ⟨by rw [awaited, hcoro], q, hq, ?_, ?_⟩
      · exact List.count_eq_one_of_mem (h.tidy.nodup q) hmem
      · intro q' hne hmem'
        exact hne (h.tidy.once t q' q hmem' hmem)
    | awaiting f hstarted hawaits hcomplete hfire =>
      right
      obtain ⟨slots, i, rest, hframe', hslot⟩ := awaited_eq_some hawaits
      have hslots : frameSlots s t = some slots := frameSlots_of_some hframe'
      obtain ⟨hf, hparent⟩ := h.kin.owned t slots i f hslots hslot
      refine ⟨(h.tidy.waiting t slots i rest hframe').1, f, hawaits, hcomplete, hparent, ?_⟩
      cases h.situated f hf with
      | fresh q hq hmem => exact Or.inl ⟨q, hmem⟩
      | sent hmap => exact Or.inr (Or.inr hmap)
      | yielding q slots us rest hq hmem => exact Or.inl ⟨q, hmem⟩
      | awaiting g hstarted' hawaits' =>
        obtain ⟨slots', i', rest', hframe'', _⟩ := awaited_eq_some hawaits'
        exact Or.inr (Or.inl (by rw [hframe'']; simp))
      | ended w hmem => exact Or.inl ⟨_, hmem⟩
      | done hcoro hunmapped hqueue hdone =>
        rcases hdone (by rw [hparent]; simp) with hc | hc
        · rw [hc] at hcomplete
          simp at hcomplete
        · rw [hc] at hfire
          simp at hfire
  · intro q t hq hmem hfinished
    cases h.queued hq hmem with
    | fresh hstarted =>
      rw [Finished, hstarted] at hfinished
      exact absurd hfinished.1 (by simp)
    | yielding slots us rest hwait hstarted hcoro =>
      rw [Finished, hcoro] at hfinished
      exact absurd hfinished.2 (by simp)
  · intro w f p hmem hp
    have hborn := h.tidy.existing _ f hmem
    obtain ⟨-, hcomplete, hfire, -⟩ := h.ended_of_event hmem
    obtain ⟨slots, i, hslots, _⟩ := h.kin.kept f hborn p hp hfire hcomplete
    obtain ⟨frame, hframe, _⟩ := Option.map_eq_some_iff.mp hslots
    rw [hframe]
    simp

/--
**No task is forgotten, and none is resumed twice.**  In every state of a run whose steps
are regular, every suspended task waits in exactly one place, and nothing refers to a task
that has returned.
-/
theorem waitSet_of_regular {L : Layout} {container : NodeId → Address → Option Container}
    {acts : List Act} {s : State} (hrun : Runs L (Regular L) acts (State.init container) s) :
    WaitSet s :=
  (orderly_run hrun).waitSet

/-- The second subtask yields before it ends. -/
theorem waitSet_of_regular_yield :
    WaitSet (run oneWorker (startAll (twoSubtasks .coReturn (.yield 100 .coReturn)) ++
      [.event 0, .periodic 0 1 true (.here 0), .event 0]) (State.init fun _ _ => some 0)) :=
  waitSet_of_regular (runs_of_meets _ (by decide +kernel))

/-- Wait for a subtask by yielding until it is complete. -/
def pollOnce : Body :=
  .submit plain .coReturn (.yield 100 (.poll 0 (.coAwait 0 .coReturn) (.yield 100 .coReturn)))

/-- A task that polls its subtask is resumed by the event and returns, and its entry stays in
the periodic queue. -/
theorem polled_entry_stays :
    ¬∀ acts s, Runs oneWorker (fun _ _ => True) acts (State.init fun _ _ => some 0) s →
      WaitSet s := by
  intro h
  have hwait := h _ _ (runs_of_meets (C := fun _ _ => True)
    [.accept 0 plain pollOnce, .newTask 0 (.here 0), .newTask 0 (.here 0), .event 0]
    (by decide +kernel))
  refine hwait.queues (.periodic 0 1) 0 rfl (by decide +kernel) ⟨?_, ?_⟩ <;> decide +kernel

end Runtime
end IowarpCore
