/-
The books of the failure detector.

A node in state `kProbeFailed` should have an indirect probe pending, since nothing else will
ever take it out of that state; and `dead_nodes_` should list the dead nodes, each once.  Both
fail.  A direct probe that times out while no other node is alive leaves its target in
`kProbeFailed` with nobody asked.  And the outcome of a probe is written with `SetNodeState`,
which takes a node that was found dead in the meantime out of `kDead` and leaves it in the list.

`Clear` is that neither happens, and `bookkept_of_run` that nothing else goes wrong.  The three
loops of `HeartbeatProbe` have an induction rule each; an invariant is then a matter of one
round.
-/
import IowarpCore.Lib.Along
import IowarpCore.Cluster.Swim
import IowarpCore.Proofs.Membership

namespace IowarpCore
namespace Cluster
namespace Swim

variable {env : ProbeEnv} {now : Time} {s : Swim} {node n : Node}

/-! ### Induction over the loops -/

/-- Every round of the first loop starts with `C`. -/
def DirectRounds (env : ProbeEnv) (now : Time) (C : DirectProbe → Swim → Prop) :
    Nat → List DirectProbe → Swim → Prop
  | _, [], _ => True
  | k, probe :: probes, s =>
    C probe s ∧ DirectRounds env now C (k + 1) probes (s.checkDirectProbe env now k probe)

theorem checkDirectLoop_invariant {C : DirectProbe → Swim → Prop} {I : Swim → Prop}
    (hround : ∀ k probe s, C probe s → I s → I (s.checkDirectProbe env now k probe))
    (probes : List DirectProbe) : ∀ (k : Nat) (s : Swim), DirectRounds env now C k probes s →
    I s → I (checkDirectLoop env now k probes s) := by
  induction probes with
  | nil =>
    intro _ _ _ h
    exact h
  | cons probe probes ih =>
    intro k s hrounds h
    exact ih _ _ hrounds.2 (hround k probe s hrounds.1 h)

theorem directRounds_true (probes : List DirectProbe) : ∀ (k : Nat) (s : Swim),
    DirectRounds env now (fun _ _ => True) k probes s := by
  induction probes with
  | nil => exact fun _ _ => trivial
  | cons probe probes ih => exact fun k s => ⟨trivial, ih _ _⟩

/-- What the rounds of the third loop keep, and its await and the parts behind it turn into
something else. -/
theorem checkSuspicions_invariant {I J : Swim → Prop}
    (hround : ∀ i node host s, s.ipc.hostsCache[i]? = some (node, host) →
      suspicionOver now host = true → I s →
      I (((s.setDead (env.clock i) node).confirm env node).triggerRecovery env node).1)
    (hawait : ∀ s checking, I s → J { s with checking := checking })
    (hfinish : ∀ s, I s → J (s.finishProbe env)) (count : Nat) : ∀ (i : Nat) (s : Swim),
    I s → J (checkSuspicions env now count i s) := by
  induction count with
  | zero =>
    intro _ s h
    exact hfinish s h
  | succ count ih =>
    intro i s h
    unfold checkSuspicions
    split
    · exact ih _ _ h
    · rename_i node host hget
      split
      · rename_i hover
        have hnext := hround i node host s hget hover h
        dsimp only
        split
        · exact hawait _ _ hnext
        · exact ih _ _ hnext
      · exact ih _ _ h

/-- `I` does not look at the probes, and is kept by changes to the state of a node and to the
copy of the table. -/
structure Starting (I : Swim → Prop) : Prop where
  state : ∀ t node st s, st ≠ .dead → I s → I (s.setNodeState t node st)
  hosts : ∀ s, I s → I s.getAllHosts
  probes : ∀ s direct indirect next sent, I s →
    I { s with
      pendingDirectProbes := direct
      pendingIndirectProbes := indirect
      nextFuture := next
      sent := sent }

/-- How `I` becomes `J` in an invocation: the rounds of the third part keep `I` too. -/
structure Probing (env : ProbeEnv) (now : Time) (I J : Swim → Prop) : Prop extends Starting I where
  round : ∀ i node host s, s.ipc.hostsCache[i]? = some (node, host) →
    suspicionOver now host = true → I s →
    I (((s.setDead (env.clock i) node).confirm env node).triggerRecovery env node).1
  await : ∀ s checking, I s → J { s with checking := checking }
  finish : ∀ s, I s → J (s.finishProbe env)

section

variable {I J : Swim → Prop} {t : Time} {sentAt : Nat → Time}

theorem Starting.askHelpers (h : Starting I) {target : Node} (helpers : List Node) :
    ∀ s, I s → I (askHelpers sentAt target helpers s) := by
  induction helpers with
  | nil => exact fun _ hs => hs
  | cons helper helpers ih =>
    intro s hs
    exact ih _ (h.probes s s.pendingDirectProbes _ _ _ hs)

theorem Starting.checkDirectProbe (h : Starting I) (k : Nat) (probe : DirectProbe)
    (s : Swim) (hs : I s) : I (s.checkDirectProbe env t k probe) := by
  unfold Swim.checkDirectProbe
  split
  · exact h.state _ _ _ _ (by simp) hs
  · split
    · exact h.askHelpers _ _ (h.hosts _ (h.state _ _ _ _ (by simp) hs))
    · exact h.probes s _ s.pendingIndirectProbes s.nextFuture s.sent hs

theorem Starting.indirectProbeFailed (h : Starting I) {target : Node}
    {pending : List IndirectProbe} (s : Swim) (hs : I s) :
    I (s.indirectProbeFailed t target pending) := by
  unfold Swim.indirectProbeFailed
  dsimp only
  split
  · exact h.state _ _ _ _ (by simp) hs
  · exact hs

theorem Starting.checkIndirectLoop (h : Starting I) (after : List IndirectProbe) :
    ∀ (k : Nat) (before : List IndirectProbe) (s : Swim), I s →
    I (checkIndirectLoop env t k before after s) := by
  have hpending : ∀ (s : Swim) (pending : List IndirectProbe), I s →
      I { s with pendingIndirectProbes := pending } :=
    fun s pending hs => h.probes s s.pendingDirectProbes pending s.nextFuture s.sent hs
  induction after with
  | nil =>
    intro k before s hs
    exact hpending s before hs
  | cons probe after ih =>
    intro k before s hs
    unfold Swim.checkIndirectLoop
    split
    · exact hpending _ _ (h.state _ _ _ _ (by simp) hs)
    · exact ih _ _ _ (h.indirectProbeFailed s hs)
    · split
      · exact ih _ _ _ (h.indirectProbeFailed s hs)
      · exact ih _ _ _ hs

theorem Probing.checkSuspicions (h : Probing env now I J) (count i : Nat) (s : Swim) (hs : I s) :
    J (checkSuspicions env now count i s) :=
  checkSuspicions_invariant h.round h.await h.finish count i s hs

/-- The first two parts. -/
theorem Starting.checkProbes (h : Starting I) (hs : I s) :
    I ((s.checkDirectProbes env now).checkIndirectProbes env now).getAllHosts := by
  have hdirect : I (s.checkDirectProbes env now) :=
    checkDirectLoop_invariant (fun k probe s _ hs => h.checkDirectProbe k probe s hs) _ 0 _
      (directRounds_true _ _ _)
      (h.probes s [] s.pendingIndirectProbes s.nextFuture s.sent hs)
  exact h.hosts _ (h.checkIndirectLoop _ _ _ _ hdirect)

/-- A whole invocation, or its start. -/
theorem Probing.heartbeatProbe (h : Probing env now I J) (hs : I s) :
    J (s.heartbeatProbe env now) :=
  h.checkSuspicions _ _ _ (h.toStarting.checkProbes hs)

end

/-! ### The parts that leave the table alone -/

theorem triggerRecovery_writes (env : ProbeEnv) (s : Swim) (node : Node) :
    ((s.triggerRecovery env node).1.ipc = s.ipc ∨
        (s.triggerRecovery env node).1.ipc = s.ipc.getAllHosts) ∧
      (s.triggerRecovery env node).1.pendingIndirectProbes = s.pendingIndirectProbes ∧
      (s.triggerRecovery env node).1.pendingDirectProbes = s.pendingDirectProbes ∧
      (s.triggerRecovery env node).1.nextFuture = s.nextFuture ∧
      (s.triggerRecovery env node).1.sent = s.sent := by
  unfold triggerRecovery
  dsimp only
  split
  · exact ⟨Or.inl rfl, rfl, rfl, rfl, rfl⟩
  · split
    · exact ⟨Or.inl rfl, rfl, rfl, rfl, rfl⟩
    · split
      · exact ⟨Or.inl rfl, rfl, rfl, rfl, rfl⟩
      · exact ⟨Or.inr rfl, rfl, rfl, rfl, rfl⟩

theorem sendDirectProbe_writes (env : ProbeEnv) (s : Swim) :
    (s.sendDirectProbe env).ipc = s.ipc.getAllHosts ∧
      (s.sendDirectProbe env).pendingIndirectProbes = s.pendingIndirectProbes ∧
      (s.sendDirectProbe env).log = s.log ∧
      (s.sendDirectProbe env).recoveryInitiated = s.recoveryInitiated := by
  unfold sendDirectProbe
  dsimp only
  split
  · split
    · exact ⟨rfl, rfl, rfl, rfl⟩
    · exact ⟨rfl, rfl, rfl, rfl⟩
  · exact ⟨rfl, rfl, rfl, rfl⟩

/-! ### The books -/

/-- A node whose direct probe failed has an indirect one pending, and the dead nodes are
listed. -/
structure Bookkept (s : Swim) : Prop where
  probed : ∀ node, s.ipc.stateOf node = some .probeFailed →
    ∃ probe ∈ s.pendingIndirectProbes, probe.targetNodeId = node
  listed : s.ipc.Listed

/-- The invariant of a run. -/
structure Kept (s : Swim) : Prop where
  books : Bookkept s
  coherent : s.ipc.Coherent
  dense : IpcManager.Dense s.ipc.hostfileMap

/-- The table counts, not the copy of it or the fence. -/
theorem Bookkept.congr {s' : Swim} (h : Bookkept s)
    (hmap : s'.ipc.hostfileMap = s.ipc.hostfileMap) (hdead : s'.ipc.deadNodes = s.ipc.deadNodes)
    (hpending : s'.pendingIndirectProbes = s.pendingIndirectProbes) : Bookkept s' := by
  have hstate : ∀ node, s'.ipc.stateOf node = s.ipc.stateOf node := by
    intro node
    rw [IpcManager.stateOf, hmap]
    rfl
  constructor
  · intro node hnode
    rw [hpending]
    exact h.probed node (hstate node ▸ hnode)
  · intro node
    rw [hdead, hstate]
    exact h.listed node

theorem Kept.getAllHosts (h : Kept s) : Kept s.getAllHosts := by
  refine ⟨h.books.congr IpcManager.getAllHosts_hostfileMap IpcManager.getAllHosts_deadNodes rfl,
    IpcManager.getAllHosts_coherent h.coherent, ?_⟩
  show IpcManager.Dense s.ipc.getAllHosts.hostfileMap
  rw [IpcManager.getAllHosts_hostfileMap]
  exact h.dense

/-- Some other alive node could be asked about the target, or one has been. -/
def Helped (target : Node) (s : Swim) : Prop :=
  (∃ helper, helper ≠ s.ipc.nodeId ∧ helper ≠ target ∧ s.ipc.stateOf helper = some .alive) ∨
    ∃ probe ∈ s.pendingIndirectProbes, probe.targetNodeId = target

/-- A direct probe that is through, or has timed out, is not for a node that is dead by now;
and if it has timed out there is a helper. -/
structure ClearProbe (env : ProbeEnv) (now : Time) (probe : DirectProbe) (s : Swim) : Prop where
  notDead : (env.result probe.future).isSome = true ∨
    F32.lt kDirectProbeTimeoutSec (elapsed now probe.sentAt) = true →
      s.ipc.stateOf probe.targetNodeId ≠ some .dead
  helped : (env.result probe.future).isSome = false →
    F32.lt kDirectProbeTimeoutSec (elapsed now probe.sentAt) = true → Helped probe.targetNodeId s

/-- The same for all direct probes of an invocation, and for the indirect probe that brings the
first success. -/
structure ClearProbes (env : ProbeEnv) (now : Time) (s : Swim) : Prop where
  direct : DirectRounds env now (ClearProbe env now) 0 s.pendingDirectProbes
    { s with pendingDirectProbes := [] }
  indirect : ∀ probe, (s.checkDirectProbes env now).pendingIndirectProbes.find?
      (fun probe => env.result probe.future = some 0) = some probe →
    (s.checkDirectProbes env now).ipc.stateOf probe.targetNodeId ≠ some .dead

/-- What a step must be like to leave the books right.  There are not more nodes than ids. -/
def Clear (s : Swim) : Op → Prop
  | .heartbeatProbe env now => s.checking = none → ClearProbes env now s
  | .addNode _ _ => s.ipc.hostfileMap.entries.length < 2 ^ 64
  | .resumeProbe _ | .setDead _ _ | .revive _ _ | .announceShutdown _ _ | .getAllHosts => True

/-! ### One round of each loop -/

/-- The state of a node that is not dead becomes another one. -/
theorem Kept.setNodeState {st : NodeState} (h : Kept s)
    (hnode : s.ipc.stateOf node ≠ some .dead) (hst : st ≠ .dead)
    (hprobed : st = .probeFailed → s.ipc.stateOf node ≠ none →
      ∃ probe ∈ s.pendingIndirectProbes, probe.targetNodeId = node) :
    Kept (s.setNodeState now node st) := by
  refine ⟨⟨?_, IpcManager.setNodeState_listed h.books.listed hnode hst⟩,
    IpcManager.setNodeState_coherent h.coherent, IpcManager.setNodeState_dense h.dense⟩
  intro n hn
  rw [Swim.setNodeState, IpcManager.stateOf_setNodeState] at hn
  by_cases heq : n = node
  · rw [if_pos heq] at hn
    obtain ⟨st', hst', hfailed⟩ := Option.map_eq_some_iff.mp hn
    rw [heq]
    exact hprobed hfailed (by rw [hst']; simp)
  · rw [if_neg heq] at hn
    exact h.books.probed n hn

theorem askHelpers_writes {sentAt : Nat → Time} (target : Node) (helpers : List Node) : ∀ s : Swim,
    (askHelpers sentAt target helpers s).ipc = s.ipc ∧
      (askHelpers sentAt target helpers s).log = s.log ∧
      ∀ probe ∈ s.pendingIndirectProbes,
        probe ∈ (askHelpers sentAt target helpers s).pendingIndirectProbes := by
  induction helpers with
  | nil => exact fun s => ⟨rfl, rfl, fun _ h => h⟩
  | cons helper helpers ih =>
    intro s
    obtain ⟨hipc, hlog, hold⟩ := ih { s with
      pendingIndirectProbes := s.pendingIndirectProbes ++ [⟨s.nextFuture, target, helper, sentAt s.nextFuture⟩]
      nextFuture := s.nextFuture + 1
      sent := s.sent ++ [(s.nextFuture, .probeRequest helper target)] }
    exact ⟨hipc, hlog, fun probe hmem => hold probe (List.mem_append_left _ hmem)⟩

/-- A helper that is asked leaves a probe. -/
theorem askHelpers_probes {sentAt : Nat → Time} {target : Node} {helpers : List Node} (h : helpers ≠ []) (s : Swim) :
    ∃ probe ∈ (askHelpers sentAt target helpers s).pendingIndirectProbes,
      probe.targetNodeId = target := by
  cases helpers with
  | nil => exact absurd rfl h
  | cons helper helpers =>
    refine ⟨⟨s.nextFuture, target, helper, sentAt s.nextFuture⟩, ?_, rfl⟩
    exact (askHelpers_writes target helpers _).2.2 _
      (List.mem_append_right _ (List.mem_singleton_self _))

/-- An alive node other than this one and the target is a candidate. -/
theorem mem_candidates (h : s.ipc.Coherent) {helper target : Node} (hself : helper ≠ s.ipc.nodeId)
    (htarget : helper ≠ target) (halive : s.ipc.stateOf helper = some .alive) :
    helper ∈ s.getAllHosts.candidates target := by
  obtain ⟨host, hfind, hstate⟩ := IpcManager.stateOf_eq_some_iff.mp halive
  have hcache : s.getAllHosts.ipc.hostsCache = s.ipc.hostfileMap.entries :=
    IpcManager.getAllHosts_hostsCache h
  have hid : s.getAllHosts.ipc.nodeId = s.ipc.nodeId := by
    show s.ipc.getAllHosts.nodeId = _
    unfold IpcManager.getAllHosts
    split <;> rfl
  unfold candidates
  rw [hcache, hid]
  refine List.mem_map.mpr ⟨(helper, host), List.mem_filter.mpr ⟨?_, ?_⟩, rfl⟩
  · exact AMap.find?_eq_some_iff.mp hfind
  · simp [hself, htarget, hstate]

/-- A direct probe that timed out, with someone to ask. -/
theorem Kept.startIndirectProbes (h : Kept s) (hnode : s.ipc.stateOf node ≠ some .dead)
    (hhelped : Helped node s) : Kept (s.startIndirectProbes env now node) := by
  have hcoherent : (s.setNodeState now node .probeFailed).ipc.Coherent :=
    IpcManager.setNodeState_coherent h.coherent
  unfold Swim.startIndirectProbes
  dsimp only
  generalize hhelpers : (env.shuffle (candidates (s.setNodeState now node .probeFailed).getAllHosts
    node)).take kIndirectProbeHelpers = helpers
  obtain ⟨hipc, _, hold⟩ := @askHelpers_writes env.sentAt node helpers
    (s.setNodeState now node .probeFailed).getAllHosts
  -- one probe of the target is pending, an old one or a new one
  have hprobe : ∃ probe ∈ (askHelpers env.sentAt node helpers
      (s.setNodeState now node .probeFailed).getAllHosts).pendingIndirectProbes,
      probe.targetNodeId = node := by
    rcases hhelped with ⟨helper, hself, htarget, halive⟩ | ⟨probe, hmem, htarget⟩
    · apply askHelpers_probes
      have hcandidate : helper ∈ (s.setNodeState now node .probeFailed).getAllHosts.candidates node := by
        refine mem_candidates hcoherent ?_ htarget ?_
        · show helper ≠ (s.ipc.setNodeState now node .probeFailed).nodeId
          unfold IpcManager.setNodeState
          split <;> exact hself
        · rw [Swim.setNodeState, IpcManager.stateOf_setNodeState, if_neg htarget]
          exact halive
      have hmem := (env.shuffle_perm _).mem_iff.mpr hcandidate
      intro hnil
      rw [hnil, List.take_eq_nil_iff] at hhelpers
      rcases hhelpers with hzero | hnone
      · simp [kIndirectProbeHelpers] at hzero
      · rw [hnone] at hmem
        simp at hmem
    · exact ⟨probe, hold probe hmem, htarget⟩
  have hmap := @IpcManager.getAllHosts_hostfileMap (s.ipc.setNodeState now node .probeFailed)
  have hstate : ∀ n, (askHelpers env.sentAt node helpers
      (s.setNodeState now node .probeFailed).getAllHosts).ipc.stateOf n =
        (s.ipc.setNodeState now node .probeFailed).stateOf n := by
    intro n
    rw [hipc]
    show ((s.ipc.setNodeState now node .probeFailed).getAllHosts).stateOf n = _
    rw [IpcManager.stateOf, hmap]
    rfl
  refine ⟨⟨?_, ?_⟩, ?_, ?_⟩
  · intro n hn
    rw [hstate, IpcManager.stateOf_setNodeState] at hn
    by_cases heq : n = node
    · rw [heq]
      exact hprobe
    · rw [if_neg heq] at hn
      obtain ⟨probe, hmem, htarget⟩ := h.books.probed n hn
      exact ⟨probe, hold probe hmem, htarget⟩
  · intro n
    rw [hstate, hipc]
    show ((s.ipc.setNodeState now node .probeFailed).getAllHosts.deadNodes.filter _).length = _
    rw [IpcManager.getAllHosts_deadNodes]
    exact IpcManager.setNodeState_listed h.books.listed hnode (by simp) n
  · rw [hipc]
    exact IpcManager.getAllHosts_coherent hcoherent
  · rw [hipc]
    show IpcManager.Dense (s.ipc.setNodeState now node .probeFailed).getAllHosts.hostfileMap
    rw [hmap]
    exact IpcManager.setNodeState_dense h.dense

theorem Kept.checkDirectProbe (k : Nat) (probe : DirectProbe) (h : Kept s)
    (hclear : ClearProbe env now probe s) : Kept (s.checkDirectProbe env now k probe) := by
  unfold Swim.checkDirectProbe
  split
  · rename_i hdone
    exact h.setNodeState (hclear.notDead (Or.inl hdone)) (by simp) (by simp)
  · rename_i hdone
    split
    · rename_i hlate
      exact h.startIndirectProbes (hclear.notDead (Or.inr hlate))
        (hclear.helped (by simpa using hdone) hlate)
    · exact ⟨⟨h.books.probed, h.books.listed⟩, h.coherent, h.dense⟩

theorem Kept.checkDirectProbes (h : Kept s) (hclear : ClearProbes env now s) :
    Kept (s.checkDirectProbes env now) :=
  checkDirectLoop_invariant (fun k probe _ hc hk => hk.checkDirectProbe k probe hc) _ 0 _
    hclear.direct ⟨⟨h.books.probed, h.books.listed⟩, h.coherent, h.dense⟩

/-- One indirect probe less.  If it was the last of its target, the target is suspected. -/
theorem Kept.indirectProbeFailed {probe : IndirectProbe} {before after : List IndirectProbe}
    (h : Kept { s with pendingIndirectProbes := before ++ probe :: after }) :
    Kept { s.indirectProbeFailed now probe.targetNodeId (before ++ after) with
      pendingIndirectProbes := before ++ after } := by
  -- the probes of the other targets are still there
  have hother : ∀ n, n ≠ probe.targetNodeId → s.ipc.stateOf n = some .probeFailed →
      ∃ probe ∈ before ++ after, probe.targetNodeId = n := by
    intro n hne hn
    obtain ⟨probe', hmem, htarget⟩ := h.books.probed n hn
    refine ⟨probe', ?_, htarget⟩
    have hne' : probe' ≠ probe := by
      intro heq
      exact hne (htarget ▸ heq ▸ rfl)
    rcases List.mem_append.mp hmem with hmem | hmem
    · exact List.mem_append_left _ hmem
    · exact List.mem_append_right _ ((List.mem_cons.mp hmem).resolve_left hne')
  unfold Swim.indirectProbeFailed
  dsimp only
  split
  · rename_i hlast
    have hstate : s.ipc.stateOf probe.targetNodeId ≠ some .dead := by
      intro hdead
      obtain ⟨host, hfind, hhost⟩ := IpcManager.stateOf_eq_some_iff.mp hdead
      have hfailed := hlast.2
      rw [IpcManager.getNodeState, hfind] at hfailed
      dsimp only at hfailed
      rw [hhost] at hfailed
      simp at hfailed
    refine ⟨⟨?_, IpcManager.setNodeState_listed h.books.listed hstate (by simp)⟩,
      IpcManager.setNodeState_coherent h.coherent, IpcManager.setNodeState_dense h.dense⟩
    intro n hn
    rw [Swim.setNodeState, IpcManager.stateOf_setNodeState] at hn
    by_cases heq : n = probe.targetNodeId
    · rw [if_pos heq] at hn
      obtain ⟨_, _, hfalse⟩ := Option.map_eq_some_iff.mp hn
      simp at hfalse
    · rw [if_neg heq] at hn
      exact hother n heq hn
  · rename_i hmore
    refine ⟨⟨?_, h.books.listed⟩, h.coherent, h.dense⟩
    intro n hn
    by_cases heq : n = probe.targetNodeId
    · subst heq
      obtain ⟨host, hfind, hhost⟩ := IpcManager.stateOf_eq_some_iff.mp hn
      have hfailed : s.ipc.getNodeState probe.targetNodeId = .probeFailed := by
        rw [IpcManager.getNodeState, hfind]
        exact hhost
      rw [hfailed] at hmore
      simp only [Bool.not_eq_true', and_true, Bool.not_eq_false] at hmore
      obtain ⟨probe', hmem, htarget⟩ := List.any_eq_true.mp hmore
      exact ⟨probe', hmem, by simpa using htarget⟩
    · exact hother n heq hn

/-- Being suspected is not being dead. -/
theorem indirectProbeFailed_dead {target : Node} {pending : List IndirectProbe}
    (h : s.ipc.stateOf n ≠ some .dead) :
    (s.indirectProbeFailed now target pending).ipc.stateOf n ≠ some .dead := by
  unfold Swim.indirectProbeFailed
  dsimp only
  split
  · rw [Swim.setNodeState, IpcManager.stateOf_setNodeState]
    split
    · cases s.ipc.stateOf target <;> simp
    · exact h
  · exact h

theorem Kept.checkIndirectLoop (after : List IndirectProbe) :
    ∀ (k : Nat) (before : List IndirectProbe) (s : Swim),
    Kept { s with pendingIndirectProbes := before ++ after } →
    (∀ probe, after.find? (fun probe => env.result probe.future = some 0) = some probe →
      s.ipc.stateOf probe.targetNodeId ≠ some .dead) →
    Kept (checkIndirectLoop env now k before after s) := by
  induction after with
  | nil =>
    intro k before s h _
    rw [List.append_nil] at h
    exact h
  | cons probe after ih =>
    intro k before s h hclear
    have hlater : env.result probe.future ≠ some 0 → ∀ probe', after.find?
        (fun probe => env.result probe.future = some 0) = some probe' →
        s.ipc.stateOf probe'.targetNodeId ≠ some .dead := by
      intro hnot probe' hfind
      refine hclear probe' ?_
      rw [List.find?_cons_of_neg (by simpa using hnot)]
      exact hfind
    unfold Swim.checkIndirectLoop
    split
    · rename_i hzero
      have hnode := hclear probe (by simp [hzero])
      have hset : Kept (Swim.setNodeState
          { s with pendingIndirectProbes := before ++ probe :: after } (env.clock k)
          probe.targetNodeId .alive) := h.setNodeState hnode (by simp) (by simp)
      refine ⟨⟨?_, hset.books.listed⟩, hset.coherent, hset.dense⟩
      intro n hn
      obtain ⟨probe', hmem, htarget⟩ := hset.books.probed n hn
      refine ⟨probe', List.mem_filter.mpr ⟨hmem, ?_⟩, htarget⟩
      -- the target itself is alive now
      have hne : n ≠ probe.targetNodeId := by
        intro heq
        rw [Swim.setNodeState, IpcManager.stateOf_setNodeState, if_pos heq] at hn
        obtain ⟨_, _, hfalse⟩ := Option.map_eq_some_iff.mp hn
        simp at hfalse
      simpa [htarget] using hne
    · rename_i result hsome hnonzero
      refine ih _ _ _ h.indirectProbeFailed fun probe' hfind => indirectProbeFailed_dead ?_
      exact hlater (by rw [hnonzero]; simpa using hsome) probe' hfind
    · rename_i hnone
      have hnot : env.result probe.future ≠ some 0 := by simp [hnone]
      split
      · refine ih _ _ _ h.indirectProbeFailed fun probe' hfind => indirectProbeFailed_dead ?_
        exact hlater hnot probe' hfind
      · refine ih _ _ _ ?_ (hlater hnot)
        rw [List.append_assoc]
        exact h

theorem Kept.setDead (h : Kept s) : Kept (s.setDead now node) := by
  refine ⟨⟨?_, IpcManager.setDead_listed h.books.listed⟩,
    IpcManager.setDead_coherent h.coherent, IpcManager.setDead_dense h.dense⟩
  intro n hn
  rw [Swim.setDead, IpcManager.stateOf_setDead] at hn
  by_cases heq : n = node
  · rw [if_pos heq] at hn
    obtain ⟨_, _, hfalse⟩ := Option.map_eq_some_iff.mp hn
    simp at hfalse
  · rw [if_neg heq] at hn
    exact h.books.probed n hn

theorem Kept.confirm (h : Kept s) : Kept (s.confirm env node) :=
  ⟨⟨h.books.probed, h.books.listed⟩, h.coherent, h.dense⟩

theorem Kept.triggerRecovery (h : Kept s) : Kept (s.triggerRecovery env node).1 := by
  obtain ⟨hipc, hpending, _⟩ := triggerRecovery_writes env s node
  have hhosts := h.getAllHosts
  rcases hipc with hipc | hipc
  · refine ⟨h.books.congr ?_ ?_ hpending, ?_, ?_⟩
    · rw [hipc]
    · rw [hipc]
    · rw [hipc]
      exact h.coherent
    · rw [hipc]
      exact h.dense
  · refine ⟨hhosts.books.congr ?_ ?_ hpending, ?_, ?_⟩
    · rw [hipc]
      rfl
    · rw [hipc]
      rfl
    · rw [hipc]
      exact hhosts.coherent
    · rw [hipc]
      exact hhosts.dense

theorem Kept.checkFence (h : Kept s) : Kept s.checkFence := by
  have hhosts := h.getAllHosts
  exact ⟨⟨hhosts.books.probed, hhosts.books.listed⟩, hhosts.coherent, hhosts.dense⟩

theorem Kept.finishProbe (h : Kept s) : Kept (s.finishProbe env) := by
  obtain ⟨hipc, hpending, _⟩ := sendDirectProbe_writes env s.checkFence
  have hhosts := h.checkFence.getAllHosts
  have hfence : Kept (s.checkFence.sendDirectProbe env) := by
    refine ⟨hhosts.books.congr ?_ ?_ hpending, ?_, ?_⟩
    · rw [hipc]
      rfl
    · rw [hipc]
      rfl
    · rw [hipc]
      exact hhosts.coherent
    · rw [hipc]
      exact hhosts.dense
  exact ⟨⟨hfence.books.probed, hfence.books.listed⟩, hfence.coherent, hfence.dense⟩

theorem Kept.checkSuspicions (h : Kept s) (count i : Nat) :
    Kept (checkSuspicions env now count i s) :=
  checkSuspicions_invariant (fun _ _ _ _ _ _ h => h.setDead.confirm.triggerRecovery)
    (fun _ _ h => ⟨⟨h.books.probed, h.books.listed⟩, h.coherent, h.dense⟩)
    (fun _ h => h.finishProbe) count i s h

theorem Kept.revive (h : Kept s) : Kept { s with ipc := s.ipc.setAlive now node } := by
  refine ⟨⟨?_, IpcManager.setAlive_listed h.books.listed⟩,
    IpcManager.setAlive_coherent h.coherent, IpcManager.setAlive_dense h.dense⟩
  intro n hn
  rw [IpcManager.stateOf_setAlive] at hn
  by_cases heq : n = node
  · rw [if_pos heq] at hn
    obtain ⟨_, _, hfalse⟩ := Option.map_eq_some_iff.mp hn
    simp at hfalse
  · rw [if_neg heq] at hn
    exact h.books.probed n hn

theorem Kept.addNode (h : Kept s) (hlen : s.ipc.hostfileMap.entries.length < 2 ^ 64)
    (ipAddress : String) : Kept { s with ipc := s.ipc.addNode now ipAddress } := by
  have hlisted := @IpcManager.addNode_listed s.ipc now h.books.listed h.dense hlen ipAddress
  rcases @IpcManager.addNode_cases s.ipc now ipAddress with ⟨node, hadd⟩ | hadd
  · rw [hadd]
    exact h.revive
  · rw [hadd] at hlisted ⊢
    refine ⟨⟨?_, hlisted⟩, ?_, h.dense.append hlen _⟩
    · intro n hn
      rw [IpcManager.stateOf, AMap.find?_insertOrAssign] at hn
      split at hn
      · simp at hn
      · exact h.books.probed n hn
    · intro hvalid
      simp at hvalid

theorem Kept.apply (op : Op) (h : Kept s) (hclear : Clear s op) : Kept (s.apply op) := by
  cases op with
  | heartbeatProbe env now =>
    unfold Swim.apply
    dsimp only
    split
    · rename_i hidle
      have hclear := hclear (Option.isNone_iff_eq_none.mp hidle)
      refine Kept.checkSuspicions (Kept.getAllHosts ?_) _ _
      exact Kept.checkIndirectLoop _ 0 [] _ (h.checkDirectProbes hclear) hclear.indirect
    · exact h
  | resumeProbe env =>
    unfold Swim.apply resumeProbe
    dsimp only
    split
    · exact h
    · exact h.checkSuspicions _ _
  | setDead now node => exact h.setDead
  | revive now node =>
    unfold Swim.apply
    dsimp only
    split
    · exact h.revive
    · exact h
  | addNode now ipAddress => exact h.addNode hclear ipAddress
  | announceShutdown env node =>
    unfold Swim.apply Swim.announceShutdown
    dsimp only
    split
    · exact h.setDead.confirm.triggerRecovery
    · exact h.setDead.confirm
  | getAllHosts => exact h.getAllHosts

/-! ### Runs -/

/-- A node that has read its hostfile. -/
def booted (self : Node) (now : Time) (lines : List String) : Swim :=
  start (IpcManager.load self (IpcManager.loadHostfile now 0 lines AMap.empty))

/-- A node whose state in the table of a hostfile is known is alive. -/
theorem loadHostfile_alive (lines : List String) : ∀ (offset : Nat) (hosts : AMap Node Host),
    (∀ node host, hosts.find? node = some host → host.state = .alive) →
    ∀ node host, (IpcManager.loadHostfile now offset lines hosts).find? node = some host →
      host.state = .alive := by
  induction lines with
  | nil =>
    intro _ _ h
    exact h
  | cons ip lines ih =>
    intro offset hosts h
    refine ih _ _ ?_
    intro node host hfind
    rw [AMap.find?_insertOrAssign] at hfind
    split at hfind
    · simp only [Option.some.injEq] at hfind
      rw [← hfind]
    · exact h node host hfind

theorem booted_alive {self : Node} {lines : List String} {st : NodeState}
    (h : (booted self now lines).ipc.stateOf node = some st) : st = .alive := by
  obtain ⟨host, hfind, hstate⟩ := IpcManager.stateOf_eq_some_iff.mp h
  rw [← hstate]
  refine loadHostfile_alive lines 0 AMap.empty ?_ node host hfind
  intro node host hnone
  simp [AMap.find?, AMap.empty] at hnone

theorem kept_booted (self : Node) (lines : List String) : Kept (booted self now lines) := by
  refine ⟨⟨?_, ?_⟩, ?_, ?_⟩
  · intro node hnode
    simpa using booted_alive hnode
  · intro node
    have hnot : (booted self now lines).ipc.stateOf node ≠ some .dead := by
      intro hdead
      simpa using booted_alive hdead
    rw [if_neg hnot]
    rfl
  · intro hvalid
    simp [booted, start, IpcManager.load] at hvalid
  · refine IpcManager.dense_loadHostfile lines 0 AMap.empty ?_ (by simp [AMap.empty])
    intro node
    simp [AMap.empty, AMap.contains, AMap.find?]

/-- **In every run whose steps are clear the books are right.**  Every node whose direct probe
failed has an indirect probe pending, and the list of dead nodes has one entry for each dead
node and none for any other. -/
theorem bookkept_of_run {self : Node} {lines : List String} {ops : List Op}
    (hrun : Along (fun op s s' => Clear s op ∧ s' = s.apply op) ops (booted self now lines) s) :
    Bookkept s := by
  refine (hrun.invariant (I := Kept) ?_ (kept_booted self lines)).books
  intro op _ s s' h hstep
  obtain ⟨hclear, hs'⟩ := hstep
  rw [hs']
  exact h.apply op hclear

/-- An invocation at a time when no probe is through, or when every probe is. -/
def allProbes (now : Time) (result : Option Int) : ProbeEnv where
  clock _ := now
  sentAt _ := now
  result _ := result
  shuffle l := l
  shuffle_perm _ := .refl _
  pools := AMap.empty
  scheduleRecover _ := 0

/-- A `HeartbeatProbe` at a time in seconds. -/
def probeAt (seconds : Nat) (result : Option Int) : Op :=
  .heartbeatProbe (allProbes (seconds * 1000000000) result) (seconds * 1000000000)

/-- A pool with a container on each of three nodes. -/
def threeContainers : Pools.Table :=
  AMap.empty.insertOrAssign ⟨1, 1⟩
    { numContainers := 3
      containers := AMap.empty
      addressMap := Pools.addressesFrom 3
      localContainer := none
      poolName := [112]
      chimodName := [109]
      chimodParams := []
      staticContainer := none }

/-- `HeartbeatProbe` at a time in seconds, when these probes have been answered. -/
def probeWhen (seconds : Nat) (answered : List Nat) : Op :=
  .heartbeatProbe
    { clock := fun _ => seconds * 1000000000
      sentAt := fun _ => seconds * 1000000000
      result := fun future => if future ∈ answered then some 0 else none
      shuffle := fun l => l
      shuffle_perm := fun _ => .refl _
      pools := threeContainers
      scheduleRecover := fun _ => 0xffffffff } (seconds * 1000000000)

/-- Node 0 of a cluster of so many, after these steps. -/
def ranOf (lines : List String) (ops : List Op) : Swim := ops.foldl apply (booted 0 0 lines)

/-- A direct probe of node 1 times out, with node 2 as helper. -/
theorem bookkept_of_run_helped :
    (ranOf ["a", "b", "c"] [probeAt 0 none, probeAt 6 none]).ipc.stateOf 1 = some .probeFailed ∧
      Bookkept (ranOf ["a", "b", "c"] [probeAt 0 none, probeAt 6 none]) := by
  refine ⟨by decide +kernel, @bookkept_of_run 0 _ 0 ["a", "b", "c"]
    [probeAt 0 none, probeAt 6 none] ⟨_, ⟨?_, rfl⟩, _, ⟨?_, rfl⟩, rfl⟩⟩
  · intro _
    refine ⟨trivial, fun probe hfind => ?_⟩
    simp [checkDirectProbes, checkDirectLoop, booted, start] at hfind
  · intro _
    have hpending : (ranOf ["a", "b", "c"] [probeAt 0 none]).pendingDirectProbes = [⟨0, 1, 0⟩] := by
      decide +kernel
    have halive : (ranOf ["a", "b", "c"] [probeAt 0 none]).ipc.stateOf 1 = some .alive := by
      decide +kernel
    have hhelper : (ranOf ["a", "b", "c"] [probeAt 0 none]).ipc.stateOf 2 = some .alive := by
      decide +kernel
    constructor
    · show DirectRounds _ _ _ 0 (ranOf ["a", "b", "c"] [probeAt 0 none]).pendingDirectProbes _
      rw [hpending]
      refine ⟨⟨?_, ?_⟩, trivial⟩
      · intro _ hdead
        exact absurd (halive.symm.trans hdead) (by simp)
      · intro _ _
        exact Or.inl ⟨2, by decide +kernel, by decide, hhelper⟩
    · intro probe hfind
      have hzero := List.find?_some hfind
      simp [allProbes] at hzero

/-- With two nodes, a direct probe that times out leaves nobody to ask; and a probe that
is answered after its node was found dead leaves the node on the list. -/
theorem books_wrong :
    ¬(∀ lines ops node, (ranOf lines ops).ipc.stateOf node = some .probeFailed →
        ∃ probe ∈ (ranOf lines ops).pendingIndirectProbes, probe.targetNodeId = node) ∧
      ¬∀ lines ops, (ranOf lines ops).ipc.Listed := by
  constructor
  · intro h
    obtain ⟨probe, hmem, _⟩ := h ["a", "b"] [probeAt 0 none, probeAt 6 none] 1 (by decide +kernel)
    have hnone : (ranOf ["a", "b"] [probeAt 0 none, probeAt 6 none]).pendingIndirectProbes = [] := by
      decide +kernel
    rw [hnone] at hmem
    simp at hmem
  · intro h
    have hlisted := h ["a", "b"] [probeAt 0 none, .setDead 0 1, probeAt 1 (some 0)] 1
    exact absurd hlisted (by decide +kernel)

end Swim
end Cluster
end IowarpCore
