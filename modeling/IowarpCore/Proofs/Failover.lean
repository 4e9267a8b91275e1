/-
Which deaths are recovered.

A node that is held to be dead should have been the subject of a recovery plan since it died
last, one that names every container the address maps had on it.  Only a suspicion timeout and
the announcement of a shutdown confirm a death; what a failed send notices goes no further.  And
`TriggerRecovery` makes a plan at most once for each node in the life of the process: it
remembers the node for good, and remembers it before it looks at the fence.

The log of a node is a sequence of deaths, confirmations and plans of a simple form (`Logged`).
From that form alone follows when a node has been recovered since its last death: if the first
confirmation of its death on this node as the leader found it unfenced, with a node to recover
on, and the node has not died again (`recovered_iff`).
-/
import IowarpCore.Proofs.RecoverPlan
import IowarpCore.Proofs.Swim

namespace IowarpCore
namespace Cluster
namespace Swim

variable {env : ProbeEnv} {now : Time} {s : Swim} {node n : Node}

/-! ### Events since a death -/

/-- Something happened, with `P` of what was before it, and the node has not died since. -/
def Since (node : Node) (P : List Event → Event → Prop) (log : List Event) : Prop :=
  ∃ before e after, log = before ++ e :: after ∧ P before e ∧ Event.died node ∉ after

/-- A plan was made for the node with one assignment for each of its containers, and it has not
died since. -/
def Recovered (node : Node) : List Event → Prop :=
  Since node fun _ e => ∃ hosted assignments, e = .planned node hosted assignments ∧
    assignments.map Recovering.key = hosted

/-- The first confirmation of the node's death on the leader found it unfenced, with a node to
recover on, and the node has not died since. -/
def ConfirmedFirst (node : Node) : List Event → Prop :=
  Since node fun before e => e = .confirmed node true false true ∧
    ∀ fenced able, Event.confirmed node true fenced able ∉ before

theorem not_since_nil {P : List Event → Event → Prop} : ¬Since node P [] := by
  rintro ⟨before, e, after, hlog, _⟩
  simp at hlog

variable {e : Event} {log : List Event}

/-- One more event: it is the one, or the one was before and the node did not die now. -/
theorem since_snoc {P : List Event → Event → Prop} :
    Since node P (log ++ [e]) ↔ P log e ∨ (e ≠ .died node ∧ Since node P log) := by
  constructor
  · rintro ⟨before, e', after, hlog, hP, hafter⟩
    rcases List.eq_nil_or_concat after with hnil | ⟨after', last, hlast⟩
    · subst hnil
      obtain ⟨hbefore, he⟩ := List.append_inj' hlog rfl
      simp only [List.cons.injEq, and_true] at he
      rw [hbefore, he]
      exact Or.inl hP
    · rw [hlast, List.concat_eq_append, ← List.cons_append, ← List.append_assoc] at hlog
      obtain ⟨hbefore, he⟩ := List.append_inj' hlog rfl
      simp only [List.cons.injEq, and_true] at he
      rw [hlast, List.concat_eq_append, List.mem_append, not_or] at hafter
      refine Or.inr ⟨?_, before, e', after', hbefore, hP, hafter.1⟩
      intro hdied
      apply hafter.2
      rw [← he, hdied]
      exact List.mem_singleton_self _
  · rintro (hP | ⟨hne, before, e', after, hlog, hP, hafter⟩)
    · exact ⟨log, e, [], rfl, hP, by simp⟩
    · refine ⟨before, e', after ++ [e], by rw [hlog]; simp, hP, ?_⟩
      rw [List.mem_append, not_or]
      exact ⟨hafter, by simpa using Ne.symm hne⟩

/-! ### The form of a log -/

/-- The log of a node that remembers these nodes. -/
inductive Logged : List Node → List Event → Prop
  | nil : Logged [] []
  | died {initiated log node} : Logged initiated log → Logged initiated (log ++ [.died node])
  | notLeader {initiated log node fenced able} : Logged initiated log →
      Logged initiated (log ++ [.confirmed node false fenced able])
  | again {initiated log node fenced able} : Logged initiated log → node ∈ initiated →
      Logged initiated (log ++ [.confirmed node true fenced able])
  | fenced {initiated log node able} : Logged initiated log → node ∉ initiated →
      Logged (node :: initiated) (log ++ [.confirmed node true true able])
  | planned {initiated log node able hosted assignments} : Logged initiated log →
      node ∉ initiated → (assignments.map Recovering.key = hosted ↔ able = true) →
      Logged (node :: initiated)
        (log ++ [.confirmed node true false able] ++ [.planned node hosted assignments])

/-- The nodes that are remembered are those whose deaths were confirmed on the leader. -/
theorem Logged.mem_initiated {initiated : List Node} (h : Logged initiated log) :
    node ∈ initiated ↔ ∃ fenced able, Event.confirmed node true fenced able ∈ log := by
  induction h with
  | nil => simp
  | died _ ih => simpa using ih
  | notLeader _ ih => simpa using ih
  | again _ hmem ih =>
    refine ⟨fun h => ?_, ?_⟩
    · obtain ⟨fenced, able, hlog⟩ := ih.mp h
      exact ⟨fenced, able, List.mem_append_left _ hlog⟩
    · rintro ⟨fenced, able, hlog⟩
      rcases List.mem_append.mp hlog with hlog | hlog
      · exact ih.mpr ⟨fenced, able, hlog⟩
      · rw [(Event.confirmed.inj (List.mem_singleton.mp hlog)).1]
        exact hmem
  | @fenced _ _ _ able _ _ ih =>
    rw [List.mem_cons, ih]
    constructor
    · rintro (heq | ⟨fenced, able, hlog⟩)
      · exact ⟨true, able, by rw [heq]; simp⟩
      · exact ⟨fenced, able, List.mem_append_left _ hlog⟩
    · rintro ⟨fenced, able, hlog⟩
      rcases List.mem_append.mp hlog with hlog | hlog
      · exact Or.inr ⟨fenced, able, hlog⟩
      · exact Or.inl (Event.confirmed.inj (List.mem_singleton.mp hlog)).1
  | @planned _ _ _ able _ _ _ _ _ ih =>
    rw [List.mem_cons, ih]
    constructor
    · rintro (heq | ⟨fenced, able, hlog⟩)
      · exact ⟨false, able, by rw [heq]; simp⟩
      · exact ⟨fenced, able, List.mem_append_left _ (List.mem_append_left _ hlog)⟩
    · rintro ⟨fenced, able, hlog⟩
      rcases List.mem_append.mp hlog with hlog | hlog
      · rcases List.mem_append.mp hlog with hlog | hlog
        · exact Or.inr ⟨fenced, able, hlog⟩
        · exact Or.inl (Event.confirmed.inj (List.mem_singleton.mp hlog)).1
      · exact absurd (List.mem_singleton.mp hlog) (by simp)

theorem recovered_snoc :
    Recovered node (log ++ [e]) ↔
      (∃ hosted assignments, e = .planned node hosted assignments ∧
        assignments.map Recovering.key = hosted) ∨ (e ≠ .died node ∧ Recovered node log) :=
  since_snoc

theorem confirmedFirst_snoc :
    ConfirmedFirst node (log ++ [e]) ↔
      (e = .confirmed node true false true ∧
        ∀ fenced able, Event.confirmed node true fenced able ∉ log) ∨
        (e ≠ .died node ∧ ConfirmedFirst node log) :=
  since_snoc

/-- A plan is made exactly for the first confirmation on the leader, if that is not fenced. -/
theorem Logged.recovered_iff_confirmed {initiated : List Node} (h : Logged initiated log) :
    Recovered node log ↔ ConfirmedFirst node log := by
  induction h with
  | nil => exact iff_of_false not_since_nil not_since_nil
  | died _ ih =>
    rw [recovered_snoc, confirmedFirst_snoc, ih]
    simp
  | notLeader _ ih =>
    rw [recovered_snoc, confirmedFirst_snoc, ih]
    simp
  | @again initiated log node' fenced able hlog hmem ih =>
    rw [recovered_snoc, confirmedFirst_snoc, ih]
    have hearlier : ¬(Event.confirmed node' true fenced able = .confirmed node true false true ∧
        ∀ fenced able, Event.confirmed node true fenced able ∉ log) := by
      rintro ⟨heq, hnone⟩
      obtain ⟨fenced', able', hmem'⟩ := hlog.mem_initiated.mp hmem
      rw [(Event.confirmed.inj heq).1] at hmem'
      exact hnone fenced' able' hmem'
    rw [or_iff_right hearlier]
    simp
  | fenced _ _ ih =>
    rw [recovered_snoc, confirmedFirst_snoc, ih]
    simp
  | @planned initiated log node' able hosted assignments hlog hnot hable ih =>
    have hnone : ∀ fenced able, Event.confirmed node' true fenced able ∉ log :=
      fun fenced able hmem => hnot (hlog.mem_initiated.mpr ⟨fenced, able, hmem⟩)
    rw [recovered_snoc, recovered_snoc, confirmedFirst_snoc, confirmedFirst_snoc, ih]
    by_cases heq : node = node'
    · subst heq
      have hno : ¬ConfirmedFirst node log := by
        rintro ⟨before, e, after, rfl, ⟨rfl, _⟩, _⟩
        exact hnone false true (by simp)
      simp only [Event.planned.injEq, true_and, Event.confirmed.injEq, hno]
      simp [← hable, hnone]
    · simp [Ne.symm heq]

/-! ### What a node does to its log -/

/-- The log has its form, and has the death of every dead node. -/
structure History (s : Swim) : Prop where
  logged : Logged s.recoveryInitiated s.log
  deaths : ∀ node, s.ipc.stateOf node = some .dead → Event.died node ∈ s.log

/-- A step that writes nothing to the log and makes no node dead. -/
theorem History.congr {s' : Swim} (h : History s)
    (hinitiated : s'.recoveryInitiated = s.recoveryInitiated) (hlog : s'.log = s.log)
    (hdead : ∀ node, s'.ipc.stateOf node = some .dead → s.ipc.stateOf node = some .dead) :
    History s' := by
  refine ⟨?_, ?_⟩
  · rw [hinitiated, hlog]
    exact h.logged
  · intro node hnode
    rw [hlog]
    exact h.deaths node (hdead node hnode)

theorem History.setNodeState {st : NodeState} (h : History s) (hst : st ≠ .dead) :
    History (s.setNodeState now node st) := by
  refine h.congr rfl rfl ?_
  intro n hn
  rw [Swim.setNodeState, IpcManager.stateOf_setNodeState] at hn
  split at hn
  · obtain ⟨_, _, heq⟩ := Option.map_eq_some_iff.mp hn
    exact absurd heq hst
  · exact hn

theorem getAllHosts_stateOf (ipc : IpcManager) : ipc.getAllHosts.stateOf node = ipc.stateOf node := by
  rw [IpcManager.stateOf, IpcManager.getAllHosts_hostfileMap]
  rfl

theorem History.getAllHosts (h : History s) : History s.getAllHosts := by
  refine h.congr rfl rfl ?_
  intro n hn
  exact (getAllHosts_stateOf s.ipc).symm.trans hn

theorem History.setDead (h : History s) : History (s.setDead now node) := by
  unfold Swim.setDead
  constructor
  · dsimp only
    split
    · exact h.logged.died
    · exact h.logged
  · intro n hn
    dsimp only at hn ⊢
    rw [IpcManager.stateOf_setDead] at hn
    by_cases heq : n = node
    · rw [if_pos heq] at hn
      obtain ⟨st, hst, _⟩ := Option.map_eq_some_iff.mp hn
      obtain ⟨host, hfind, hhost⟩ := IpcManager.stateOf_eq_some_iff.mp hst
      have hcontains : s.ipc.hostfileMap.contains node = true := by
        rw [AMap.contains, hfind]
        rfl
      have hstate : s.ipc.getNodeState node = st := by
        rw [IpcManager.getNodeState, hfind]
        exact hhost
      rw [hcontains, hstate, heq]
      by_cases hdead : st = .dead
      · rw [if_neg (by simp [hdead])]
        exact h.deaths node (hst.trans (by rw [hdead]))
      · rw [if_pos (by simp [hdead])]
        exact List.mem_append_right _ (List.mem_singleton_self _)
    · rw [if_neg heq] at hn
      have hold := h.deaths n hn
      split
      · exact List.mem_append_left _ hold
      · exact hold

/-- A confirmation is logged, and so is the plan if it comes to one. -/
theorem History.triggerRecovery (h : History s) :
    History ((s.confirm env node).triggerRecovery env node).1 := by
  have hold : ∀ (more : List Event) n, s.ipc.stateOf n = some .dead → Event.died n ∈ s.log ++ more :=
    fun more n hn => List.mem_append_left _ (h.deaths n hn)
  obtain ⟨able, hable, hconfirm⟩ : ∃ able, ((s.getAllHosts.computeRecoveryPlan env node).map
        Recovering.key = hostedOn env.pools node ↔ able = true) ∧ s.confirm env node =
      { s with log := s.log ++ [.confirmed node s.ipc.isLeader s.ipc.selfFenced able] } :=
    ⟨_, Recovering.keys_computeRecoveryPlan node, rfl⟩
  rw [hconfirm]
  unfold Swim.triggerRecovery
  dsimp only
  split
  · rename_i hleader
    refine ⟨?_, hold _⟩
    have hfalse : s.ipc.isLeader = false := by simpa using hleader
    dsimp only
    rw [hfalse]
    exact h.logged.notLeader
  · rename_i hleader
    have htrue : s.ipc.isLeader = true := by simpa using hleader
    rw [htrue]
    split
    · rename_i hmem
      exact ⟨h.logged.again hmem, hold _⟩
    · rename_i hnot
      split
      · rename_i hfenced
        refine ⟨?_, hold _⟩
        dsimp only
        rw [hfenced]
        exact h.logged.fenced hnot
      · rename_i hfenced
        have hfalse : s.ipc.selfFenced = false := by simpa using hfenced
        constructor
        · simp only [Swim.getAllHosts, hfalse]
          exact h.logged.planned hnot hable
        · intro n hn
          have hn' : s.ipc.stateOf n = some .dead := (getAllHosts_stateOf s.ipc).symm.trans hn
          simp only [Swim.getAllHosts]
          exact List.mem_append_left _ (hold _ n hn')

theorem History.finishProbe (h : History s) : History (s.finishProbe env) := by
  obtain ⟨hipc, _, hlog, hinitiated⟩ := sendDirectProbe_writes env s.checkFence
  refine h.congr hinitiated hlog ?_
  intro n hn
  show s.ipc.stateOf n = some .dead
  have hn' : (s.checkFence.sendDirectProbe env).ipc.stateOf n = some .dead := hn
  rw [hipc, getAllHosts_stateOf] at hn'
  exact (getAllHosts_stateOf s.ipc).symm.trans hn'

theorem history_probing : Probing env now History History where
  state _ _ _ _ hst h := h.setNodeState hst
  hosts _ h := h.getAllHosts
  probes _ _ _ _ _ h := h.congr rfl rfl fun _ hn => hn
  round _ _ _ _ _ _ h := h.setDead.triggerRecovery
  await _ _ h := h.congr rfl rfl fun _ hn => hn
  finish _ h := h.finishProbe

theorem History.revive (h : History s) : History { s with ipc := s.ipc.setAlive now node } := by
  refine h.congr rfl rfl ?_
  intro n hn
  rw [IpcManager.stateOf_setAlive] at hn
  split at hn
  · obtain ⟨_, _, hfalse⟩ := Option.map_eq_some_iff.mp hn
    simp at hfalse
  · exact hn

theorem History.apply (op : Op) (h : History s) : History (s.apply op) := by
  cases op with
  | heartbeatProbe env now =>
    unfold Swim.apply
    dsimp only
    split
    · exact history_probing.heartbeatProbe h
    · exact h
  | resumeProbe env =>
    unfold Swim.apply resumeProbe
    dsimp only
    split
    · exact h
    · exact history_probing.checkSuspicions _ _ _ h
  | setDead now node => exact h.setDead
  | revive now node =>
    unfold Swim.apply
    dsimp only
    split
    · exact h.revive
    · exact h
  | addNode now ipAddress =>
    unfold Swim.apply
    dsimp only
    rcases @IpcManager.addNode_cases s.ipc now ipAddress with ⟨node, hadd⟩ | hadd
    · rw [hadd]
      exact h.revive
    · rw [hadd]
      refine h.congr rfl rfl ?_
      intro n hn
      rw [IpcManager.stateOf, AMap.find?_insertOrAssign] at hn
      split at hn
      · simp at hn
      · exact hn
  | announceShutdown env node =>
    unfold Swim.apply Swim.announceShutdown
    dsimp only
    split
    · exact h.setDead.triggerRecovery
    · rename_i hleader
      have hsame := @History.triggerRecovery env (s.setDead (env.clock 0) node) node h.setDead
      unfold Swim.triggerRecovery at hsame
      rwa [if_pos (by simpa using hleader)] at hsame
  | getAllHosts => exact h.getAllHosts

theorem history_booted (self : Node) (lines : List String) : History (booted self now lines) := by
  refine ⟨Logged.nil, ?_⟩
  intro node hnode
  simpa using booted_alive hnode

theorem history_of_run {self : Node} {lines : List String} {ops : List Op}
    (hrun : Along (fun op s s' => s' = s.apply op) ops (booted self now lines) s) : History s := by
  refine hrun.invariant ?_ (history_booted self lines)
  intro op _ s s' h hstep
  rw [hstep]
  exact h.apply op

/-- **The deaths that are recovered.**  In every state of every run, a node that is held to
be dead has died, and a recovery plan with an assignment for each of its containers has been made
since its last death if and only if the first confirmation of a death of it on this node as the
leader found it unfenced, with a node to recover on, and the node has not died since. -/
theorem recovered_iff {self : Node} {lines : List String} {ops : List Op}
    (hrun : Along (fun op s s' => s' = s.apply op) ops (booted self now lines) s)
    (hdead : s.ipc.stateOf node = some .dead) :
    Event.died node ∈ s.log ∧ (Recovered node s.log ↔ ConfirmedFirst node s.log) :=
  ⟨(history_of_run hrun).deaths node hdead, (history_of_run hrun).logged.recovered_iff_confirmed⟩

theorem along_ranOf (lines : List String) (ops : List Op) :
    Along (fun op s s' => s' = s.apply op) ops (booted 0 0 lines) (ranOf lines ops) := by
  unfold ranOf
  generalize booted 0 0 lines = s
  induction ops generalizing s with
  | nil => exact rfl
  | cons op ops ih => exact ⟨_, rfl, ih _⟩

/-- Node 1 of three stops answering, is suspected through node 2 and confirmed dead. -/
def firstDeath : List Op := [probeWhen 0 [], probeWhen 6 [], probeWhen 10 [], probeWhen 21 []]

theorem recovered_iff_first :
    (ranOf ["a", "b", "c"] firstDeath).ipc.stateOf 1 = some .dead ∧
      Recovered 1 (ranOf ["a", "b", "c"] firstDeath).log := by
  have hdead : (ranOf ["a", "b", "c"] firstDeath).ipc.stateOf 1 = some .dead := by decide +kernel
  have hlog : (ranOf ["a", "b", "c"] firstDeath).log = [.died 1] ++ .confirmed 1 true false true ::
      [.planned 1 [(⟨1, 1⟩, 1)] [⟨⟨1, 1⟩, [109], [112], [], 1, 1, 0⟩]] := by decide +kernel
  refine ⟨hdead, (recovered_iff (along_ranOf _ _) hdead).2.mpr ?_⟩
  exact ⟨[.died 1], _, _, hlog, ⟨rfl, by simp⟩, by simp⟩

/-- A death that a failed send notices: the leader is through with a `HeartbeatProbe`, is not
fenced, holds node 1 for dead and has made no plan. -/
theorem death_not_recovered :
    ¬∀ lines ops node, (ranOf lines ops).ipc.isLeader = true →
      (ranOf lines ops).ipc.selfFenced = false → (ranOf lines ops).checking = none →
      (ranOf lines ops).ipc.stateOf node = some .dead → Recovered node (ranOf lines ops).log := by
  intro h
  have hrec := h ["a", "b", "c"] [.setDead 0 1, probeWhen 1 []] 1 (by decide +kernel)
    (by decide +kernel) (by decide +kernel) (by decide +kernel)
  have hlog : (ranOf ["a", "b", "c"] [.setDead 0 1, probeWhen 1 []]).log = [.died 1] := by
    decide +kernel
  rw [hlog] at hrec
  obtain ⟨before, e, after, heq, ⟨hosted, assignments, he, _⟩, _⟩ := hrec
  have hmem : Event.planned 1 hosted assignments ∈ [Event.died 1] := by
    rw [heq, he]
    simp
  simp at hmem

end Swim
end Cluster
end IowarpCore
