/-
What a node that is set alive has answered.

A detector takes a `Heartbeat` that is complete as a sign of life, and so does the helper it
asks.  A future is complete when `EndTask` has completed its task.  `ScanSendMapTimeouts` does
not get there for a probe, which has no container; so it takes an answer that was aggregated
into the task.  This need not be an answer to the probe: one to an earlier task that had the
same address is taken for it (`alive_mistaken`).

`Sound` is what holds when no address is given out again too early: a request for a probe is
bound for the node it is to probe and an answer to it was served there (`Traced`), a task that
ended had an answer aggregated into it, and the helper that reports success has seen its own
`Heartbeat` complete.
-/
import IowarpCore.Cluster.Probes
import IowarpCore.Proofs.Failover
import IowarpCore.Proofs.Traces

namespace IowarpCore
namespace Cluster
namespace Swim

variable {env : ProbeEnv} {now : Time} {s s' : Swim} {node : Node}

/-! ### The probes of a detector -/

/-- Every pending probe is among the tasks that were sent, and a future has one task. -/
structure Recorded (s : Swim) : Prop where
  below : ∀ x ∈ s.sent, x.1 < s.nextFuture
  unique : ∀ x ∈ s.sent, ∀ y ∈ s.sent, x.1 = y.1 → x = y
  direct : ∀ p ∈ s.pendingDirectProbes, (p.future, .heartbeat p.targetNodeId) ∈ s.sent
  indirect : ∀ p ∈ s.pendingIndirectProbes,
    (p.future, .probeRequest p.helperNodeId p.targetNodeId) ∈ s.sent

/-- A state that comes after another: what was sent stays sent. -/
structure Follows (s s' : Swim) : Prop where
  recorded : Recorded s'
  sent : ∀ x ∈ s.sent, x ∈ s'.sent

theorem Recorded.congr (h : Recorded s) (hnext : s'.nextFuture = s.nextFuture)
    (hsent : s'.sent = s.sent) (hdirect : s'.pendingDirectProbes = s.pendingDirectProbes)
    (hindirect : s'.pendingIndirectProbes = s.pendingIndirectProbes) : Follows s s' := by
  refine ⟨⟨?_, ?_, ?_, ?_⟩, fun x hx => hsent ▸ hx⟩
  · rw [hsent, hnext]
    exact h.below
  · rw [hsent]
    exact h.unique
  · rw [hsent, hdirect]
    exact h.direct
  · rw [hsent, hindirect]
    exact h.indirect

theorem Follows.trans {s'' : Swim} (h : Follows s s') (h' : Follows s' s'') : Follows s s'' :=
  ⟨h'.recorded, fun x hx => h'.sent x (h.sent x hx)⟩

/-- One more task, with the probes that are pending then. -/
theorem Recorded.send (h : Recorded s) (task : ProbeTask) (direct : List DirectProbe)
    (indirect : List IndirectProbe)
    (hdirect : ∀ p ∈ direct, p ∈ s.pendingDirectProbes ∨
      p.future = s.nextFuture ∧ task = .heartbeat p.targetNodeId)
    (hindirect : ∀ p ∈ indirect, p ∈ s.pendingIndirectProbes ∨
      p.future = s.nextFuture ∧ task = .probeRequest p.helperNodeId p.targetNodeId) :
    Follows s { s with
      pendingDirectProbes := direct
      pendingIndirectProbes := indirect
      nextFuture := s.nextFuture + 1
      sent := s.sent ++ [(s.nextFuture, task)] } := by
  have hnew : (s.nextFuture, task) ∈ s.sent ++ [(s.nextFuture, task)] :=
    List.mem_append_right _ (List.mem_singleton_self _)
  refine ⟨⟨?_, ?_, ?_, ?_⟩, fun x hx => List.mem_append_left _ hx⟩
  · intro x hx
    rcases List.mem_append.mp hx with hx | hx
    · exact Nat.lt_succ_of_lt (h.below x hx)
    · rw [List.mem_singleton.mp hx]
      exact Nat.lt_succ_self _
  · intro x hx y hy hxy
    rcases List.mem_append.mp hx with hx | hx
    · rcases List.mem_append.mp hy with hy | hy
      · exact h.unique x hx y hy hxy
      · have hlt := h.below x hx
        rw [hxy, List.mem_singleton.mp hy] at hlt
        exact absurd hlt (Nat.lt_irrefl _)
    · rcases List.mem_append.mp hy with hy | hy
      · have hlt := h.below y hy
        rw [← hxy, List.mem_singleton.mp hx] at hlt
        exact absurd hlt (Nat.lt_irrefl _)
      · rw [List.mem_singleton.mp hx, List.mem_singleton.mp hy]
  · intro p hp
    rcases hdirect p hp with hp | ⟨hfuture, htask⟩
    · exact List.mem_append_left _ (h.direct p hp)
    · rw [hfuture, ← htask]
      exact hnew
  · intro p hp
    rcases hindirect p hp with hp | ⟨hfuture, htask⟩
    · exact List.mem_append_left _ (h.indirect p hp)
    · rw [hfuture, ← htask]
      exact hnew

theorem Recorded.askHelpers {target : Node} (helpers : List Node) : ∀ {s : Swim}, Recorded s →
    Follows s (askHelpers env.sentAt target helpers s) := by
  induction helpers with
  | nil =>
    intro s h
    exact ⟨h, fun _ hx => hx⟩
  | cons helper helpers ih =>
    intro s h
    have hone := h.send (.probeRequest helper target) s.pendingDirectProbes
      (s.pendingIndirectProbes ++ [⟨s.nextFuture, target, helper, env.sentAt s.nextFuture⟩])
      (fun p hp => Or.inl hp) (by
        intro p hp
        rcases List.mem_append.mp hp with hp | hp
        · exact Or.inl hp
        · rw [List.mem_singleton.mp hp]
          exact Or.inr ⟨rfl, rfl⟩)
    exact hone.trans (ih hone.recorded)

/-- One round of the first loop, with a probe that was sent. -/
theorem Recorded.checkDirectProbe (h : Recorded s) (k : Nat) {probe : DirectProbe}
    (hprobe : (probe.future, .heartbeat probe.targetNodeId) ∈ s.sent) :
    Follows s (s.checkDirectProbe env now k probe) := by
  unfold Swim.checkDirectProbe
  split
  · exact h.congr rfl rfl rfl rfl
  · split
    · have hfirst : Follows s
          (s.setNodeState (env.clock k) probe.targetNodeId .probeFailed).getAllHosts :=
        h.congr rfl rfl rfl rfl
      exact hfirst.trans (hfirst.recorded.askHelpers _)
    · refine ⟨⟨h.below, h.unique, ?_, h.indirect⟩, fun _ hx => hx⟩
      intro p hp
      rcases List.mem_append.mp hp with hp | hp
      · exact h.direct p hp
      · rw [List.mem_singleton.mp hp]
        exact hprobe

theorem Recorded.checkDirectLoop (probes : List DirectProbe) : ∀ (k : Nat) {s : Swim}, Recorded s →
    (∀ p ∈ probes, (p.future, .heartbeat p.targetNodeId) ∈ s.sent) →
    Follows s (checkDirectLoop env now k probes s) := by
  induction probes with
  | nil =>
    intro k s h _
    exact ⟨h, fun _ hx => hx⟩
  | cons probe probes ih =>
    intro k s h hprobes
    have hone := @Recorded.checkDirectProbe env now s h k probe (hprobes probe (by simp))
    refine hone.trans (ih (k + 1) hone.recorded ?_)
    intro p hp
    exact hone.sent _ (hprobes p (List.mem_cons_of_mem _ hp))

theorem Recorded.checkDirectProbes (h : Recorded s) : Follows s (s.checkDirectProbes env now) := by
  have hempty : Recorded { s with pendingDirectProbes := [] } :=
    ⟨h.below, h.unique, by simp, h.indirect⟩
  obtain ⟨hrec, hsent⟩ := @Recorded.checkDirectLoop env now s.pendingDirectProbes 0 _ hempty h.direct
  exact ⟨hrec, hsent⟩

theorem Recorded.checkIndirectLoop (after : List IndirectProbe) : ∀ (k : Nat)
    (before : List IndirectProbe) {s : Swim}, Recorded s →
    (∀ p ∈ before ++ after, (p.future, .probeRequest p.helperNodeId p.targetNodeId) ∈ s.sent) →
    Follows s (checkIndirectLoop env now k before after s) := by
  induction after with
  | nil =>
    intro k before s h hprobes
    rw [List.append_nil] at hprobes
    exact ⟨⟨h.below, h.unique, h.direct, hprobes⟩, fun _ hx => hx⟩
  | cons probe after ih =>
    intro k before s h hprobes
    have hothers : ∀ p ∈ before ++ after,
        (p.future, .probeRequest p.helperNodeId p.targetNodeId) ∈ s.sent := by
      intro p hp
      refine hprobes p ?_
      rcases List.mem_append.mp hp with hp | hp
      · exact List.mem_append_left _ hp
      · exact List.mem_append_right _ (List.mem_cons_of_mem _ hp)
    have hfailed : Follows s
        (s.indirectProbeFailed (env.clock k) probe.targetNodeId (before ++ after)) := by
      unfold Swim.indirectProbeFailed
      dsimp only
      split
      · exact h.congr rfl rfl rfl rfl
      · exact ⟨h, fun _ hx => hx⟩
    have hnext := hfailed.trans
      (ih (k + 1) before hfailed.recorded fun p hp => hfailed.sent _ (hothers p hp))
    unfold Swim.checkIndirectLoop
    split
    · refine ⟨⟨h.below, h.unique, h.direct, ?_⟩, fun _ hx => hx⟩
      intro p hp
      exact hprobes p (List.mem_filter.mp hp).1
    · exact hnext
    · split
      · exact hnext
      · refine ih (k + 1) (before ++ [probe]) h ?_
        rw [List.append_assoc]
        exact hprobes

theorem Recorded.finishProbe (h : Recorded s) : Follows s (s.finishProbe env) := by
  unfold Swim.finishProbe Swim.sendDirectProbe
  dsimp only
  split
  · split
    · exact h.congr rfl rfl rfl rfl
    · rename_i idx node _
      obtain ⟨hrec, hsent⟩ := h.send (.heartbeat node)
        (s.pendingDirectProbes ++ [⟨s.nextFuture, node, env.clock 0⟩]) s.pendingIndirectProbes (by
          intro p hp
          rcases List.mem_append.mp hp with hp | hp
          · exact Or.inl hp
          · rw [List.mem_singleton.mp hp]
            exact Or.inr ⟨rfl, rfl⟩) (fun p hp => Or.inl hp)
      exact ⟨⟨hrec.below, hrec.unique, hrec.direct, hrec.indirect⟩, hsent⟩
  · exact h.congr rfl rfl rfl rfl

theorem Recorded.checkSuspicions (h : Recorded s) (count i : Nat) :
    Follows s (checkSuspicions env now count i s) := by
  refine checkSuspicions_invariant (I := Follows s) (J := Follows s) ?_ ?_ ?_ count i s
    ⟨h, fun _ hx => hx⟩
  · intro i node host s₁ _ _ h₁
    obtain ⟨_, hindirect, hdirect, hnext, hsent⟩ :=
      triggerRecovery_writes env ((s₁.setDead (env.clock i) node).confirm env node) node
    exact h₁.trans (h₁.recorded.congr hnext hsent hdirect hindirect)
  · intro s₁ checking h₁
    exact h₁.trans (h₁.recorded.congr rfl rfl rfl rfl)
  · intro s₁ h₁
    exact h₁.trans h₁.recorded.finishProbe

theorem Recorded.heartbeatProbe (h : Recorded s) : Follows s (s.heartbeatProbe env now) := by
  have hdirect := @Recorded.checkDirectProbes env now s h
  have hindirect := @Recorded.checkIndirectLoop env now
    (s.checkDirectProbes env now).pendingIndirectProbes 0 [] _ hdirect.recorded
    hdirect.recorded.indirect
  have hhosts : Follows (s.checkDirectProbes env now)
      ((s.checkDirectProbes env now).checkIndirectProbes env now).getAllHosts :=
    hindirect.trans (hindirect.recorded.congr rfl rfl rfl rfl)
  exact (hdirect.trans hhosts).trans (hhosts.recorded.checkSuspicions _ _)

theorem Recorded.resumeProbe (h : Recorded s) : Follows s (s.resumeProbe env) := by
  unfold Swim.resumeProbe
  split
  · exact ⟨h, fun _ hx => hx⟩
  · exact h.checkSuspicions _ _

/-! ### The nodes it sets alive -/

section

variable {P : Node → Prop}

/-- The alive nodes are among those of `P`. -/
def AliveIn (P : Node → Prop) (s : Swim) : Prop :=
  ∀ node, s.ipc.stateOf node = some .alive → P node

theorem AliveIn.setNodeState {t : Time} {st : NodeState} (h : AliveIn P s)
    (hst : st = .alive → P node) : AliveIn P (s.setNodeState t node st) := by
  intro n hn
  rw [Swim.setNodeState, IpcManager.stateOf_setNodeState] at hn
  by_cases heq : n = node
  · rw [if_pos heq] at hn
    obtain ⟨_, _, halive⟩ := Option.map_eq_some_iff.mp hn
    rw [heq]
    exact hst halive
  · rw [if_neg heq] at hn
    exact h n hn

theorem AliveIn.getAllHosts (h : AliveIn P s) : AliveIn P s.getAllHosts := by
  intro n hn
  exact h n ((getAllHosts_stateOf s.ipc).symm.trans hn)

theorem AliveIn.checkDirectProbe (h : AliveIn P s) (k : Nat) {probe : DirectProbe}
    (hprobe : (env.result probe.future).isSome = true → P probe.targetNodeId) :
    AliveIn P (s.checkDirectProbe env now k probe) := by
  unfold Swim.checkDirectProbe
  split
  · rename_i hdone
    exact h.setNodeState fun _ => hprobe hdone
  · split
    · intro n hn
      unfold Swim.startIndirectProbes at hn
      rw [(askHelpers_writes _ _ _).1] at hn
      exact AliveIn.getAllHosts (h.setNodeState (by simp)) n hn
    · exact h

theorem AliveIn.checkDirectLoop (probes : List DirectProbe) : ∀ (k : Nat) {s : Swim},
    AliveIn P s → (∀ p ∈ probes, (env.result p.future).isSome = true → P p.targetNodeId) →
    AliveIn P (checkDirectLoop env now k probes s) := by
  induction probes with
  | nil =>
    intro k s h _
    exact h
  | cons probe probes ih =>
    intro k s h hprobes
    exact ih (k + 1) (h.checkDirectProbe k (hprobes probe (by simp))) fun p hp =>
      hprobes p (List.mem_cons_of_mem _ hp)

theorem AliveIn.checkIndirectLoop (after : List IndirectProbe) : ∀ (k : Nat)
    (before : List IndirectProbe) {s : Swim}, AliveIn P s →
    (∀ p ∈ after, env.result p.future = some 0 → P p.targetNodeId) →
    AliveIn P (checkIndirectLoop env now k before after s) := by
  induction after with
  | nil =>
    intro k before s h _
    exact h
  | cons probe after ih =>
    intro k before s h hprobes
    have hrest := fun p hp => hprobes p (List.mem_cons_of_mem _ hp)
    have hfailed : AliveIn P
        (s.indirectProbeFailed (env.clock k) probe.targetNodeId (before ++ after)) := by
      unfold Swim.indirectProbeFailed
      dsimp only
      split
      · exact h.setNodeState (by simp)
      · exact h
    unfold Swim.checkIndirectLoop
    split
    · rename_i hzero
      exact h.setNodeState fun _ => hprobes probe (by simp) hzero
    · exact ih (k + 1) _ hfailed hrest
    · split
      · exact ih (k + 1) _ hfailed hrest
      · exact ih (k + 1) _ h hrest

/-- The parts behind the probes set no node alive. -/
theorem AliveIn.checkSuspicions (h : AliveIn P s) (count i : Nat) :
    AliveIn P (checkSuspicions env now count i s) := by
  refine checkSuspicions_invariant (I := AliveIn P) (J := AliveIn P) ?_ (fun _ _ h => h) ?_ count i
    s h
  · intro i node host s _ _ h n hn
    have hstate : (((s.setDead (env.clock i) node).confirm env node).triggerRecovery env
        node).1.ipc.stateOf n = (s.ipc.setDead (env.clock i) node).stateOf n := by
      rcases (triggerRecovery_writes env ((s.setDead (env.clock i) node).confirm env node)
        node).1 with hipc | hipc
      · rw [hipc]
        rfl
      · rw [hipc, getAllHosts_stateOf]
        rfl
    rw [hstate, IpcManager.stateOf_setDead] at hn
    by_cases heq : n = node
    · rw [if_pos heq] at hn
      simp at hn
    · rw [if_neg heq] at hn
      exact h n hn
  · intro s h n hn
    have hn : (s.checkFence.sendDirectProbe env).ipc.stateOf n = some .alive := hn
    rw [(sendDirectProbe_writes env s.checkFence).1, getAllHosts_stateOf] at hn
    exact h.getAllHosts n hn

/-- A node is set alive for a direct probe of it that is complete, or an indirect one that
brought 0. -/
theorem alive_of_heartbeatProbe
    (h : (s.heartbeatProbe env now).ipc.stateOf node = some .alive) :
    s.ipc.stateOf node = some .alive ∨
      (∃ p ∈ s.pendingDirectProbes, p.targetNodeId = node ∧
        (env.result p.future).isSome = true) ∨
      ∃ p ∈ (s.checkDirectProbes env now).pendingIndirectProbes, p.targetNodeId = node ∧
        env.result p.future = some 0 := by
  generalize hP : (fun node => s.ipc.stateOf node = some .alive ∨
    (∃ p ∈ s.pendingDirectProbes, p.targetNodeId = node ∧ (env.result p.future).isSome = true) ∨
    ∃ p ∈ (s.checkDirectProbes env now).pendingIndirectProbes, p.targetNodeId = node ∧
      env.result p.future = some 0) = P
  have hstart : AliveIn P { s with pendingDirectProbes := [] } := by
    intro n hn
    rw [← hP]
    exact Or.inl hn
  have hdirect : AliveIn P (s.checkDirectProbes env now) := by
    refine AliveIn.checkDirectLoop s.pendingDirectProbes 0 hstart ?_
    intro p hp hdone
    rw [← hP]
    exact Or.inr (Or.inl ⟨p, hp, rfl, hdone⟩)
  have hindirect : AliveIn P ((s.checkDirectProbes env now).checkIndirectProbes env now) := by
    refine AliveIn.checkIndirectLoop _ 0 [] hdirect ?_
    intro p hp hzero
    rw [← hP]
    exact Or.inr (Or.inr ⟨p, hp, rfl, hzero⟩)
  have halive := hindirect.getAllHosts.checkSuspicions _ _ node h
  rw [← hP] at halive
  exact halive

end

/-- An invocation does not change which node this is. -/
theorem nodeId_probing (me : Node) :
    Probing env now (fun s => s.ipc.nodeId = me) (fun s => s.ipc.nodeId = me) where
  state _ _ _ _ _ h := (NetState.setNodeState_nodeId _ _ _ _).trans h
  hosts s h := by
    show s.ipc.getAllHosts.nodeId = me
    unfold IpcManager.getAllHosts
    split <;> exact h
  probes _ _ _ _ _ h := h
  round i node _ s _ _ h := by
    have hdead : (s.ipc.setDead (env.clock i) node).nodeId = me :=
      (NetState.setDead_nodeId _ _ _).trans h
    rcases (triggerRecovery_writes env ((s.setDead (env.clock i) node).confirm env node)
      node).1 with hipc | hipc
    · rw [hipc]
      exact hdead
    · rw [hipc]
      unfold IpcManager.getAllHosts
      split <;> exact hdead
  await _ _ h := h
  finish s h := by
    show (s.checkFence.sendDirectProbe env).ipc.nodeId = me
    have hfence : s.checkFence.ipc.nodeId = me := by
      show s.ipc.getAllHosts.nodeId = me
      unfold IpcManager.getAllHosts
      split <;> exact h
    rw [(sendDirectProbe_writes env s.checkFence).1]
    unfold IpcManager.getAllHosts
    split <;> exact hfence

theorem heartbeatProbe_nodeId : (s.heartbeatProbe env now).ipc.nodeId = s.ipc.nodeId :=
  (nodeId_probing s.ipc.nodeId).heartbeatProbe rfl

theorem resumeProbe_nodeId : (s.resumeProbe env).ipc.nodeId = s.ipc.nodeId := by
  unfold resumeProbe
  split
  · rfl
  · exact (nodeId_probing s.ipc.nodeId).checkSuspicions _ _ _ rfl

end Swim
namespace System

open NetState Cluster.World

variable {sys sys' : System} {n m : UInt32} {env : Env Body} {t : NetTask Body}

/-! ### Requests and answers of probes -/

/-- A request of a probe, or the answer to it. -/
structure IsProbe (task : ProbeTask) (t : NetTask Body) : Prop where
  mode : t.poolQuery.routingMode = .physical
  nodeId : t.poolQuery.nodeId = task.dest.toUInt32
  method : t.body.method = task.body.method
  target : t.body.targetNodeId = task.body.targetNodeId

/-- If the request is one of a probe that was taken up, it is as the probe was. -/
def Probed (sys : System) (t : NetTask Body) : Prop :=
  ∀ n : UInt32, t.sender = n.toUInt64 → t.sendId < (sys.net.nodes n).nextSend ∧
    ∀ i ∈ sys.issued n, i.sendId = t.sendId → IsProbe i.task t

/-- A request and the node it is bound for. -/
def BoundFor (sys : System) (dst : Node) (t : NetTask Body) : Prop :=
  (t.poolQuery.routingMode = .physical → dst = t.poolQuery.nodeId.toUInt64) ∧ Probed sys t

/-- An answer, which was served by the node the request was for. -/
def ServedAt (sys : System) (t : NetTask Body) : Prop :=
  (∃ m, (m, t) ∈ sys.net.served ∧
    (t.poolQuery.routingMode = .physical → m = t.poolQuery.nodeId)) ∧ Probed sys t

theorem boundFor_reroutes (sys : System) : Reroutes (BoundFor sys) := by
  intro dst dst' t hmode h
  exact ⟨fun hphysical => absurd hphysical hmode, h.2⟩

/-- A helper has seen the `Heartbeat` it sent for this request complete. -/
def Reported (sys : System) (m : UInt32) (t : NetTask Body) : Prop :=
  ∃ h ∈ sys.helped m, SameRequest h.task t ∧ h.task.body.targetNodeId = t.body.targetNodeId ∧
    (sys.result m h.future).isSome = true

variable {future i : Nat} {s : Swim}

theorem result_isSome_iff : (sys.result n future).isSome = true ↔
    ∃ i, (sys.issued n).find? (fun i => i.future = future) = some i ∧
      ∃ o ∈ (sys.net.nodes n).ended, o.sendId = i.sendId := by
  unfold result ended?
  cases (sys.issued n).find? fun i => i.future = future with
  | none => simp
  | some i => simp

/-! ### One state after another -/

/-- What only grows.  A probe that is taken up has a new id. -/
structure Later (sys sys' : System) : Prop where
  nextSend : ∀ n, (sys.net.nodes n).nextSend ≤ (sys'.net.nodes n).nextSend
  issued : ∀ n, ∃ new, sys'.issued n = sys.issued n ++ new ∧
    ∀ i ∈ new, (sys.net.nodes n).nextSend ≤ i.sendId
  ended : ∀ n, ∀ o ∈ (sys.net.nodes n).ended, o ∈ (sys'.net.nodes n).ended
  served : ∀ x ∈ sys.net.served, x ∈ sys'.net.served
  helped : ∀ n, ∀ h ∈ sys.helped n, h ∈ sys'.helped n

theorem Probed.later (h : Probed sys t) (hlater : Later sys sys') : Probed sys' t := by
  intro n hsender
  obtain ⟨hlt, hprobe⟩ := h n hsender
  obtain ⟨new, hissued, hnew⟩ := hlater.issued n
  refine ⟨Nat.lt_of_lt_of_le hlt (hlater.nextSend n), ?_⟩
  intro i hi hid
  rw [hissued] at hi
  rcases List.mem_append.mp hi with hi | hi
  · exact hprobe i hi hid
  · have hge := hnew i hi
    omega

theorem BoundFor.later {dst : Node} (h : BoundFor sys dst t) (hlater : Later sys sys') :
    BoundFor sys' dst t :=
  ⟨h.1, h.2.later hlater⟩

theorem ServedAt.later (h : ServedAt sys t) (hlater : Later sys sys') : ServedAt sys' t := by
  obtain ⟨⟨m, hm, hnode⟩, hprobed⟩ := h
  exact ⟨⟨m, hlater.served _ hm, hnode⟩, hprobed.later hlater⟩

theorem result_later (h : (sys.result n future).isSome = true)
    (hlater : Later sys sys') : (sys'.result n future).isSome = true := by
  rw [result_isSome_iff] at h ⊢
  obtain ⟨i, hfind, o, ho, hid⟩ := h
  obtain ⟨new, hissued, _⟩ := hlater.issued n
  refine ⟨i, ?_, o, hlater.ended n o ho, hid⟩
  rw [hissued, List.find?_append, hfind]
  rfl

theorem Reported.later (h : Reported sys m t) (hlater : Later sys sys') : Reported sys' m t := by
  obtain ⟨helping, hmem, hsame, htarget, hdone⟩ := h
  exact ⟨helping, hlater.helped m helping hmem, hsame, htarget, result_later hdone hlater⟩

theorem traced_later {w : World Body} (h : Traced (BoundFor sys) (ServedAt sys) w)
    (hlater : Later sys sys') : Traced (BoundFor sys') (ServedAt sys') w :=
  h.mono (fun _ _ hb => hb.later hlater) (fun _ hs => hs.later hlater)

/-! ### The tasks of a node -/

/-- A probe has no container while it waits, and when it ends an answer was aggregated into
it. -/
structure Tidy (s : NetState Body) (issued : List Issued) : Prop where
  origins : ∀ key o, (key, o) ∈ s.sendMap.entries → o.sendId < s.nextSend ∧
    ∀ i ∈ issued, i.sendId = o.sendId → o.hasContainer = false
  ended : ∀ o ∈ s.ended, o.sendId < s.nextSend ∧
    ∀ i ∈ issued, i.sendId = o.sendId →
      ∃ x ∈ s.aggregated, x.2 = o.sendId ∧ x.1.body.probeResult = o.body.probeResult
  issued : ∀ i ∈ issued, i.sendId < s.nextSend

theorem Tidy.ends {s s' : NetState Body} {issued : List Issued} (h : Tidy s issued)
    (hends : Ends Body.aggregate s s') : Tidy s' issued := by
  refine ⟨?_, ?_, ?_⟩
  · intro key o' ho'
    obtain ⟨o, ho, hid, hcont⟩ := hends.sendMap key o' ho'
    rw [hends.nextSend, ← hid, ← hcont]
    exact h.origins key o ho
  · intro o ho
    rw [hends.nextSend]
    rcases hends.ended o ho with hold | ⟨key, origin, hmem, hid, hhow⟩
    · obtain ⟨hlt, hagg⟩ := h.ended o hold
      refine ⟨hlt, ?_⟩
      intro i hi hi'
      obtain ⟨x, hx, hxid, hxres⟩ := hagg i hi hi'
      exact ⟨x, hends.aggregated x hx, hxid, hxres⟩
    · obtain ⟨hlt, hnone⟩ := h.origins key origin hmem
      refine ⟨hid ▸ hlt, ?_⟩
      intro i hi hi'
      rcases hhow with hcont | ⟨x, hx, hxid, body, hbody⟩
      · rw [hnone i hi (hi'.trans hid.symm)] at hcont
        simp at hcont
      · refine ⟨x, hx, hxid, ?_⟩
        rw [hbody]
        rfl
  · intro i hi
    rw [hends.nextSend]
    exact h.issued i hi

/-- What was taken up was sent by the detector or a helper, and a helper sends a `Heartbeat` to
the node it was asked about. -/
structure Filed (s : Swim) (issued : List Issued) (helped : List Helping) : Prop where
  recorded : s.Recorded
  issued : ∀ i ∈ issued, (i.future, i.task) ∈ s.sent
  helped : ∀ h ∈ helped, (h.future, .heartbeat h.task.body.targetNodeId) ∈ s.sent

theorem Filed.follows {s' : Swim} {issued : List Issued} {helped : List Helping}
    (h : Filed s issued helped) (hs : Swim.Follows s s') : Filed s' issued helped :=
  ⟨hs.recorded, fun i hi => hs.sent _ (h.issued i hi), fun x hx => hs.sent _ (h.helped x hx)⟩

/-! ### The invariant -/

structure Sound (sys : System) : Prop where
  own : Own sys.net
  traced : Traced (BoundFor sys) (ServedAt sys) sys.net
  tidy : ∀ n, Tidy (sys.net.nodes n) (sys.issued n)
  filed : ∀ n, Filed (sys.detector n) (sys.issued n) (sys.helped n)
  reported : ∀ x ∈ sys.net.served, x.2.body.method = .probeRequest → x.2.body.probeResult = 0 →
    Reported sys x.1 x.2

theorem sound_start (hosts : UInt32 → AMap Node Host) : Sound (start hosts) where
  own := own_start hosts
  traced := by
    refine ⟨fun n => ⟨?_, ?_, ?_, ?_, ?_, ?_⟩, ?_, ?_⟩ <;> simp [start, World.start, NetState.start]
  tidy n := by
    refine ⟨?_, ?_, ?_⟩ <;> simp [start, World.start, NetState.start, AMap.empty]
  filed n := by
    refine ⟨⟨?_, ?_, ?_, ?_⟩, ?_, ?_⟩ <;> simp [start, Swim.start]
  reported := by simp [start, World.start]

section

variable {f : NetState Body → NetState Body} {w₁ : World Body}

/-- A step of a node that starts no task; `w₁` is the world without some of the messages. -/
theorem Sound.runAt (h : Sound sys) (hnodes : w₁.nodes = sys.net.nodes)
    (hrequests : ∀ x ∈ w₁.requests, x ∈ sys.net.requests)
    (hreplies : ∀ x ∈ w₁.replies, x ∈ sys.net.replies) (hserved : w₁.served = sys.net.served)
    (hown : Own (w₁.runAt n f))
    (hcarries : Carries (BoundFor sys) (ServedAt sys) n.toUInt64 (f (sys.net.nodes n)))
    (hends : Ends Body.aggregate (sys.net.nodes n) (f (sys.net.nodes n))) :
    Sound { sys with net := w₁.runAt n f } := by
  have hnode : ∀ m, ((w₁.runAt n f).nodes m = sys.net.nodes m) ∨
      m = n ∧ (w₁.runAt n f).nodes m =
        { f (sys.net.nodes n) with requests := [], replies := [] } := by
    intro m
    by_cases hm : m = n
    · rw [hm, runAt_self, hnodes]
      exact Or.inr ⟨rfl, rfl⟩
    · rw [runAt_other w₁ hm, hnodes]
      exact Or.inl rfl
  have hlater : Later sys { sys with net := w₁.runAt n f } := by
    refine ⟨?_, fun m => ⟨[], by simp, by simp⟩, ?_, ?_, fun m x hx => hx⟩
    · intro m
      rcases hnode m with heq | ⟨hm, heq⟩
      · exact Nat.le_of_eq (by rw [heq])
      · rw [hm] at heq ⊢
        exact Nat.le_of_eq (by rw [heq]; exact hends.nextSend.symm)
    · intro m o ho
      rcases hnode m with heq | ⟨hm, heq⟩
      · show o ∈ ((w₁.runAt n f).nodes m).ended
        rw [heq]
        exact ho
      · rw [hm] at heq ho ⊢
        show o ∈ ((w₁.runAt n f).nodes n).ended
        rw [heq]
        exact hends.kept o ho
    · intro x hx
      show x ∈ w₁.served
      rw [hserved]
      exact hx
  refine ⟨hown, ?_, ?_, h.filed, ?_⟩
  · refine traced_later ?_ hlater
    refine (h.traced.sub hnodes hrequests hreplies).runAt ?_
    rw [hnodes]
    exact hcarries
  · intro m
    rcases hnode m with heq | ⟨hm, heq⟩
    · show Tidy ((w₁.runAt n f).nodes m) _
      rw [heq]
      exact h.tidy m
    · show Tidy ((w₁.runAt n f).nodes m) _
      rw [heq, hm]
      have hnext := (h.tidy n).ends hends
      exact ⟨hnext.origins, hnext.ended, hnext.issued⟩
  · intro x hx hmethod hzero
    have hx : x ∈ w₁.served := hx
    rw [hserved] at hx
    exact (h.reported x hx hmethod hzero).later hlater

/-- Some messages fewer. -/
theorem Sound.lose (h : Sound sys) (hnodes : w₁.nodes = sys.net.nodes)
    (hrequests : ∀ x ∈ w₁.requests, x ∈ sys.net.requests)
    (hreplies : ∀ x ∈ w₁.replies, x ∈ sys.net.replies) (hserved : w₁.served = sys.net.served) :
    Sound { sys with net := w₁ } := by
  have hlater : Later sys { sys with net := w₁ } := by
    refine ⟨?_, fun m => ⟨[], by simp, by simp⟩, ?_, ?_, fun m x hx => hx⟩
    · intro m
      exact Nat.le_of_eq (by rw [hnodes])
    · intro m o ho
      rw [hnodes]
      exact ho
    · intro x hx
      rw [hserved]
      exact hx
  refine ⟨own_sub h.own hnodes hrequests hreplies, ?_, ?_, h.filed, ?_⟩
  · exact traced_later (h.traced.sub hnodes hrequests hreplies) hlater
  · intro m
    rw [hnodes]
    exact h.tidy m
  · intro x hx hmethod hzero
    rw [hserved] at hx
    exact (h.reported x hx hmethod hzero).later hlater

end

/-! ### Tasks that are through -/

/-- One more answer.  A helper that reports success must have seen it. -/
theorem Sound.serve (h : Sound sys) {x : UInt32 × NetTask Body}
    (hx : x.2.body.method = .probeRequest → x.2.body.probeResult = 0 → Reported sys x.1 x.2) :
    Sound { sys with net := { sys.net with served := sys.net.served ++ [x] } } := by
  have hlater : Later sys { sys with net := { sys.net with served := sys.net.served ++ [x] } } :=
    ⟨fun _ => Nat.le_refl _, fun _ => ⟨[], by simp, by simp⟩, fun _ _ ho => ho,
      fun _ hy => List.mem_append_left _ hy, fun _ _ hy => hy⟩
  refine ⟨own_sub h.own rfl (fun _ hy => hy) (fun _ hy => hy), ?_, h.tidy, h.filed, ?_⟩
  · refine traced_later ?_ hlater
    exact h.traced.sub rfl (fun _ hy => hy) (fun _ hy => hy)
  · intro y hy hmethod hzero
    rcases List.mem_append.mp hy with hy | hy
    · exact (h.reported y hy hmethod hzero).later hlater
    · have hy := List.mem_singleton.mp hy
      rw [hy] at hmethod hzero ⊢
      exact (hx hmethod hzero).later hlater

theorem Sound.finish (h : Sound sys) {body : Body} {task : NetTask Body}
    (hget : (sys.net.nodes n).dispatched[i]? = some task)
    (hprobe : ∀ p, IsProbe p task → IsProbe p { task with body := body })
    (hreport : body.method = .probeRequest → body.probeResult = 0 →
      Reported sys n { task with body := body }) :
    Sound { sys with net := sys.net.apply (.finish n env i body) } := by
  have hserve := @Sound.serve sys h (n, { task with body := body }) hreport
  have hown := @own_apply Body sys.net (.finish n env i body) h.own trivial
  have hnet : sys.net.apply (.finish n env i body) =
      { sys.net with served := sys.net.served ++ [(n, { task with body := body })] }.runAt n
        fun s => s.finish env i body := by
    rw [World.apply, World.finish, hget]
    rfl
  rw [hnet] at hown ⊢
  refine hserve.runAt rfl (fun _ hx => hx) (fun _ hx => hx) rfl hown ?_ ends_finish
  refine carries_finish (hserve.traced.nodes n) ?_
  intro task' htask'
  have heq : task' = task := Option.some.inj (htask'.symm.trans hget)
  obtain ⟨hbound, hprobed⟩ := (hserve.traced.nodes n).dispatched task (List.mem_of_getElem? hget)
  rw [heq]
  refine ⟨⟨n, List.mem_append_right _ (List.mem_singleton_self _), ?_⟩, ?_⟩
  · intro hphysical
    exact UInt32.toUInt64_inj.mp (hbound hphysical)
  · intro m hm
    obtain ⟨hlt, hissued⟩ := hprobed m hm
    exact ⟨hlt, fun i hi hid => hprobe _ (hissued i hi hid)⟩

/-! ### Tasks that are sent -/

section

variable {addr : UInt64} {task : Outgoing Body} {new : List Issued}

/-- A request that `SendIn` makes. -/
theorem boundFor_copy (hnext : (sys'.net.nodes n).nextSend = (sys.net.nodes n).nextSend + 1)
    (hissued : sys'.issued n = sys.issued n ++ new)
    (hold : ∀ i ∈ sys.issued n, i.sendId < (sys.net.nodes n).nextSend)
    (hnew : ∀ i ∈ new, task = i.task.outgoing) {query : PoolQuery} {target : Node}
    {s : NetState Body} (hquery : query ∈ task.poolQueries)
    (htarget : s.targetNodeId env task.poolId query = some target)
    (hcopy : CopyOf n.toUInt64 task (sys.net.nodes n).nextSend query t) :
    BoundFor sys' target t := by
  constructor
  · intro hphysical
    rw [hcopy.poolQuery] at hphysical ⊢
    have hmode : query.routingMode = .physical := hphysical
    rw [targetNodeId, hmode] at htarget
    exact (Option.some.inj htarget).symm
  · intro m hm
    have hmn : m = n := UInt32.toUInt64_inj.mp (hm.symm.trans hcopy.sender)
    rw [hmn, hnext, hcopy.sendId]
    refine ⟨Nat.lt_succ_self _, ?_⟩
    intro i hi hid
    rw [hissued] at hi
    rcases List.mem_append.mp hi with hi | hi
    · have hlt := hold i hi
      omega
    · have htask := hnew i hi
      rw [htask] at hquery
      have hq := List.mem_singleton.mp hquery
      constructor
      · rw [hcopy.poolQuery, hq]
        rfl
      · rw [hcopy.poolQuery, hq]
        rfl
      · rw [hcopy.body, htask]
        rfl
      · rw [hcopy.body, htask]
        rfl

theorem Tidy.sendIn {s : NetState Body} {issued : List Issued} (h : Tidy s issued)
    (hpool : env.hasContainer task.poolId = true) (hbound : task.poolQueries.length ≤ 2 ^ 32)
    (hnew : ∀ i ∈ new, i.sendId = s.nextSend ∧ task.hasContainer = false)
    (horiginates : Originates (s.sendIn env addr task) addr task s.nextSend) :
    Tidy (s.sendIn env addr task) (issued ++ new) := by
  obtain ⟨sent, queued, hmade⟩ := @sendIn_made Body env addr task s hpool hbound
  obtain ⟨origin, hfind, _, _, hcont, hid⟩ := horiginates
  obtain ⟨_, _, _, _, _, _, hwrites⟩ := @sendIn_writes Body env s addr task
  have hnext : (s.sendIn env addr task).nextSend = s.nextSend + 1 := sendIn_nextSend hpool
  have hended : (s.sendIn env addr task).ended = s.ended := by rw [hwrites]
  have hagg : (s.sendIn env addr task).aggregated = s.aggregated := by rw [hwrites]
  refine ⟨?_, ?_, ?_⟩
  · intro key o ho
    rw [hnext]
    have hcases : o = origin ∨ (key, o) ∈ s.sendMap.entries := by
      have hself : key = addr → o = origin := by
        intro hkey
        rw [hkey] at ho
        exact AMap.mem_unique _ ho (AMap.find?_eq_some_iff.mp hfind)
      rcases hmade.others key o ho with hkey | ho
      · exact Or.inl (hself hkey)
      · rcases AMap.mem_insertOrAssign.mp ho with ⟨hkey, _⟩ | ⟨_, ho⟩
        · exact Or.inl (hself hkey)
        · exact Or.inr ho
    rcases hcases with heq | hold
    · rw [heq, hid]
      refine ⟨Nat.lt_succ_self _, ?_⟩
      intro i hi hi'
      rcases List.mem_append.mp hi with hi | hi
      · have hlt := h.issued i hi
        omega
      · rw [hcont]
        exact (hnew i hi).2
    · obtain ⟨hlt, hnone⟩ := h.origins key o hold
      refine ⟨Nat.lt_succ_of_lt hlt, ?_⟩
      intro i hi hi'
      rcases List.mem_append.mp hi with hi | hi
      · exact hnone i hi hi'
      · have heq := (hnew i hi).1
        omega
  · intro o ho
    rw [hended] at ho
    obtain ⟨hlt, hsome⟩ := h.ended o ho
    rw [hnext, hagg]
    refine ⟨Nat.lt_succ_of_lt hlt, ?_⟩
    intro i hi hi'
    rcases List.mem_append.mp hi with hi | hi
    · exact hsome i hi hi'
    · have heq := (hnew i hi).1
      omega
  · intro i hi
    rw [hnext]
    rcases List.mem_append.mp hi with hi | hi
    · exact Nat.lt_succ_of_lt (h.issued i hi)
    · rw [(hnew i hi).1]
      exact Nat.lt_succ_self _

/-- `SendIn`, of a probe or of some other task. -/
theorem Sound.sendIn (h : Sound sys) (hpool : env.hasContainer task.poolId = true)
    (hbound : task.poolQueries.length ≤ 2 ^ 32) (hfresh : FreshAddress sys.net n addr)
    (hnew : ∀ i ∈ new, i.sendId = (sys.net.nodes n).nextSend ∧ task = i.task.outgoing ∧
      (i.future, i.task) ∈ (sys.detector n).sent) :
    Sound { sys with
      net := sys.net.runAt n fun s => s.sendIn env addr task
      issued := Function.update sys.issued n (sys.issued n ++ new) } := by
  have hself : (sys.net.runAt n fun s => s.sendIn env addr task).nodes n =
      { (sys.net.nodes n).sendIn env addr task with requests := [], replies := [] } :=
    runAt_self sys.net
  have hnext : ((sys.net.runAt n fun s => s.sendIn env addr task).nodes n).nextSend =
      (sys.net.nodes n).nextSend + 1 := by
    rw [hself]
    exact sendIn_nextSend hpool
  generalize hsys : { sys with
    net := sys.net.runAt n fun s => s.sendIn env addr task
    issued := Function.update sys.issued n (sys.issued n ++ new) } = sys'
  have hnet : sys'.net = sys.net.runAt n fun s => s.sendIn env addr task := by rw [← hsys]
  have hissued : sys'.issued = Function.update sys.issued n (sys.issued n ++ new) := by rw [← hsys]
  have hdetector : sys'.detector = sys.detector := by rw [← hsys]
  have hhelped : sys'.helped = sys.helped := by rw [← hsys]
  have hlater : Later sys sys' := by
    refine ⟨?_, ?_, ?_, ?_, ?_⟩
    · intro m
      rw [hnet]
      by_cases hm : m = n
      · rw [hm, hnext]
        exact Nat.le_succ _
      · rw [runAt_other sys.net hm]
    · intro m
      rw [hissued]
      by_cases hm : m = n
      · rw [hm, Function.update_self]
        exact ⟨new, rfl, fun i hi => Nat.le_of_eq (hnew i hi).1.symm⟩
      · rw [Function.update_of_ne hm]
        exact ⟨[], by simp, by simp⟩
    · intro m o ho
      rw [hnet]
      by_cases hm : m = n
      · obtain ⟨_, _, _, _, _, _, hwrites⟩ := @sendIn_writes Body env (sys.net.nodes n) addr task
        rw [hm] at ho ⊢
        rw [hself, hwrites]
        exact ho
      · rw [runAt_other sys.net hm]
        exact ho
    · intro x hx
      rw [hnet]
      exact hx
    · intro m x hx
      rw [hhelped]
      exact hx
  have htraced : Traced (BoundFor sys') (ServedAt sys') sys.net := traced_later h.traced hlater
  obtain ⟨hcarries, horiginates⟩ := @carries_sendIn Body env (sys.net.nodes n) (BoundFor sys')
    (ServedAt sys') n.toUInt64 addr task (htraced.nodes n) hpool (by
      intro query hquery target t htarget hcopy
      rw [h.own.nodeId n] at hcopy
      refine boundFor_copy (by rw [hnet]; exact hnext)
        (by rw [hissued, Function.update_self]) (h.tidy n).issued
        (fun i hi => (hnew i hi).2.1) hquery htarget hcopy)
  refine ⟨?_, ?_, ?_, ?_, ?_⟩
  · rw [hnet]
    exact own_sendIn h.own hpool hbound hfresh
  · rw [hnet]
    exact htraced.runAt hcarries
  · intro m
    rw [hnet, hissued]
    by_cases hm : m = n
    · rw [hm, hself, Function.update_self]
      have htidy := (h.tidy n).sendIn hpool hbound (fun i hi => by
        obtain ⟨hid, htask, _⟩ := hnew i hi
        rw [htask]
        exact ⟨hid, rfl⟩) horiginates
      exact ⟨htidy.origins, htidy.ended, htidy.issued⟩
    · rw [runAt_other sys.net hm, Function.update_of_ne hm]
      exact h.tidy m
  · intro m
    rw [hdetector, hissued, hhelped]
    by_cases hm : m = n
    · rw [hm, Function.update_self]
      refine ⟨(h.filed n).recorded, ?_, (h.filed n).helped⟩
      intro i hi
      rcases List.mem_append.mp hi with hi | hi
      · exact (h.filed n).issued i hi
      · exact (hnew i hi).2.2
    · rw [Function.update_of_ne hm]
      exact h.filed m
  · intro x hx hmethod hzero
    rw [hnet] at hx
    exact (h.reported x hx hmethod hzero).later hlater

end

/-! ### Steps of the whole system -/

/-- The detectors and the helpers, on the same network. -/
theorem Sound.file (h : Sound sys) {detector : UInt32 → Swim} {helped : UInt32 → List Helping}
    (hfiled : ∀ m, Filed (detector m) (sys.issued m) (helped m))
    (hhelped : ∀ m, ∀ x ∈ sys.helped m, x ∈ helped m) :
    Sound { sys with detector := detector, helped := helped } := by
  have hlater : Later sys { sys with detector := detector, helped := helped } :=
    ⟨fun _ => Nat.le_refl _, fun _ => ⟨[], by simp, by simp⟩, fun _ _ ho => ho, fun _ hx => hx,
      hhelped⟩
  refine ⟨h.own, traced_later h.traced hlater, h.tidy, hfiled, ?_⟩
  intro x hx hmethod hzero
  exact (h.reported x hx hmethod hzero).later hlater

/-- Only the host table of a node changes. -/
theorem Sound.ipc (h : Sound sys) {f : NetState Body → IpcManager}
    (hid : (f (sys.net.nodes n)).nodeId = (sys.net.nodes n).ipc.nodeId) :
    Sound { sys with net := sys.net.runAt n fun s => { s with ipc := f s } } := by
  refine h.runAt rfl (fun _ hx => hx) (fun _ hx => hx) rfl ?_ ?_ ?_
  · exact own_quiet (f := fun s => { s with ipc := f s }) h.own (effect_ipc _ hid _ _)
  · exact carries_ipc (h.traced.nodes n) _
  · exact ends_frame rfl rfl rfl rfl

/-- `SendIn` does nothing for a pool without a container. -/
theorem Sound.unsent (h : Sound sys) {addr : UInt64} {task : Outgoing Body}
    (hpool : ¬env.hasContainer task.poolId = true) :
    Sound { sys with net := sys.net.apply (.sendIn n env addr task) } := by
  have hsame : (sys.net.nodes n).sendIn env addr task = sys.net.nodes n := by
    rw [NetState.sendIn, if_neg hpool]
  refine @Sound.runAt sys n (fun s => s.sendIn env addr task) sys.net h rfl (fun _ hx => hx)
    (fun _ hx => hx) rfl ?_ ?_ ?_
  · exact @own_apply Body sys.net (.sendIn n env addr task) h.own (fun hpos => absurd hpos hpool)
  · rw [hsame]
    exact h.traced.nodes n
  · rw [hsame]
    exact ends_frame rfl rfl rfl rfl

theorem Sound.detect (h : Sound sys) (hs : Swim.Follows (sys.detector n) s)
    (hid : s.ipc.nodeId = (sys.net.nodes n).ipc.nodeId) : Sound (sys.detect n s) := by
  have hnet := @Sound.ipc sys n h (fun _ => s.ipc) hid
  refine hnet.file ?_ fun _ _ hx => hx
  intro m
  by_cases hm : m = n
  · rw [hm, Function.update_self]
    exact (h.filed n).follows hs
  · rw [Function.update_of_ne hm]
    exact h.filed m

theorem swim_follows (h : Sound sys) (n : UInt32) : Swim.Follows (sys.detector n) (sys.swim n) :=
  (h.filed n).recorded.congr rfl rfl rfl rfl

/-- A step of the queues, of the wire, or of a task that is no probe. -/
theorem Sound.stepNet (h : Sound sys) {op : WorldOp Body} (hop : World.Fresh sys.net op) :
    Sound { sys with net := sys.stepNet op } := by
  cases op with
  | sendIn n env addr task =>
    by_cases hpool : env.hasContainer task.poolId = true
    · obtain ⟨hbound, hfresh⟩ := hop hpool
      have hsend := @Sound.sendIn sys n env addr
        { task with body := { task.body with method := .other } } [] h hpool hbound hfresh (by simp)
      rw [List.append_nil, Function.update_eq_self] at hsend
      exact hsend
    · exact h.unsent hpool
  | finish n env i body =>
    unfold System.stepNet
    dsimp only
    split
    · exact h
    · rename_i task hget
      split
      · rename_i hother
        refine h.finish hget ?_ (by simp)
        -- a probe has another method
        intro p hp
        have hmethod := hp.method
        rw [hother] at hmethod
        cases p <;> simp [ProbeTask.body] at hmethod
      · exact h
  | processRetryQueues n env =>
    exact h.runAt rfl (fun _ hx => hx) (fun _ hx => hx) rfl
      (@own_apply Body sys.net (.processRetryQueues n env) h.own trivial)
      (carries_retry (boundFor_reroutes sys) (h.traced.nodes n)) ends_retry
  | scanSendMapTimeouts n env =>
    exact h.runAt rfl (fun _ hx => hx) (fun _ hx => hx) rfl
      (@own_apply Body sys.net (.scanSendMapTimeouts n env) h.own trivial)
      (carries_scan (h.traced.nodes n)) ends_scan
  | setNodeState n now node state => exact h
  | setDead n now node =>
    exact @Sound.ipc sys n h (fun s => s.ipc.setDead now node) (setDead_nodeId _ _ _)
  | setAlive n now node =>
    exact @Sound.ipc sys n h (fun s => s.ipc.setAlive now node) (setAlive_nodeId _ _ _)
  | recvIn k env =>
    have hown := @own_apply Body sys.net (.recvIn k env) h.own trivial
    have hsub : ∀ y ∈ sys.net.requests.eraseIdx k, y ∈ sys.net.requests :=
      fun y hy => List.mem_of_mem_eraseIdx hy
    unfold System.stepNet
    simp only [World.apply, World.recvIn] at hown ⊢
    cases hget : sys.net.requests[k]? with
    | none => exact h
    | some x =>
      simp only [hget] at hown ⊢
      split
      · rename_i hdst
        rw [if_pos hdst] at hown
        refine h.runAt rfl hsub (fun _ hy => hy) rfl hown ?_ ends_recvIn
        refine carries_recvIn (h.traced.nodes _) ?_
        rw [hdst]
        exact h.traced.requests x (List.mem_of_getElem? hget)
      · exact h.lose rfl hsub (fun _ hy => hy) rfl
  | recvOut k env =>
    have hown := @own_apply Body sys.net
      (.recvOut k { env with aggregate := Body.aggregate }) h.own trivial
    have hsub : ∀ y ∈ sys.net.replies.eraseIdx k, y ∈ sys.net.replies :=
      fun y hy => List.mem_of_mem_eraseIdx hy
    unfold System.stepNet
    simp only [World.apply, World.recvOut] at hown ⊢
    cases hget : sys.net.replies[k]? with
    | none => exact h
    | some x =>
      simp only [hget] at hown ⊢
      split
      · rename_i hdst
        rw [if_pos hdst] at hown
        refine h.runAt rfl (fun _ hy => hy) hsub rfl hown ?_
          (@ends_recvOut Body { env with aggregate := Body.aggregate } _ _)
        exact carries_recvOut (h.traced.nodes _)
          (h.traced.replies x (List.mem_of_getElem? hget))
      · exact h.lose rfl (fun _ hy => hy) hsub rfl
  | loseRequest k =>
    exact h.lose rfl (fun _ hy => List.mem_of_mem_eraseIdx hy) (fun _ hy => hy) rfl
  | loseReply k =>
    exact h.lose rfl (fun _ hy => hy) (fun _ hy => List.mem_of_mem_eraseIdx hy) rfl

/-- The address `SendIn` is given is fresh. -/
def Fresh (sys : System) : SystemOp → Prop
  | .net op => World.Fresh sys.net op
  | .sendProbe n _ env addr => env.hasContainer adminPool = true → FreshAddress sys.net n addr
  | .heartbeatProbe _ _ _ | .resumeProbe _ _ | .heartbeat _ _ _ | .startProbeRequest _ _ _
  | .endProbeRequest _ _ _ _ _ => True

theorem Sound.sendProbe (h : Sound sys) {k : Nat} {addr : UInt64}
    (hfresh : env.hasContainer adminPool = true → FreshAddress sys.net n addr) :
    Sound (sys.sendProbe n k env addr) := by
  unfold System.sendProbe
  split
  · exact h
  · rename_i future task hget
    split
    · exact h
    · by_cases hpool : env.hasContainer adminPool = true
      · rw [if_pos hpool]
        refine h.sendIn hpool (by simp [ProbeTask.outgoing]) (hfresh hpool) ?_
        intro i hi
        rw [List.mem_singleton.mp hi]
        exact ⟨rfl, rfl, List.mem_of_getElem? hget⟩
      · rw [if_neg hpool]
        exact h.unsent hpool

theorem Sound.startProbeRequest (h : Sound sys) {now : Time} :
    Sound (sys.startProbeRequest n i now) := by
  unfold System.startProbeRequest
  split
  · exact h
  · rename_i task hget
    split
    · have hsend := (h.filed n).recorded.send (.heartbeat task.body.targetNodeId)
        (sys.detector n).pendingDirectProbes (sys.detector n).pendingIndirectProbes
        (fun p hp => Or.inl hp) (fun p hp => Or.inl hp)
      refine h.file ?_ ?_
      · intro m
        by_cases hm : m = n
        · rw [hm, Function.update_self, Function.update_self]
          obtain ⟨hrec, hissued, hhelped⟩ := (h.filed n).follows hsend
          refine ⟨hrec, hissued, ?_⟩
          intro x hx
          rcases List.mem_append.mp hx with hx | hx
          · exact hhelped x hx
          · rw [List.mem_singleton.mp hx]
            exact List.mem_append_right _ (List.mem_singleton_self _)
        · rw [Function.update_of_ne hm, Function.update_of_ne hm]
          exact h.filed m
      · intro m x hx
        by_cases hm : m = n
        · rw [hm] at hx
          rw [hm, Function.update_self]
          exact List.mem_append_left _ hx
        · rw [Function.update_of_ne hm]
          exact hx
    · exact h

theorem Sound.endProbeRequest (h : Sound sys) {j : Nat} {now : Time} :
    Sound (sys.endProbeRequest n i j env now) := by
  have hprobe : ∀ (task : NetTask Body) (r : Int) p, IsProbe p task →
      IsProbe p { task with body := { task.body with probeResult := r } } :=
    fun _ _ _ hp => ⟨hp.mode, hp.nodeId, hp.method, hp.target⟩
  unfold System.endProbeRequest
  split
  · rename_i task helping hget hhelping
    split
    · rename_i heq
      split
      · rename_i hdone
        refine h.finish hget (hprobe task 0) ?_
        intro _ _
        refine ⟨helping, List.mem_of_getElem? hhelping, ?_, ?_, hdone⟩
        · rw [heq]
          exact ⟨rfl, rfl, rfl, rfl, rfl⟩
        · rw [heq]
      · split
        · exact h.finish hget (hprobe task (-1)) (by simp)
        · exact h
    · exact h
  · exact h

theorem Sound.apply (h : Sound sys) {op : SystemOp} (hop : Fresh sys op) : Sound (sys.apply op) := by
  cases op with
  | net op => exact h.stepNet hop
  | heartbeatProbe n env now =>
    unfold System.apply
    dsimp only
    split
    · have hswim := swim_follows h n
      exact h.detect (hswim.trans hswim.recorded.heartbeatProbe) Swim.heartbeatProbe_nodeId
    · exact h
  | resumeProbe n env =>
    have hswim := swim_follows h n
    exact h.detect (hswim.trans hswim.recorded.resumeProbe) Swim.resumeProbe_nodeId
  | sendProbe n k env addr => exact h.sendProbe hop
  | heartbeat n i env =>
    unfold System.apply System.heartbeat
    dsimp only
    split
    · exact h
    · rename_i task hget
      split
      · rename_i hmethod
        refine h.finish hget (fun p hp => hp) ?_
        intro hrequest
        rw [hmethod] at hrequest
        simp at hrequest
      · exact h
  | startProbeRequest n i now => exact h.startProbeRequest
  | endProbeRequest n i j env now => exact h.endProbeRequest

/-! ### Proof of life -/

/-- The node answered the `Heartbeat` that was sent to it under this future. -/
def Answered (sys : System) (n : UInt32) (future : Nat) (node : Node) : Prop :=
  ∃ i ∈ sys.issued n, i.future = future ∧ i.task = .heartbeat node ∧
    ∃ t, (node.toUInt32, t) ∈ sys.net.served ∧ t.sender = n.toUInt64 ∧ t.sendId = i.sendId

/-- The helper answered the `ProbeRequest` that was sent to it under this future with 0, and the
node answered the `Heartbeat` the helper sent to it for that request. -/
def AnsweredVia (sys : System) (n : UInt32) (future : Nat) (helper node : Node) : Prop :=
  ∃ i ∈ sys.issued n, i.future = future ∧ i.task = .probeRequest helper node ∧
    ∃ t, (helper.toUInt32, t) ∈ sys.net.served ∧ t.sender = n.toUInt64 ∧ t.sendId = i.sendId ∧
      t.body.probeResult = 0 ∧ ∃ h ∈ sys.helped helper.toUInt32, SameRequest h.task t ∧
        Answered sys helper.toUInt32 h.future node

theorem result_eq_some {r : Int} (h : sys.result n future = some r) :
    ∃ i ∈ sys.issued n, i.future = future ∧
      ∃ o ∈ (sys.net.nodes n).ended, o.sendId = i.sendId ∧ o.body.probeResult = r := by
  obtain ⟨o, ho, hr⟩ := Option.map_eq_some_iff.mp h
  unfold ended? at ho
  split at ho
  · simp at ho
  · rename_i i hfind
    refine ⟨i, List.mem_of_find?_eq_some hfind, by simpa using List.find?_some hfind, o,
      List.mem_of_find?_eq_some ho, by simpa using List.find?_some ho, hr⟩

/-- A probe that is complete was answered by the node it went to. -/
theorem Sound.answer (h : Sound sys) {r : Int} (hres : sys.result n future = some r) :
    ∃ i ∈ sys.issued n, i.future = future ∧ ∃ t, (i.task.dest.toUInt32, t) ∈ sys.net.served ∧
      t.sender = n.toUInt64 ∧ t.sendId = i.sendId ∧ IsProbe i.task t ∧ t.body.probeResult = r := by
  obtain ⟨i, hi, hfuture, o, ho, hid, hr⟩ := result_eq_some hres
  obtain ⟨x, hx, hxid, hxres⟩ := ((h.tidy n).ended o ho).2 i hi hid.symm
  obtain ⟨hsender, hsend⟩ := h.own.aggregated n x hx
  obtain ⟨⟨m, hserved, hm⟩, hprobed⟩ := (h.traced.nodes n).aggregated x hx
  have hxi : x.1.sendId = i.sendId := hsend.trans (hxid.trans hid)
  have hprobe := (hprobed n hsender).2 i hi hxi.symm
  refine ⟨i, hi, hfuture, x.1, ?_, hsender, hxi, hprobe, hxres.trans hr⟩
  rw [← hprobe.nodeId, ← hm hprobe.mode]
  exact hserved

theorem Sound.answered (h : Sound sys) {node : Node}
    (hsent : (future, .heartbeat node) ∈ (sys.detector n).sent)
    (hdone : (sys.result n future).isSome = true) : Answered sys n future node := by
  obtain ⟨r, hres⟩ := Option.isSome_iff_exists.mp hdone
  obtain ⟨i, hi, hfuture, t, hserved, hsender, hid, _, _⟩ := h.answer hres
  have htask : i.task = .heartbeat node := congrArg Prod.snd
    ((h.filed n).recorded.unique _ ((h.filed n).issued i hi) _ hsent hfuture)
  rw [htask] at hserved
  exact ⟨i, hi, hfuture, htask, t, hserved, hsender, hid⟩

theorem Sound.answeredVia (h : Sound sys) {helper node : Node}
    (hs : Swim.Follows (sys.detector n) s) (hsent : (future, .probeRequest helper node) ∈ s.sent)
    (hzero : sys.result n future = some 0) : AnsweredVia sys n future helper node := by
  obtain ⟨i, hi, hfuture, t, hserved, hsender, hid, hprobe, hres⟩ := h.answer hzero
  have htask : i.task = .probeRequest helper node := congrArg Prod.snd
    (hs.recorded.unique _ (hs.sent _ ((h.filed n).issued i hi)) _ hsent hfuture)
  rw [htask] at hserved hprobe
  obtain ⟨helping, hmem, hsame, htarget, hdone⟩ := h.reported _ hserved hprobe.method hres
  have htarget : helping.task.body.targetNodeId = node := htarget.trans hprobe.target
  refine ⟨i, hi, hfuture, htask, t, hserved, hsender, hid, hres, helping, hmem, hsame, ?_⟩
  have hfiled := (h.filed helper.toUInt32).helped helping hmem
  rw [htarget] at hfiled
  exact h.answered hfiled hdone

/-- A direct probe that is found complete was answered by its node, an indirect one that is
found to have brought 0 by its helper and by its node, and `HeartbeatProbe` sets a node alive
for such a probe only. -/
structure ProofOfLife (sys : System) : Prop where
  direct : ∀ n, ∀ p ∈ (sys.swim n).pendingDirectProbes, (sys.result n p.future).isSome = true →
    Answered sys n p.future p.targetNodeId
  indirect : ∀ n (env : ProbeEnv) now,
    ∀ p ∈ ((sys.swim n).checkDirectProbes { env with result := sys.result n } now).pendingIndirectProbes,
      sys.result n p.future = some 0 → AnsweredVia sys n p.future p.helperNodeId p.targetNodeId
  alive : ∀ n env now node, (sys.swim n).ipc.stateOf node ≠ some .alive →
    ((sys.apply (.heartbeatProbe n env now)).swim n).ipc.stateOf node = some .alive →
      ∃ future, Answered sys n future node ∨ ∃ helper, AnsweredVia sys n future helper node
  resumed : ∀ n env node, (sys.swim n).ipc.stateOf node ≠ some .alive →
    ((sys.apply (.resumeProbe n env)).swim n).ipc.stateOf node ≠ some .alive

theorem detect_ipc (sys : System) (n : UInt32) (s : Swim) : ((sys.detect n s).swim n).ipc = s.ipc := by
  simp [detect, swim]

theorem Sound.proofOfLife (h : Sound sys) : ProofOfLife sys := by
  have hswim := swim_follows h
  have hdirect : ∀ n, ∀ p ∈ (sys.swim n).pendingDirectProbes,
      (sys.result n p.future).isSome = true → Answered sys n p.future p.targetNodeId :=
    fun n p hp hdone => h.answered ((h.filed n).recorded.direct p hp) hdone
  have hindirect : ∀ n (env : ProbeEnv) now, ∀ p ∈ ((sys.swim n).checkDirectProbes
      { env with result := sys.result n } now).pendingIndirectProbes,
      sys.result n p.future = some 0 → AnsweredVia sys n p.future p.helperNodeId p.targetNodeId := by
    intro n env now p hp hzero
    have hfollows := (hswim n).trans (@Swim.Recorded.checkDirectProbes
      { env with result := sys.result n } now (sys.swim n) (hswim n).recorded)
    exact h.answeredVia hfollows (hfollows.recorded.indirect p hp) hzero
  refine ⟨hdirect, hindirect, ?_, ?_⟩
  · intro n env now node hbefore hafter
    unfold System.apply at hafter
    dsimp only at hafter
    split at hafter
    · rw [detect_ipc] at hafter
      rcases Swim.alive_of_heartbeatProbe hafter with halive | ⟨p, hp, hnode, hdone⟩ |
        ⟨p, hp, hnode, hzero⟩
      · exact absurd halive hbefore
      · exact ⟨p.future, Or.inl (hnode ▸ hdirect n p hp hdone)⟩
      · exact ⟨p.future, Or.inr ⟨p.helperNodeId, hnode ▸ hindirect n env now p hp hzero⟩⟩
    · exact absurd hafter hbefore
  · intro n env node hbefore hafter
    unfold System.apply at hafter
    dsimp only at hafter
    rw [detect_ipc] at hafter
    unfold Swim.resumeProbe at hafter
    split at hafter
    · exact hbefore hafter
    · have hself : Swim.AliveIn (fun node => (sys.swim n).ipc.stateOf node = some .alive)
          (sys.swim n) := fun _ hn => hn
      exact hbefore (hself.checkSuspicions _ _ node hafter)

/-- **In every run in which no address is given out again too early, a node is set alive only
for an answer of its own.** -/
theorem proofOfLife_of_run (hosts : UInt32 → AMap Node Host) (ops : List SystemOp)
    (hrun : Along (fun op sys sys' => Fresh sys op ∧ sys' = sys.apply op) ops (start hosts) sys) :
    ProofOfLife sys := by
  refine (hrun.invariant (I := Sound) ?_ (sound_start hosts)).proofOfLife
  rintro op _ sys sys' h ⟨hop, rfl⟩
  exact h.apply hop

/-- Everything is sent at once. -/
def openEnv : Env Body where
  now := 0
  hasContainer := fun _ => true
  containerNode := fun _ container => container
  sendsIn := fun _ => true
  sendsOut := fun _ => true
  aggregate := Body.aggregate

/-- `HeartbeatProbe` of node 0 at a time in seconds. -/
def probing (seconds : Nat) : SystemOp :=
  .heartbeatProbe 0 (Swim.allProbes (seconds * 1000000000) none) (seconds * 1000000000)

/-- Node 0 probes node 1, and node 1 answers. -/
def answeredProbe : List SystemOp :=
  [probing 0, .sendProbe 0 0 openEnv 0x1000, .net (.recvIn 0 openEnv), .heartbeat 1 0 openEnv,
    .net (.recvOut 0 openEnv)]

theorem proofOfLife_of_run_answered :
    (answeredProbe.foldl apply (start threeNodes)).result 0 0 = some 0 ∧
      ProofOfLife (answeredProbe.foldl apply (start threeNodes)) := by
  refine ⟨by decide +kernel, proofOfLife_of_run threeNodes answeredProbe
    ⟨_, ⟨trivial, rfl⟩, _, ⟨?_, rfl⟩, _, ⟨trivial, rfl⟩, _, ⟨trivial, rfl⟩, _, ⟨trivial, rfl⟩, rfl⟩⟩
  intro _ t ht
  rcases outstanding_runAt ht with ht | ht | ht | ⟨m, _, ht⟩
  · simp [start, World.start] at ht
  · simp [start, World.start] at ht
  · simp [start, World.start, NetState.start, Held] at ht
  · simp [start, World.start, NetState.start, Held] at ht

/-- A task of a client for some node. -/
def clientTask (node : UInt32) : Outgoing Body :=
  { poolId := ⟨7, 0⟩, poolQuery := PoolQuery.physical node, body := ⟨.other, 0, 0⟩
    poolQueries := [PoolQuery.physical node], hasContainer := true }

/-- A task of node 0 for node 1 is answered late: node 1 is held to be dead by then, and the
task was ended.  Its address goes to the `Heartbeat` for node 2, which gets lost.  Node 2 is
found dead.  Then the answer of node 1 arrives. -/
def reusedByProbe : List SystemOp :=
  [.net (.sendIn 0 openEnv 0x1000 (clientTask 1)), .net (.recvIn 0 openEnv),
    .net (.finish 1 openEnv 0 ⟨.other, 0, 0⟩), .net (.setDead 0 0 1),
    .net (.scanSendMapTimeouts 0 { openEnv with now := 31000000000 }), probing 31,
    .sendProbe 0 0 openEnv 0x1000, .net (.loseRequest 0), .net (.setDead 0 31000000000 2),
    .net (.recvOut 0 openEnv)]

/-- Node 2 is set alive and has answered nothing. -/
theorem alive_mistaken :
    let sys := reusedByProbe.foldl apply (start threeNodes)
    (sys.swim 0).ipc.stateOf 2 = some .dead ∧
      ((sys.apply (probing 32)).swim 0).ipc.stateOf 2 = some .alive ∧
      sys.net.served.map Prod.fst = [1] ∧ ¬ProofOfLife sys := by
  refine ⟨by decide +kernel, by decide +kernel, by decide +kernel, ?_⟩
  intro h
  have hserved : (reusedByProbe.foldl apply (start threeNodes)).net.served.map Prod.fst = [1] := by
    decide +kernel
  obtain ⟨_, _, _, _, t, hmem, _⟩ := h.direct 0 ⟨0, 2, 31000000000⟩ (by decide +kernel)
    (by decide +kernel)
  have hfst := List.mem_map_of_mem (f := Prod.fst) hmem
  rw [hserved] at hfst
  simp at hfst

end System
end Cluster
end IowarpCore
