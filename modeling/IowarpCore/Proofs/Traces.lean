/-
Where requests go and where answers come from.

`Carries R A` says of everything a node holds that `R` holds of a request and the node it is
bound for, and `A` of an answer.  The steps of the network worker keep this whatever `R` and `A`
are, as long as what they are given satisfies them (`carries_*`); only `SendIn` brings something
new, and a queued request may change its course if its query allows that.

`Ends` says how a task comes to its end, and `Traced` is `Carries` on all nodes and for what is
on its way between them.
-/
import IowarpCore.Proofs.Replies

namespace IowarpCore
namespace Cluster

variable {π : Type} {env : Env π}

namespace NetState

variable {s : NetState π} {R : Node → NetTask π → Prop} {A : NetTask π → Prop} {me : Node}

/-- Of every request the node holds `R` is true, and of every answer `A`. -/
structure Carries (R : Node → NetTask π → Prop) (A : NetTask π → Prop) (me : Node)
    (s : NetState π) : Prop where
  requests : ∀ x ∈ s.requests, R x.1 x.2
  queued : ∀ e ∈ s.sendInRetry, R e.targetNodeId e.task
  dispatched : ∀ t ∈ s.dispatched, R me t
  waiting : ∀ e ∈ s.sendOutRetry, A e.task
  replies : ∀ x ∈ s.replies, A x.2
  aggregated : ∀ x ∈ s.aggregated, A x.1

theorem Carries.mono {R' : Node → NetTask π → Prop} {A' : NetTask π → Prop}
    (h : Carries R A me s) (hR : ∀ n t, R n t → R' n t) (hA : ∀ t, A t → A' t) :
    Carries R' A' me s where
  requests := fun x hx => hR _ _ (h.requests x hx)
  queued := fun e he => hR _ _ (h.queued e he)
  dispatched := fun t ht => hR _ _ (h.dispatched t ht)
  waiting := fun e he => hA _ (h.waiting e he)
  replies := fun x hx => hA _ (h.replies x hx)
  aggregated := fun x hx => hA _ (h.aggregated x hx)

theorem carries_revive (h : Carries R A me s) (sender : Node) :
    Carries R A me (s.revive env sender) := by
  rw [revive]
  split
  · obtain ⟨sendMap, counted, hflush⟩ := flush_writes s sender
    rw [hflush]
    refine ⟨h.requests, ?_, h.dispatched, ?_, h.replies, h.aggregated⟩
    · intro e he
      exact h.queued e (List.mem_filter.mp he).1
    · intro e he
      exact h.waiting e (List.mem_filter.mp he).1
  · exact h

theorem carries_recvIn {task : NetTask π} (h : Carries R A me s) (htask : R me task) :
    Carries R A me (s.recvIn env task) := by
  rw [recvIn]
  split
  · have hrevive := @carries_revive π env s R A me h task.poolQuery.retNode.toUInt64
    refine ⟨hrevive.requests, hrevive.queued, ?_, hrevive.waiting, hrevive.replies,
      hrevive.aggregated⟩
    intro t ht
    rcases List.mem_append.mp ht with ht | ht
    · exact hrevive.dispatched t ht
    · rw [List.mem_singleton.mp ht]
      exact htask
  · exact h

theorem carries_recvOut {task : NetTask π} (h : Carries R A me s) (htask : A task) :
    Carries R A me (s.recvOut env task) := by
  have hagg : ∀ id, ∀ x ∈ s.aggregated ++ [(task, id)], A x.1 := by
    intro id x hx
    rcases List.mem_append.mp hx with hx | hx
    · exact h.aggregated x hx
    · rw [List.mem_singleton.mp hx]
      exact htask
  rw [recvOut]
  cases s.sendMap.find? task.netKey with
  | none => exact h
  | some origin =>
    dsimp only
    split
    · exact h
    · cases (origin.subtasks[task.replicaId.toNat]?).join with
      | none => exact h
      | some replica =>
        dsimp only
        split
        · exact ⟨h.requests, h.queued, h.dispatched, h.waiting, h.replies, hagg _⟩
        · exact ⟨h.requests, h.queued, h.dispatched, h.waiting, h.replies, hagg _⟩

theorem carries_sendOut {task : NetTask π} {k : Nat} (h : Carries R A me s) (htask : A task) :
    Carries R A me (s.sendOut env k task) := by
  obtain ⟨ipc, recvMap, replies, sendOutRetry, hwrites, _, hreplies, hqueue⟩ :=
    @sendOut_writes π env s k task
  rw [hwrites]
  refine ⟨h.requests, h.queued, h.dispatched, ?_, ?_, h.aggregated⟩
  · intro e he
    rcases hqueue with hqueue | hqueue
    · rw [hqueue] at he
      exact h.waiting e he
    · rw [hqueue] at he
      rcases List.mem_append.mp he with he | he
      · exact h.waiting e he
      · rw [List.mem_singleton.mp he]
        exact htask
  · intro x hx
    rcases hreplies with hreplies | hreplies
    · rw [hreplies] at hx
      exact h.replies x hx
    · rw [hreplies] at hx
      rcases List.mem_append.mp hx with hx | hx
      · exact h.replies x hx
      · rw [List.mem_singleton.mp hx]
        exact htask

theorem carries_finish {i : Nat} {body : π} (h : Carries R A me s)
    (htask : ∀ task, s.dispatched[i]? = some task → A { task with body := body }) :
    Carries R A me (s.finish env i body) := by
  rw [finish]
  cases hget : s.dispatched[i]? with
  | none => exact h
  | some task =>
    refine carries_sendOut ?_ (htask task hget)
    exact ⟨h.requests, h.queued, fun t ht => h.dispatched t (List.mem_of_mem_eraseIdx ht),
      h.waiting, h.replies, h.aggregated⟩

theorem carries_scan (h : Carries R A me s) : Carries R A me (s.scanSendMapTimeouts env) :=
  ⟨h.requests, h.queued, h.dispatched, h.waiting, h.replies, h.aggregated⟩

theorem carries_ipc (h : Carries R A me s) (ipc : IpcManager) :
    Carries R A me { s with ipc := ipc } :=
  ⟨h.requests, h.queued, h.dispatched, h.waiting, h.replies, h.aggregated⟩

/-! ### Retries -/

/-- A queued request for a physical node is sent there or stays. -/
theorem retryIn_physical (s : NetState π) (i : Nat) {entry : RetryEntry π}
    (h : entry.task.poolQuery.routingMode = .physical) :
    s.retryIn env i entry = .expired ∨
      s.retryIn env i entry = .sent entry.targetNodeId entry.task ∨
      s.retryIn env i entry = .kept entry := by
  have hreroute : rerouteRetryEntry env entry = 0 := by rw [rerouteRetryEntry, h]
  unfold retryIn
  split
  · exact Or.inl rfl
  · split
    · unfold retryTo
      split
      · exact Or.inr (Or.inl rfl)
      · exact Or.inr (Or.inr rfl)
    · rw [hreroute]
      exact Or.inr (Or.inr rfl)

/-- `R` lets a request go to another node unless it is for a physical one. -/
def Reroutes (R : Node → NetTask π → Prop) : Prop :=
  ∀ dst dst' t, t.poolQuery.routingMode ≠ .physical → R dst t → R dst' t

theorem retryIn_carries (hroute : Reroutes R) (s : NetState π) (i : Nat) {entry : RetryEntry π}
    (h : R entry.targetNodeId entry.task) :
    (∀ x, (s.retryIn env i entry).sent? = some x → R x.1 x.2) ∧
      ∀ e, (s.retryIn env i entry).kept? = some e → R e.targetNodeId e.task := by
  by_cases hphysical : entry.task.poolQuery.routingMode = .physical
  · rcases @retryIn_physical π env s i entry hphysical with hout | hout | hout
    · simp [hout, Retried.sent?, Retried.kept?]
    · simpa [hout, Retried.sent?, Retried.kept?] using h
    · simpa [hout, Retried.sent?, Retried.kept?] using h
  · have hany : ∀ dst, R dst entry.task := fun dst => hroute _ dst _ hphysical h
    rcases @retryIn_cases π env s i entry with ⟨_, hout⟩ | ⟨_, node, _, hout⟩ | ⟨_, node, hout⟩
    · simp [hout, Retried.sent?, Retried.kept?]
    · simpa [hout, Retried.sent?, Retried.kept?] using hany node
    · simpa [hout, Retried.sent?, Retried.kept?] using hany node

theorem retryInAll_carries (hroute : Reroutes R) (s : NetState π) (entries : List (RetryEntry π)) :
    ∀ i, (∀ e ∈ entries, R e.targetNodeId e.task) →
      (∀ x ∈ (s.retryInAll env i entries).filterMap Retried.sent?, R x.1 x.2) ∧
        ∀ e ∈ (s.retryInAll env i entries).filterMap Retried.kept?, R e.targetNodeId e.task := by
  induction entries with
  | nil =>
    intro i _
    simp [retryInAll]
  | cons entry entries ih =>
    intro i h
    obtain ⟨hsent, hkept⟩ := @retryIn_carries π env R hroute s i entry (h entry (by simp))
    obtain ⟨hsents, hkepts⟩ := ih (i + 1) fun e he => h e (List.mem_cons_of_mem _ he)
    rw [retryInAll]
    constructor
    · intro x hx
      obtain ⟨r, hr, hx⟩ := List.mem_filterMap.mp hx
      rcases List.mem_cons.mp hr with rfl | hr
      · exact hsent x hx
      · exact hsents x (List.mem_filterMap.mpr ⟨r, hr, hx⟩)
    · intro e he
      obtain ⟨r, hr, he⟩ := List.mem_filterMap.mp he
      rcases List.mem_cons.mp hr with rfl | hr
      · exact hkept e he
      · exact hkepts e (List.mem_filterMap.mpr ⟨r, hr, he⟩)

theorem carries_retry (hroute : Reroutes R) (h : Carries R A me s) :
    Carries R A me (s.processRetryQueues env) := by
  obtain ⟨ipc, recvMap, replies, sendOutRetry, hwrites, _, hqueue, hreplies⟩ :=
    @processRetryQueues_writes π env s
  obtain ⟨hsent, hkept⟩ := @retryInAll_carries π env R hroute s s.sendInRetry 0 h.queued
  rw [hwrites]
  refine ⟨?_, hkept, h.dispatched, ?_, ?_, h.aggregated⟩
  · intro x hx
    rcases List.mem_append.mp hx with hx | hx
    · exact h.requests x hx
    · exact hsent x hx
  · intro e he
    obtain ⟨e₀, he₀, htask⟩ := hqueue e he
    rw [← htask]
    exact h.waiting e₀ he₀
  · intro x hx
    rcases hreplies x hx with hx | ⟨e₀, he₀, rfl⟩
    · exact h.replies x hx
    · exact h.waiting e₀ he₀

/-! ### New requests -/

section

variable {addr : UInt64} {task : Outgoing π} {id i : Nat} {query : PoolQuery}

/-- The task is under the address. -/
def Originates (s : NetState π) (addr : UInt64) (task : Outgoing π) (id : Nat) : Prop :=
  ∃ origin, s.sendMap.find? addr = some origin ∧ origin.poolId = task.poolId ∧
    origin.body = task.body ∧ origin.hasContainer = task.hasContainer ∧ origin.sendId = id

/-- A copy of the task for one of its queries. -/
structure CopyOf (me : Node) (task : Outgoing π) (id : Nat) (query : PoolQuery)
    (t : NetTask π) : Prop where
  poolQuery : t.poolQuery = { query with retNode := me.toUInt32 }
  body : t.body = task.body
  sender : t.sender = me
  sendId : t.sendId = id

theorem originates_countReplica (h : Originates s addr task id) (replicaId : UInt32) :
    Originates (s.countReplica addr replicaId) addr task id := by
  obtain ⟨origin, hfind, hrest⟩ := h
  rw [countReplica, hfind]
  exact ⟨_, AMap.find?_insertOrAssign_self _ _ _, hrest⟩

/-- What one round of the loop of `SendIn` does. -/
theorem carries_sendInReplica (h : Carries R A me s) (horiginates : Originates s addr task id)
    (hR : ∀ target t, s.targetNodeId env task.poolId query = some target →
      CopyOf s.ipc.nodeId task id query t → R target t) :
    Carries R A me (s.sendInReplica env addr i query) ∧
      Originates (s.sendInReplica env addr i query) addr task id ∧
      (s.sendInReplica env addr i query).ipc.nodeId = s.ipc.nodeId := by
  obtain ⟨origin, hfind, hpool, hbody, hcont, hid⟩ := horiginates
  have hold : Originates s addr task id := ⟨origin, hfind, hpool, hbody, hcont, hid⟩
  cases htarget : s.targetNodeId env origin.poolId query with
  | none =>
    rw [sendInReplica]
    simp only [hfind, htarget]
    exact ⟨h, hold, trivial⟩
  | some target =>
    cases hhost : s.ipc.getHost target with
    | none =>
      rw [sendInReplica]
      simp only [hfind, htarget, hhost]
      exact ⟨h, hold, trivial⟩
    | some host =>
      have hcopy : R target (s.newCopyTask addr origin i query) :=
        hR target _ (hpool ▸ htarget) ⟨rfl, hbody, rfl, hid⟩
      have hset : Originates (s.setSubtask addr origin i (s.newCopyTask addr origin i query)) addr
          task id := ⟨_, AMap.find?_insertOrAssign_self _ _ _, hpool, hbody, hcont, hid⟩
      rcases sendInReplica_cases (i := i) hfind htarget (by rw [hhost]; rfl) with
        heq | ⟨ipc, hipc, heq⟩ | ⟨_, _, heq⟩
      · rw [heq]
        refine ⟨⟨?_, h.queued, h.dispatched, h.waiting, h.replies, h.aggregated⟩, hset, rfl⟩
        intro x hx
        rcases List.mem_append.mp hx with hx | hx
        · exact h.requests x hx
        · rw [List.mem_singleton.mp hx]
          exact hcopy
      · have hnode : ipc.nodeId = s.ipc.nodeId := by
          rcases hipc with rfl | rfl
          · rfl
          · exact setDead_nodeId _ _ _
        rw [heq]
        refine ⟨⟨h.requests, ?_, h.dispatched, h.waiting, h.replies, h.aggregated⟩, hset, hnode⟩
        intro e he
        rcases List.mem_append.mp he with he | he
        · exact h.queued e he
        · rw [List.mem_singleton.mp he]
          exact hcopy
      · have hcounted := originates_countReplica hset (s.newCopyTask addr origin i query).replicaId
        obtain ⟨sendMap, counted, hwrites⟩ := countReplica_writes
          (s.setSubtask addr origin i (s.newCopyTask addr origin i query)) addr
          (s.newCopyTask addr origin i query).replicaId
        rw [heq]
        refine ⟨?_, hcounted, ?_⟩
        · rw [hwrites]
          exact ⟨h.requests, h.queued, h.dispatched, h.waiting, h.replies, h.aggregated⟩
        · rw [hwrites]
          rfl

theorem carries_sendInLoop (queries : List PoolQuery) : ∀ (i : Nat) (s : NetState π),
    Carries R A me s → Originates s addr task id →
    (∀ query ∈ queries, ∀ target t, s.targetNodeId env task.poolId query = some target →
      CopyOf s.ipc.nodeId task id query t → R target t) →
    Carries R A me (sendInLoop env addr i queries s) ∧
      Originates (sendInLoop env addr i queries s) addr task id := by
  induction queries with
  | nil =>
    intro i s h horiginates _
    exact ⟨h, horiginates⟩
  | cons query queries ih =>
    intro i s h horiginates hR
    obtain ⟨hnext, horiginates', hnode⟩ := @carries_sendInReplica π env s R A me addr task id i query h
      horiginates (hR query (by simp))
    refine ih (i + 1) _ hnext horiginates' ?_
    intro q hq target t htarget hcopy
    rw [targetNodeId_congr hnode] at htarget
    rw [hnode] at hcopy
    exact hR q (List.mem_cons_of_mem _ hq) target t htarget hcopy

theorem carries_sendIn (h : Carries R A me s) (hpool : env.hasContainer task.poolId = true)
    (hR : ∀ query ∈ task.poolQueries, ∀ target t,
      s.targetNodeId env task.poolId query = some target →
      CopyOf s.ipc.nodeId task s.nextSend query t → R target t) :
    Carries R A me (s.sendIn env addr task) ∧
      Originates (s.sendIn env addr task) addr task s.nextSend := by
  rw [sendIn, if_pos hpool]
  refine carries_sendInLoop task.poolQueries 0 _ ?_ ?_ hR
  · exact ⟨h.requests, h.queued, h.dispatched, h.waiting, h.replies, h.aggregated⟩
  · exact ⟨_, AMap.find?_insertOrAssign_self _ _ _, rfl, rfl, rfl, rfl⟩

theorem sendIn_nextSend (hpool : env.hasContainer task.poolId = true) :
    (s.sendIn env addr task).nextSend = s.nextSend + 1 := by
  obtain ⟨_, _, _, _, _, hwrites⟩ :=
    @sendInLoop_writes π env addr task.poolQueries 0 (s.addOrigin addr task)
  rw [sendIn, if_pos hpool, hwrites]
  rfl

end

/-! ### Tasks that end -/

/-- What a step that starts no task does to `send_map_` and to the tasks that ended: one that
ends now had a container, or an answer was aggregated into it last. -/
structure Ends (aggregate : π → π → π) (s s' : NetState π) : Prop where
  nextSend : s'.nextSend = s.nextSend
  sendMap : ∀ key origin', (key, origin') ∈ s'.sendMap.entries →
    ∃ origin, (key, origin) ∈ s.sendMap.entries ∧ origin.sendId = origin'.sendId ∧
      origin.hasContainer = origin'.hasContainer
  kept : ∀ o ∈ s.ended, o ∈ s'.ended
  aggregated : ∀ x ∈ s.aggregated, x ∈ s'.aggregated
  ended : ∀ o ∈ s'.ended, o ∈ s.ended ∨
    ∃ key origin, (key, origin) ∈ s.sendMap.entries ∧ origin.sendId = o.sendId ∧
      (origin.hasContainer = true ∨
        ∃ x ∈ s'.aggregated, x.2 = o.sendId ∧ ∃ body, o.body = aggregate body x.1.body)

variable {aggregate : π → π → π} {s' : NetState π}

theorem ends_frame (hnext : s'.nextSend = s.nextSend) (hmap : s'.sendMap = s.sendMap)
    (hended : s'.ended = s.ended) (hagg : s'.aggregated = s.aggregated) :
    Ends aggregate s s' where
  nextSend := hnext
  sendMap := fun _ o ho => ⟨o, hmap ▸ ho, rfl, rfl⟩
  kept := fun _ ho => hended ▸ ho
  aggregated := fun _ hx => hagg ▸ hx
  ended := fun _ ho => Or.inl (hended ▸ ho)

theorem ends_finish {i : Nat} {body : π} : Ends aggregate s (s.finish env i body) := by
  obtain ⟨_, _, _, _, _, hwrites, _⟩ := @finish_writes π env s i body
  rw [hwrites]
  exact ends_frame rfl rfl rfl rfl

theorem ends_retry : Ends aggregate s (s.processRetryQueues env) := by
  obtain ⟨_, _, _, _, hwrites, _⟩ := @processRetryQueues_writes π env s
  rw [hwrites]
  exact ends_frame rfl rfl rfl rfl

theorem ends_recvIn {task : NetTask π} : Ends aggregate s (s.recvIn env task) := by
  rw [recvIn]
  split
  · rw [revive]
    split
    · obtain ⟨sendMap, counted, hflush⟩ := flush_writes s task.poolQuery.retNode.toUInt64
      have hmap : (s.flushStaleStateForNode task.poolQuery.retNode.toUInt64).sendMap = sendMap := by
        rw [hflush]
      rw [hflush]
      refine ⟨rfl, ?_, fun _ ho => ho, fun _ hx => hx, fun _ ho => Or.inl ho⟩
      intro key origin' ho
      have ho : (key, origin') ∈ sendMap.entries := ho
      rw [← hmap] at ho
      exact countAll_origins _ s ho
    · exact ends_frame rfl rfl rfl rfl
  · exact ends_frame rfl rfl rfl rfl

theorem ends_scan : Ends aggregate s (s.scanSendMapTimeouts env) := by
  refine ⟨rfl, ?_, ?_, fun _ hx => hx, ?_⟩
  · intro key o ho
    exact ⟨o, (AMap.mem_filter.mp ho).1, rfl, rfl⟩
  · intro o ho
    exact List.mem_append_left _ ho
  · intro o ho
    rcases List.mem_append.mp ho with ho | ho
    · exact Or.inl ho
    · obtain ⟨origin, horigin, rfl⟩ := List.mem_map.mp ho
      obtain ⟨hmem, hlate⟩ := List.mem_filter.mp horigin
      obtain ⟨⟨key, origin⟩, hentry, rfl⟩ := List.mem_map.mp hmem
      exact Or.inr ⟨key, origin, hentry, rfl, Or.inl (Bool.and_eq_true_iff.mp hlate).2⟩

theorem ends_recvOut {task : NetTask π} : Ends env.aggregate s (s.recvOut env task) := by
  rw [recvOut]
  cases hfind : s.sendMap.find? task.netKey with
  | none => exact ends_frame rfl rfl rfl rfl
  | some origin =>
    have hmem := AMap.find?_eq_some_iff.mp hfind
    dsimp only
    split
    · exact ends_frame rfl rfl rfl rfl
    · cases (origin.subtasks[task.replicaId.toNat]?).join with
      | none => exact ends_frame rfl rfl rfl rfl
      | some replica =>
        dsimp only
        split
        · refine ⟨rfl, ?_, ?_, fun _ hx => List.mem_append_left _ hx, ?_⟩
          · exact fun key o ho => ⟨o, (AMap.mem_erase.mp ho).2, rfl, rfl⟩
          · exact fun _ ho => List.mem_append_left _ ho
          · intro o ho
            rcases List.mem_append.mp ho with ho | ho
            · exact Or.inl ho
            · rw [List.mem_singleton.mp ho]
              exact Or.inr ⟨task.netKey, origin, hmem, rfl, Or.inr ⟨(task, origin.sendId),
                List.mem_append_right _ (List.mem_singleton_self _), rfl, origin.body, rfl⟩⟩
        · refine ⟨rfl, ?_, fun _ ho => ho, fun _ hx => List.mem_append_left _ hx,
            fun _ ho => Or.inl ho⟩
          intro key o ho
          rcases AMap.mem_insertOrAssign.mp ho with ⟨rfl, rfl⟩ | ⟨_, ho⟩
          · exact ⟨origin, hmem, rfl, rfl⟩
          · exact ⟨o, ho, rfl, rfl⟩

end NetState

/-! ### Everywhere -/

namespace World

open NetState

variable {w w₁ : World π} {n : UInt32} {f : NetState π → NetState π}
  {R : Node → NetTask π → Prop} {A : NetTask π → Prop}

/-- Of every request, on a node or on its way, `R` is true, and of every answer `A`. -/
structure Traced (R : Node → NetTask π → Prop) (A : NetTask π → Prop) (w : World π) : Prop where
  nodes : ∀ n, Carries R A n.toUInt64 (w.nodes n)
  requests : ∀ x ∈ w.requests, R x.1 x.2
  replies : ∀ x ∈ w.replies, A x.2

theorem Traced.mono {R' : Node → NetTask π → Prop} {A' : NetTask π → Prop} (h : Traced R A w)
    (hR : ∀ n t, R n t → R' n t) (hA : ∀ t, A t → A' t) : Traced R' A' w where
  nodes := fun n => (h.nodes n).mono hR hA
  requests := fun x hx => hR _ _ (h.requests x hx)
  replies := fun x hx => hA _ (h.replies x hx)

/-- Some messages fewer. -/
theorem Traced.sub (h : Traced R A w) (hnodes : w₁.nodes = w.nodes)
    (hrequests : ∀ x ∈ w₁.requests, x ∈ w.requests) (hreplies : ∀ x ∈ w₁.replies, x ∈ w.replies) :
    Traced R A w₁ where
  nodes := by rw [hnodes]; exact h.nodes
  requests := fun x hx => h.requests x (hrequests x hx)
  replies := fun x hx => h.replies x (hreplies x hx)

theorem Traced.runAt (h : Traced R A w) (hf : Carries R A n.toUInt64 (f (w.nodes n))) :
    Traced R A (w.runAt n f) := by
  refine ⟨?_, ?_, ?_⟩
  · intro m
    by_cases hm : m = n
    · rw [hm, runAt_self]
      exact ⟨by simp, hf.queued, hf.dispatched, hf.waiting, by simp, hf.aggregated⟩
    · rw [runAt_other w hm]
      exact h.nodes m
  · intro x hx
    rcases List.mem_append.mp hx with hx | hx
    · exact h.requests x hx
    · exact hf.requests x hx
  · intro x hx
    rcases List.mem_append.mp hx with hx | hx
    · exact h.replies x hx
    · exact hf.replies x hx

end World
end Cluster
end IowarpCore
