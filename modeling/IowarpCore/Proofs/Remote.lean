/-
What the functions of the network worker leave alone.

Each function is one lemma that says which fields it writes; everything about the other
fields is then by definition.
-/
import IowarpCore.Cluster.Remote
import IowarpCore.Lib.Along

namespace IowarpCore
namespace Cluster
namespace NetState

variable {π : Type} {env : Env π} {s : NetState π}

theorem countReplica_writes (s : NetState π) (key : UInt64) (replicaId : UInt32) :
    ∃ sendMap counted, s.countReplica key replicaId =
      { s with sendMap := sendMap, counted := counted } := by
  rw [countReplica]
  cases s.sendMap.find? key with
  | none => exact ⟨s.sendMap, s.counted, rfl⟩
  | some origin => exact ⟨_, _, rfl⟩

theorem countAll_writes (entries : List (RetryEntry π)) (s : NetState π) :
    ∃ sendMap counted,
      entries.foldl (fun s entry => s.countReplica entry.task.netKey entry.task.replicaId) s =
        { s with sendMap := sendMap, counted := counted } := by
  induction entries generalizing s with
  | nil => exact ⟨s.sendMap, s.counted, rfl⟩
  | cons entry entries ih =>
    obtain ⟨sendMap, counted, hfirst⟩ :=
      countReplica_writes s entry.task.netKey entry.task.replicaId
    obtain ⟨sendMap', counted', hrest⟩ :=
      ih (s.countReplica entry.task.netKey entry.task.replicaId)
    exact ⟨sendMap', counted', by rw [List.foldl_cons, hrest, hfirst]⟩

/-- Counting keeps the tasks and their ids. -/
theorem countReplica_origins {key key' : UInt64} {replicaId : UInt32} {origin' : OriginTask π}
    (h : (key', origin') ∈ (s.countReplica key replicaId).sendMap.entries) :
    ∃ origin, (key', origin) ∈ s.sendMap.entries ∧ origin.sendId = origin'.sendId ∧
      origin.hasContainer = origin'.hasContainer := by
  rw [countReplica] at h
  cases hfind : s.sendMap.find? key with
  | none =>
    rw [hfind] at h
    exact ⟨origin', h, rfl, rfl⟩
  | some found =>
    rw [hfind] at h
    rcases AMap.mem_insertOrAssign.mp h with ⟨rfl, rfl⟩ | ⟨_, hmem⟩
    · exact ⟨found, AMap.find?_eq_some_iff.mp hfind, rfl, rfl⟩
    · exact ⟨origin', hmem, rfl, rfl⟩

theorem countAll_origins (entries : List (RetryEntry π)) (s : NetState π) {key : UInt64}
    {origin' : OriginTask π}
    (h : (key, origin') ∈ (entries.foldl (fun s entry =>
      s.countReplica entry.task.netKey entry.task.replicaId) s).sendMap.entries) :
    ∃ origin, (key, origin) ∈ s.sendMap.entries ∧ origin.sendId = origin'.sendId ∧
      origin.hasContainer = origin'.hasContainer := by
  induction entries generalizing s with
  | nil => exact ⟨origin', h, rfl, rfl⟩
  | cons entry entries ih =>
    obtain ⟨origin₁, hmem₁, hid₁, hcont₁⟩ := ih _ h
    obtain ⟨origin, hmem, hid, hcont⟩ := countReplica_origins hmem₁
    exact ⟨origin, hmem, hid.trans hid₁, hcont.trans hcont₁⟩

theorem flush_writes (s : NetState π) (node : Node) :
    ∃ sendMap counted, s.flushStaleStateForNode node =
      { s with
        sendMap := sendMap, counted := counted
        sendInRetry := s.sendInRetry.filter fun entry => entry.targetNodeId ≠ node
        sendOutRetry := s.sendOutRetry.filter fun entry => entry.targetNodeId ≠ node } := by
  obtain ⟨sendMap, counted, hcount⟩ :=
    countAll_writes (s.sendInRetry.filter fun entry => entry.targetNodeId = node) s
  exact ⟨sendMap, counted, by rw [flushStaleStateForNode, hcount]⟩

theorem sendCopy_writes (s : NetState π) (i : Nat) (target : Node) (copy : NetTask π) :
    ∃ ipc requests sendInRetry, s.sendCopy env i target copy =
      { s with ipc := ipc, requests := requests, sendInRetry := sendInRetry } := by
  rw [sendCopy]
  by_cases hsend : env.sendsIn i
  · exact ⟨s.ipc, _, s.sendInRetry, by rw [if_pos hsend]⟩
  · exact ⟨_, s.requests, _, by rw [if_neg hsend]; rfl⟩

theorem sendInReplica_writes (s : NetState π) (addr : UInt64) (i : Nat) (query : PoolQuery) :
    ∃ ipc sendMap requests sendInRetry counted, s.sendInReplica env addr i query =
      { s with
        ipc := ipc, sendMap := sendMap, requests := requests, sendInRetry := sendInRetry
        counted := counted } := by
  have hsame : ∃ ipc sendMap requests sendInRetry counted, s =
      { s with
        ipc := ipc, sendMap := sendMap, requests := requests, sendInRetry := sendInRetry
        counted := counted } := ⟨s.ipc, s.sendMap, s.requests, s.sendInRetry, s.counted, rfl⟩
  rw [sendInReplica]
  cases s.sendMap.find? addr with
  | none => exact hsame
  | some origin =>
    cases htarget : s.targetNodeId env origin.poolId query with
    | none => simpa only [htarget] using hsame
    | some target =>
      simp only [htarget]
      cases s.ipc.getHost target with
      | none => exact hsame
      | some host =>
        dsimp only
        split
        · obtain ⟨ipc, requests, sendInRetry, hcopy⟩ := @sendCopy_writes π env
            (s.setSubtask addr origin i (s.newCopyTask addr origin i query)) i target
            (s.newCopyTask addr origin i query)
          exact ⟨ipc, _, requests, sendInRetry, s.counted, hcopy⟩
        · split
          · obtain ⟨sendMap, counted, hcount⟩ := countReplica_writes
              (s.setSubtask addr origin i (s.newCopyTask addr origin i query)) addr
              (s.newCopyTask addr origin i query).replicaId
            exact ⟨s.ipc, sendMap, s.requests, s.sendInRetry, counted, hcount⟩
          · exact ⟨s.ipc, _, s.requests, _, s.counted, rfl⟩

/-- What `SendIn` does with a replica whose host is known: it sends the copy, queues it, or
counts the replica as complete. -/
theorem sendInReplica_cases {addr : UInt64} {i : Nat} {query : PoolQuery} {origin : OriginTask π}
    {target : Node} (hfind : s.sendMap.find? addr = some origin)
    (htarget : s.targetNodeId env origin.poolId query = some target)
    (hhost : (s.ipc.getHost target).isSome) :
    let copy := s.newCopyTask addr origin i query
    let s₁ := s.setSubtask addr origin i copy
    (s.sendInReplica env addr i query = { s₁ with requests := s.requests ++ [(target, copy)] }) ∨
      (∃ ipc, (ipc = s.ipc ∨ ipc = s.ipc.setDead env.now target) ∧
        s.sendInReplica env addr i query =
          { s₁ with
            ipc := ipc, sendInRetry := s.sendInRetry ++ [⟨copy, target, env.now⟩] }) ∨
      (s.ipc.isAlive target = false ∧ failsImmediately origin.poolQuery = true ∧
        s.sendInReplica env addr i query = s₁.countReplica addr copy.replicaId) := by
  obtain ⟨host, hhost⟩ := Option.isSome_iff_exists.mp hhost
  intro copy s₁
  rw [sendInReplica]
  simp only [hfind, htarget, hhost]
  by_cases halive : s.ipc.isAlive target = true
  · rw [if_pos (show (s.setSubtask addr origin i copy).ipc.isAlive target = true from halive),
      sendCopy]
    by_cases hsend : env.sendsIn i = true
    · rw [if_pos hsend]
      exact Or.inl rfl
    · rw [if_neg hsend]
      exact Or.inr (Or.inl ⟨_, Or.inr rfl, rfl⟩)
  · rw [if_neg (show ¬(s.setSubtask addr origin i copy).ipc.isAlive target = true from halive)]
    by_cases hfail : failsImmediately origin.poolQuery = true
    · rw [if_pos hfail]
      exact Or.inr (Or.inr ⟨by simpa using halive, hfail, rfl⟩)
    · rw [if_neg hfail]
      exact Or.inr (Or.inl ⟨s.ipc, Or.inl rfl, rfl⟩)

theorem sendInLoop_writes (addr : UInt64) (queries : List PoolQuery) (i : Nat) (s : NetState π) :
    ∃ ipc sendMap requests sendInRetry counted, sendInLoop env addr i queries s =
      { s with
        ipc := ipc, sendMap := sendMap, requests := requests, sendInRetry := sendInRetry
        counted := counted } := by
  induction queries generalizing i s with
  | nil => exact ⟨s.ipc, s.sendMap, s.requests, s.sendInRetry, s.counted, rfl⟩
  | cons query queries ih =>
    obtain ⟨_, _, _, _, _, hfirst⟩ := @sendInReplica_writes π env s addr i query
    obtain ⟨ipc, sendMap, requests, sendInRetry, counted, hrest⟩ :=
      ih (i + 1) (s.sendInReplica env addr i query)
    exact ⟨ipc, sendMap, requests, sendInRetry, counted, by rw [sendInLoop, hrest, hfirst]⟩

theorem sendIn_writes (s : NetState π) (addr : UInt64) (task : Outgoing π) :
    ∃ ipc sendMap requests sendInRetry counted nextSend, s.sendIn env addr task =
      { s with
        ipc := ipc, sendMap := sendMap, requests := requests, sendInRetry := sendInRetry
        counted := counted, nextSend := nextSend } := by
  rw [sendIn]
  by_cases hpool : env.hasContainer task.poolId
  · rw [if_pos hpool]
    obtain ⟨ipc, sendMap, requests, sendInRetry, counted, hloop⟩ :=
      @sendInLoop_writes π env addr task.poolQueries 0 (s.addOrigin addr task)
    exact ⟨ipc, sendMap, requests, sendInRetry, counted, s.nextSend + 1, hloop⟩
  · rw [if_neg hpool]
    exact ⟨s.ipc, s.sendMap, s.requests, s.sendInRetry, s.counted, s.nextSend, rfl⟩

theorem recvOut_writes (s : NetState π) (task : NetTask π) :
    ∃ sendMap counted aggregated ended, s.recvOut env task =
      { s with
        sendMap := sendMap, counted := counted, aggregated := aggregated, ended := ended } := by
  have hsame : ∃ sendMap counted aggregated ended, s =
      { s with
        sendMap := sendMap, counted := counted, aggregated := aggregated, ended := ended } :=
    ⟨s.sendMap, s.counted, s.aggregated, s.ended, rfl⟩
  rw [recvOut]
  cases s.sendMap.find? task.netKey with
  | none => exact hsame
  | some origin =>
    dsimp only
    split
    · exact hsame
    · cases (origin.subtasks[task.replicaId.toNat]?).join with
      | none => exact hsame
      | some replica =>
        dsimp only
        split
        · exact ⟨_, _, _, _, rfl⟩
        · exact ⟨_, _, _, s.ended, rfl⟩

/-- `SendOut` writes no more than the maps, the wire and the queue of answers, and the host
table if the transport fails.  The answer goes to the node that asked, or is queued for it. -/
theorem sendOut_writes (s : NetState π) (k : Nat) (task : NetTask π) :
    ∃ ipc recvMap replies sendOutRetry, s.sendOut env k task =
      { s with
        ipc := ipc, recvMap := recvMap, replies := replies, sendOutRetry := sendOutRetry } ∧
      (ipc = s.ipc ∨ ipc = s.ipc.setDead env.now task.poolQuery.retNode.toUInt64) ∧
      (replies = s.replies ∨ replies = s.replies ++ [(task.poolQuery.retNode.toUInt64, task)]) ∧
      (sendOutRetry = s.sendOutRetry ∨
        sendOutRetry = s.sendOutRetry ++ [⟨task, task.poolQuery.retNode.toUInt64, env.now⟩]) := by
  rw [sendOut]
  split
  · cases s.recvMap.find? (recvKey task) with
    | none =>
      exact ⟨s.ipc, s.recvMap, s.replies, s.sendOutRetry, rfl, Or.inl rfl, Or.inl rfl, Or.inl rfl⟩
    | some request =>
      dsimp only
      split
      · split
        · exact ⟨s.ipc, _, _, s.sendOutRetry, rfl, Or.inl rfl, Or.inr rfl, Or.inl rfl⟩
        · exact ⟨_, _, s.replies, _, rfl, Or.inr rfl, Or.inl rfl, Or.inr rfl⟩
      · exact ⟨s.ipc, _, s.replies, _, rfl, Or.inl rfl, Or.inl rfl, Or.inr rfl⟩
  · exact ⟨s.ipc, s.recvMap, s.replies, s.sendOutRetry, rfl, Or.inl rfl, Or.inl rfl, Or.inl rfl⟩

/-- A task that is through leaves the list of the dispatched ones. -/
theorem finish_writes (s : NetState π) (i : Nat) (body : π) :
    ∃ ipc recvMap replies sendOutRetry dispatched, s.finish env i body =
        { s with
          ipc := ipc, recvMap := recvMap, replies := replies, sendOutRetry := sendOutRetry
          dispatched := dispatched } ∧
      dispatched.Sublist s.dispatched := by
  rw [finish]
  cases s.dispatched[i]? with
  | none => exact ⟨s.ipc, s.recvMap, s.replies, s.sendOutRetry, s.dispatched, rfl, List.Sublist.refl _⟩
  | some task =>
    obtain ⟨ipc, recvMap, replies, sendOutRetry, hwrites, _⟩ := @sendOut_writes π env
      { s with dispatched := s.dispatched.eraseIdx i } 0 { task with body := body }
    exact ⟨ipc, recvMap, replies, sendOutRetry, _, hwrites, List.eraseIdx_sublist _ _⟩

theorem perm_cons_eraseIdx {α : Type} {l : List α} {k : Nat} {a : α} (h : l[k]? = some a) :
    l.Perm (a :: l.eraseIdx k) := by
  obtain ⟨hk, rfl⟩ := List.getElem?_eq_some_iff.mp h
  exact (List.getElem_cons_eraseIdx_perm hk).symm

theorem retryOut_writes (fuel k i : Nat) (s : NetState π) :
    ∃ ipc recvMap replies sendOutRetry, retryOut env fuel k i s =
      { s with
        ipc := ipc, recvMap := recvMap, replies := replies, sendOutRetry := sendOutRetry } := by
  induction fuel generalizing k i s with
  | zero => exact ⟨s.ipc, s.recvMap, s.replies, s.sendOutRetry, rfl⟩
  | succ fuel ih =>
    rw [retryOut]
    cases s.sendOutRetry[i]? with
    | none => exact ⟨s.ipc, s.recvMap, s.replies, s.sendOutRetry, rfl⟩
    | some entry =>
      dsimp only
      split
      · exact ih (k + 1) i { s with sendOutRetry := s.sendOutRetry.eraseIdx i }
      · split
        · obtain ⟨ipc, recvMap, replies, sendOutRetry, hsend, _, _, _⟩ :=
            @sendOut_writes π env s k entry.task
          rw [hsend]
          exact ih (k + 1) i
            { s with
              ipc := ipc, recvMap := recvMap, replies := replies
              sendOutRetry := sendOutRetry.eraseIdx i }
        · exact ih (k + 1) (i + 1) s

/-- A queued request times out, is sent, or stays, perhaps for another node. -/
theorem retryIn_cases (s : NetState π) (i : Nat) (entry : RetryEntry π) :
    (timedOut env entry = true ∧ s.retryIn env i entry = .expired) ∨
      (timedOut env entry = false ∧ ∃ node,
        (node = entry.targetNodeId ∨ node = rerouteRetryEntry env entry) ∧
          s.retryIn env i entry = .sent node entry.task) ∨
      (timedOut env entry = false ∧
        ∃ node, s.retryIn env i entry = .kept { entry with targetNodeId := node }) := by
  have hretry : ∀ node, s.retryTo env i entry node = .sent node entry.task ∨
      ∃ node', s.retryTo env i entry node = .kept { entry with targetNodeId := node' } := by
    intro node
    rw [retryTo]
    split
    · exact Or.inl rfl
    · exact Or.inr ⟨node, rfl⟩
  rw [retryIn]
  by_cases htime : timedOut env entry = true
  · exact Or.inl ⟨htime, by rw [if_pos htime]⟩
  · have hfalse : timedOut env entry = false := by simpa using htime
    refine Or.inr ?_
    rw [if_neg htime]
    split
    · rcases hretry entry.targetNodeId with hsent | hkept
      · exact Or.inl ⟨hfalse, _, Or.inl rfl, hsent⟩
      · exact Or.inr ⟨hfalse, hkept⟩
    · dsimp only
      split
      · rcases hretry (rerouteRetryEntry env entry) with hsent | hkept
        · exact Or.inl ⟨hfalse, _, Or.inr rfl, hsent⟩
        · exact Or.inr ⟨hfalse, hkept⟩
      · exact Or.inr ⟨hfalse, entry.targetNodeId, rfl⟩

/-- What the first loop sends was queued, and goes to the node it waited for or to the one it
is re-routed to. -/
theorem retryInAll_sent (s : NetState π) (entries : List (RetryEntry π)) (i : Nat) :
    ∀ x ∈ (s.retryInAll env i entries).filterMap Retried.sent?, ∃ entry ∈ entries,
      entry.task = x.2 ∧ (x.1 = entry.targetNodeId ∨ x.1 = rerouteRetryEntry env entry) := by
  induction entries generalizing i with
  | nil => exact fun x hx => absurd hx List.not_mem_nil
  | cons entry entries ih =>
    have hrest : ∀ x ∈ (s.retryInAll env (i + 1) entries).filterMap Retried.sent?,
        ∃ e ∈ entry :: entries, e.task = x.2 ∧
          (x.1 = e.targetNodeId ∨ x.1 = rerouteRetryEntry env e) := by
      intro x hx
      obtain ⟨e, he, hsent⟩ := ih (i + 1) x hx
      exact ⟨e, List.mem_cons_of_mem _ he, hsent⟩
    intro x hx
    rw [retryInAll] at hx
    rcases @retryIn_cases π env s i entry with ⟨_, hout⟩ | ⟨_, node, hnode, hout⟩ | ⟨_, node, hout⟩
    · rw [hout] at hx
      exact hrest x hx
    · rw [hout] at hx
      rcases List.mem_cons.mp hx with rfl | hx
      · exact ⟨entry, by simp, rfl, hnode⟩
      · exact hrest x hx
    · rw [hout] at hx
      exact hrest x hx

theorem retryInAll_sublists (s : NetState π) (entries : List (RetryEntry π)) (i : Nat) :
    (((s.retryInAll env i entries).filterMap Retried.sent?).map Prod.snd).Sublist
        (entries.map RetryEntry.task) ∧
      (((s.retryInAll env i entries).filterMap Retried.kept?).map RetryEntry.task).Sublist
        (entries.map RetryEntry.task) := by
  induction entries generalizing i with
  | nil => exact ⟨List.Sublist.refl _, List.Sublist.refl _⟩
  | cons entry entries ih =>
    obtain ⟨hsent, hkept⟩ := ih (i + 1)
    rw [retryInAll, List.map_cons]
    rcases @retryIn_cases π env s i entry with ⟨_, hout⟩ | ⟨_, node, _, hout⟩ | ⟨_, node, hout⟩
    · rw [hout]
      exact ⟨hsent.cons _, hkept.cons _⟩
    · rw [hout]
      exact ⟨hsent.cons_cons _, hkept.cons _⟩
    · rw [hout]
      exact ⟨hsent.cons _, hkept.cons_cons _⟩

/-! ### The node keeps its id -/

theorem setNodeState_nodeId (ipc : IpcManager) (now : Time) (node : Node) (state : NodeState) :
    (ipc.setNodeState now node state).nodeId = ipc.nodeId := by
  rw [IpcManager.setNodeState]
  cases ipc.hostfileMap.find? node with
  | none => rfl
  | some host => rfl

theorem setDead_nodeId (ipc : IpcManager) (now : Time) (node : Node) :
    (ipc.setDead now node).nodeId = ipc.nodeId := by
  rw [IpcManager.setDead]
  cases ipc.hostfileMap.find? node with
  | none => rfl
  | some host =>
    dsimp only
    split
    · rfl
    · exact setNodeState_nodeId ipc now node .dead

theorem setAlive_nodeId (ipc : IpcManager) (now : Time) (node : Node) :
    (ipc.setAlive now node).nodeId = ipc.nodeId := by
  rw [IpcManager.setAlive]
  cases ipc.hostfileMap.find? node with
  | none => rfl
  | some host =>
    dsimp only
    split
    · rfl
    · exact setNodeState_nodeId ipc now node .alive

/-- What the second loop sends or keeps was queued, and what it sends goes to the node that
asked. -/
theorem retryOut_tasks (fuel k i : Nat) (s : NetState π) :
    (retryOut env fuel k i s).ipc.nodeId = s.ipc.nodeId ∧
      (∀ e ∈ (retryOut env fuel k i s).sendOutRetry, ∃ e₀ ∈ s.sendOutRetry, e₀.task = e.task) ∧
      ∀ x ∈ (retryOut env fuel k i s).replies, x ∈ s.replies ∨
        ∃ e₀ ∈ s.sendOutRetry, x = (e₀.task.poolQuery.retNode.toUInt64, e₀.task) := by
  induction fuel generalizing k i s with
  | zero => exact ⟨rfl, fun e he => ⟨e, he, rfl⟩, fun x hx => Or.inl hx⟩
  | succ fuel ih =>
    rw [retryOut]
    cases hget : s.sendOutRetry[i]? with
    | none => exact ⟨rfl, fun e he => ⟨e, he, rfl⟩, fun x hx => Or.inl hx⟩
    | some entry =>
      have hentry := List.mem_of_getElem? hget
      dsimp only
      split
      · obtain ⟨hnode, hkept, hsent⟩ :=
          ih (k + 1) i { s with sendOutRetry := s.sendOutRetry.eraseIdx i }
        refine ⟨hnode, ?_, ?_⟩
        · intro e he
          obtain ⟨e₀, he₀, htask⟩ := hkept e he
          exact ⟨e₀, List.mem_of_mem_eraseIdx he₀, htask⟩
        · intro x hx
          rcases hsent x hx with hx | ⟨e₀, he₀, heq⟩
          · exact Or.inl hx
          · exact Or.inr ⟨e₀, List.mem_of_mem_eraseIdx he₀, heq⟩
      · split
        · obtain ⟨ipc, recvMap, replies, sendOutRetry, hsend, hipc, hreplies, hqueue⟩ :=
            @sendOut_writes π env s k entry.task
          rw [hsend]
          obtain ⟨hnode, hkept, hsent⟩ := ih (k + 1) i
            { s with
              ipc := ipc, recvMap := recvMap, replies := replies
              sendOutRetry := sendOutRetry.eraseIdx i }
          have hold : ∀ e ∈ sendOutRetry, ∃ e₀ ∈ s.sendOutRetry, e₀.task = e.task := by
            intro e he
            rcases hqueue with rfl | rfl
            · exact ⟨e, he, rfl⟩
            · rcases List.mem_append.mp he with he | he
              · exact ⟨e, he, rfl⟩
              · rw [List.mem_singleton.mp he]
                exact ⟨entry, hentry, rfl⟩
          refine ⟨?_, ?_, ?_⟩
          · rw [hnode]
            rcases hipc with rfl | rfl
            · rfl
            · exact setDead_nodeId _ _ _
          · intro e he
            obtain ⟨e₀, he₀, htask⟩ := hkept e he
            obtain ⟨e₁, he₁, htask₁⟩ := hold e₀ (List.mem_of_mem_eraseIdx he₀)
            exact ⟨e₁, he₁, htask₁.trans htask⟩
          · intro x hx
            rcases hsent x hx with hx | ⟨e₀, he₀, heq⟩
            · rcases hreplies with rfl | rfl
              · exact Or.inl hx
              · rcases List.mem_append.mp hx with hx | hx
                · exact Or.inl hx
                · exact Or.inr ⟨entry, hentry, List.mem_singleton.mp hx⟩
            · obtain ⟨e₁, he₁, htask₁⟩ := hold e₀ (List.mem_of_mem_eraseIdx he₀)
              exact Or.inr ⟨e₁, he₁, by rw [heq, htask₁]⟩
        · exact ih (k + 1) (i + 1) s

/-- Taking up a request sends nothing and queues nothing. -/
theorem recvIn_lists (s : NetState π) (task : NetTask π) :
    (s.recvIn env task).requests = s.requests ∧
      ((s.recvIn env task).dispatched = s.dispatched ∨
        (s.recvIn env task).dispatched = s.dispatched ++ [task]) ∧
      (s.recvIn env task).sendInRetry.Sublist s.sendInRetry := by
  have hrevive : ∀ sender, (s.revive env sender).requests = s.requests ∧
      (s.revive env sender).dispatched = s.dispatched ∧
      (s.revive env sender).sendInRetry.Sublist s.sendInRetry := by
    intro sender
    rw [revive]
    split
    · obtain ⟨sendMap, counted, hflush⟩ := flush_writes s sender
      rw [hflush]
      exact ⟨rfl, rfl, List.filter_sublist⟩
    · exact ⟨rfl, rfl, List.Sublist.refl _⟩
  rw [recvIn]
  split
  · obtain ⟨hrequests, hdispatched, hqueue⟩ := hrevive task.poolQuery.retNode.toUInt64
    refine ⟨hrequests, Or.inr ?_, hqueue⟩
    show (s.revive env task.poolQuery.retNode.toUInt64).dispatched ++ [task] = _
    rw [hdispatched]
  · exact ⟨rfl, Or.inl rfl, List.Sublist.refl _⟩

/-! ### A cluster of two -/

/-- Two nodes, seen from node 0. -/
def twoNodes : IpcManager :=
  IpcManager.load 0 ⟨[(0, ⟨"10.0.0.1", .alive, 0⟩), (1, ⟨"10.0.0.2", .alive, 0⟩)], by decide⟩

/-- Every pool is known, container `c` is on node `c`, and every message gets out. -/
def fairEnv : Env Unit where
  now := 0
  hasContainer := fun _ => true
  containerNode := fun _ containerId => containerId
  sendsIn := fun _ => true
  sendsOut := fun _ => true
  aggregate := fun body _ => body

/-- A task for one node. -/
def taskFor (node : UInt32) : Outgoing Unit :=
  { poolId := ⟨1, 0⟩, poolQuery := PoolQuery.localQuery, body := ()
    poolQueries := [{ PoolQuery.localQuery with routingMode := .physical, nodeId := node }]
    hasContainer := true }

end NetState
end Cluster
end IowarpCore
