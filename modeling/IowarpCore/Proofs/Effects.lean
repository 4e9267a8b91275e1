/-
What a step of the network worker does with requests and answers.

`SendIn` makes new requests (`Made`); every other step only moves what the node holds, takes up
the message it is given, and counts (`Effect`).  The statements follow a request under all the
forms it takes: on the wire, in a queue, handed to a worker, answered.
-/
import IowarpCore.Proofs.Remote

namespace IowarpCore
namespace Cluster

variable {π : Type} {env : Env π}

/-! ### Keys -/

/-- Multiplication by an odd constant loses nothing. -/
theorem mul_key_injective {a b : UInt64}
    (h : a * 0x9e3779b97f4a7c15 = b * 0x9e3779b97f4a7c15) : a = b := by
  have hinv : (0x9e3779b97f4a7c15 : UInt64) * 0xf1de83e19937733d = 1 := by decide
  calc a = a * (0x9e3779b97f4a7c15 * 0xf1de83e19937733d) := by rw [hinv, UInt64.mul_one]
    _ = b * (0x9e3779b97f4a7c15 * 0xf1de83e19937733d) := by
        rw [← UInt64.mul_assoc, h, UInt64.mul_assoc]
    _ = b := by rw [hinv, UInt64.mul_one]

/-- Two replicas of one task have different keys. -/
theorem replicaId_of_recvKey {t t' : NetTask π} (hkey : t.netKey = t'.netKey)
    (h : recvKey t = recvKey t') : t.replicaId = t'.replicaId := by
  rw [recvKey, recvKey, hkey] at h
  have hcancel := congrArg (fun x => t'.netKey ^^^ x) h
  simp only [← UInt64.xor_assoc, UInt64.xor_self, UInt64.zero_xor] at hcancel
  have hmul := mul_key_injective hcancel
  rw [← UInt32.toNat_inj]
  have hnat := congrArg UInt64.toNat hmul
  simpa using hnat

namespace NetState

variable {s : NetState π}

/-! ### What `SendIn` sends -/

/-- A copy made for a task under an address. -/
structure MadeFor (s : NetState π) (addr : UInt64) (id : Nat) (t : NetTask π) : Prop where
  netKey : t.netKey = addr
  sender : t.sender = s.ipc.nodeId
  retNode : t.poolQuery.retNode = s.ipc.nodeId.toUInt32
  sendId : t.sendId = id

/-- The task under an address is in `send_map_`. -/
def Holds (s : NetState π) (addr : UInt64) (poolId : PoolId) (id : Nat) : Prop :=
  ∃ origin, s.sendMap.find? addr = some origin ∧ origin.poolId = poolId ∧ origin.sendId = id

/-- The copies among what was sent and what was queued. -/
def copies (new : List (Node × NetTask π)) (queued : List (RetryEntry π)) : List (NetTask π) :=
  new.map Prod.snd ++ queued.map RetryEntry.task

theorem copies_append_perm (new new' : List (Node × NetTask π)) (queued queued' : List (RetryEntry π)) :
    (copies (new ++ new') (queued ++ queued')).Perm (copies new queued ++ copies new' queued') := by
  simp only [copies, List.map_append, List.append_assoc]
  refine List.Perm.append_left _ ?_
  exact List.perm_append_comm_assoc _ _ _

/-- What the loop of `SendIn` has done from one state to another: `new` was sent and `queued`
was queued. -/
structure Made (env : Env π) (addr : UInt64) (poolId : PoolId) (id : Nat) (s s' : NetState π)
    (i : Nat) (queries : List PoolQuery) (new : List (Node × NetTask π))
    (queued : List (RetryEntry π)) : Prop where
  requests : s'.requests = s.requests ++ new
  sendInRetry : s'.sendInRetry = s.sendInRetry ++ queued
  holds : Holds s' addr poolId id
  others : ∀ key origin, (key, origin) ∈ s'.sendMap.entries →
    key = addr ∨ (key, origin) ∈ s.sendMap.entries
  nodeId : s'.ipc.nodeId = s.ipc.nodeId
  made : ∀ t ∈ copies new queued, MadeFor s addr id t
  places : ∀ t ∈ copies new queued,
    i ≤ t.replicaId.toNat ∧ t.replicaId.toNat < i + queries.length
  targets : ∀ x ∈ new, ∃ query, queries[x.2.replicaId.toNat - i]? = some query ∧
    s.targetNodeId env poolId query = some x.1
  distinct : ((copies new queued).map NetTask.replicaId).Nodup

theorem targetNodeId_congr {s' : NetState π} (h : s'.ipc.nodeId = s.ipc.nodeId) (poolId : PoolId)
    (query : PoolQuery) : s'.targetNodeId env poolId query = s.targetNodeId env poolId query := by
  rw [targetNodeId, targetNodeId, h]

section

variable {addr : UInt64} {poolId : PoolId} {id i : Nat} {query : PoolQuery}

theorem made_nothing {s' : NetState π} {queries : List PoolQuery} (hrequests : s'.requests = s.requests)
    (hretry : s'.sendInRetry = s.sendInRetry) (hholds : Holds s' addr poolId id)
    (hothers : ∀ key origin, (key, origin) ∈ s'.sendMap.entries →
      key = addr ∨ (key, origin) ∈ s.sendMap.entries)
    (hnode : s'.ipc.nodeId = s.ipc.nodeId) :
    Made env addr poolId id s s' i queries [] [] where
  requests := by rw [hrequests, List.append_nil]
  sendInRetry := by rw [hretry, List.append_nil]
  holds := hholds
  others := hothers
  nodeId := hnode
  made := by simp [copies]
  places := by simp [copies]
  targets := by simp
  distinct := by simp [copies]

theorem sendInReplica_made (h : Holds s addr poolId id) (hi : i < 2 ^ 32) :
    ∃ new queued,
      Made env addr poolId id s (s.sendInReplica env addr i query) i [query] new queued := by
  obtain ⟨origin, hfind, hpool, hid⟩ := h
  have hsame : ∃ new queued, Made env addr poolId id s s i [query] new queued :=
    ⟨[], [], made_nothing rfl rfl ⟨origin, hfind, hpool, hid⟩ (fun _ _ ho => Or.inr ho) rfl⟩
  cases htarget : s.targetNodeId env origin.poolId query with
  | none =>
    rw [sendInReplica]
    simp only [hfind, htarget]
    exact hsame
  | some target =>
    cases hhost : s.ipc.getHost target with
    | none =>
      rw [sendInReplica]
      simp only [hfind, htarget, hhost]
      exact hsame
    | some host =>
      have hothers : ∀ key o, (key, o) ∈ (s.setSubtask addr origin i
          (s.newCopyTask addr origin i query)).sendMap.entries →
          key = addr ∨ (key, o) ∈ s.sendMap.entries := by
        intro key o ho
        rcases AMap.mem_insertOrAssign.mp ho with ⟨hkey, _⟩ | ⟨_, ho⟩
        · exact Or.inl hkey
        · exact Or.inr ho
      have hholds : Holds (s.setSubtask addr origin i (s.newCopyTask addr origin i query)) addr
          poolId id := ⟨_, AMap.find?_insertOrAssign_self _ _ _, hpool, hid⟩
      have hmade : MadeFor s addr id (s.newCopyTask addr origin i query) := ⟨rfl, rfl, rfl, hid⟩
      have hplace : (s.newCopyTask addr origin i query).replicaId.toNat = i :=
        UInt32.toNat_ofNat_of_lt' hi
      rcases sendInReplica_cases (i := i) hfind htarget (by rw [hhost]; rfl) with
        heq | ⟨ipc, hipc, heq⟩ | ⟨_, _, heq⟩
      · rw [heq]
        refine ⟨[(target, s.newCopyTask addr origin i query)], [], rfl, by simp [setSubtask], hholds,
          hothers, rfl, by simpa [copies] using hmade, ?_, ?_, by simp [copies]⟩
        · simp [copies, hplace]
        · simpa [hplace, ← hpool] using htarget
      · have hnode : ipc.nodeId = s.ipc.nodeId := by
          rcases hipc with rfl | rfl
          · rfl
          · exact setDead_nodeId _ _ _
        rw [heq]
        refine ⟨[], [⟨s.newCopyTask addr origin i query, target, env.now⟩], by simp [setSubtask],
          rfl, hholds, hothers, hnode, by simpa [copies] using hmade, ?_, by simp, by simp [copies]⟩
        simp [copies, hplace]
      · rw [heq]
        refine ⟨[], [], ?_⟩
        rw [countReplica]
        simp only [setSubtask, AMap.find?_insertOrAssign_self]
        refine made_nothing rfl rfl ⟨_, AMap.find?_insertOrAssign_self _ _ _, hpool, hid⟩ ?_ rfl
        intro key o ho
        rcases AMap.mem_insertOrAssign.mp ho with ⟨hkey, _⟩ | ⟨_, ho⟩
        · exact Or.inl hkey
        · exact hothers key o ho

theorem sendInLoop_made (queries : List PoolQuery) (i : Nat) (s : NetState π)
    (h : Holds s addr poolId id) (hbound : i + queries.length ≤ 2 ^ 32) :
    ∃ new queued,
      Made env addr poolId id s (sendInLoop env addr i queries s) i queries new queued := by
  induction queries generalizing i s with
  | nil => exact ⟨[], [], made_nothing rfl rfl h (fun _ _ ho => Or.inr ho) rfl⟩
  | cons query queries ih =>
    rw [List.length_cons] at hbound
    obtain ⟨new, queued, hfirst⟩ := @sendInReplica_made π env s addr poolId id i query h (by omega)
    obtain ⟨new', queued', hrest⟩ := ih (i + 1) (s.sendInReplica env addr i query) hfirst.holds
      (by omega)
    have hperm := copies_append_perm new new' queued queued'
    rw [sendInLoop]
    refine ⟨new ++ new', queued ++ queued', ?_, ?_, hrest.holds, ?_, ?_, ?_, ?_, ?_, ?_⟩
    · rw [hrest.requests, hfirst.requests, List.append_assoc]
    · rw [hrest.sendInRetry, hfirst.sendInRetry, List.append_assoc]
    · intro key origin ho
      rcases hrest.others key origin ho with hkey | ho
      · exact Or.inl hkey
      · exact hfirst.others key origin ho
    · rw [hrest.nodeId, hfirst.nodeId]
    · intro t ht
      rcases List.mem_append.mp (hperm.mem_iff.mp ht) with ht | ht
      · exact hfirst.made t ht
      · obtain ⟨hkey, hsender, hret, hid⟩ := hrest.made t ht
        rw [hfirst.nodeId] at hsender hret
        exact ⟨hkey, hsender, hret, hid⟩
    · intro t ht
      rw [List.length_cons]
      rcases List.mem_append.mp (hperm.mem_iff.mp ht) with ht | ht
      · have hplace := hfirst.places t ht
        rw [List.length_singleton] at hplace
        omega
      · have hplace := hrest.places t ht
        omega
    · intro x hx
      rcases List.mem_append.mp hx with hx | hx
      · obtain ⟨q, hq, htarget⟩ := hfirst.targets x hx
        have hplace := hfirst.places x.2 (List.mem_append_left _ (List.mem_map.mpr ⟨x, hx, rfl⟩))
        rw [List.length_singleton] at hplace
        have hzero : x.2.replicaId.toNat - i = 0 := by omega
        rw [hzero] at hq ⊢
        exact ⟨q, hq, htarget⟩
      · obtain ⟨q, hq, htarget⟩ := hrest.targets x hx
        have hplace := hrest.places x.2 (List.mem_append_left _ (List.mem_map.mpr ⟨x, hx, rfl⟩))
        have hsucc : x.2.replicaId.toNat - i = x.2.replicaId.toNat - (i + 1) + 1 := by omega
        rw [targetNodeId_congr hfirst.nodeId] at htarget
        rw [hsucc]
        exact ⟨q, hq, htarget⟩
    · refine (hperm.map NetTask.replicaId).nodup_iff.mpr ?_
      rw [List.map_append]
      refine List.nodup_append.mpr ⟨hfirst.distinct, hrest.distinct, ?_⟩
      intro r hr r' hr' heq
      obtain ⟨t, ht, rfl⟩ := List.mem_map.mp hr
      obtain ⟨t', ht', rfl⟩ := List.mem_map.mp hr'
      have hplace := hfirst.places t ht
      have hplace' := hrest.places t' ht'
      rw [List.length_singleton] at hplace
      rw [heq] at hplace
      omega

end

/-! ### What the other steps do with requests and answers -/

/-- The request, or its answer, is somewhere on this node. -/
def Held (s : NetState π) (t : NetTask π) : Prop :=
  t ∈ s.requests.map Prod.snd ∨ t ∈ s.sendInRetry.map RetryEntry.task ∨ t ∈ s.dispatched ∨
    t ∈ s.sendOutRetry.map RetryEntry.task ∨ t ∈ s.replies.map Prod.snd

/-- One and the same request, perhaps answered. -/
structure SameRequest (t t' : NetTask π) : Prop where
  netKey : t'.netKey = t.netKey
  replicaId : t'.replicaId = t.replicaId
  poolQuery : t'.poolQuery = t.poolQuery
  sender : t'.sender = t.sender
  sendId : t'.sendId = t.sendId

theorem SameRequest.refl (t : NetTask π) : SameRequest t t := ⟨rfl, rfl, rfl, rfl, rfl⟩

/-- A step of a node that starts no task.  `given` is the request it takes up, `answer` the
answer. -/
structure Effect (s s' : NetState π) (given answer : NetTask π → Prop) : Prop where
  nodeId : s'.ipc.nodeId = s.ipc.nodeId
  sendMap : ∀ key origin', (key, origin') ∈ s'.sendMap.entries →
    ∃ origin, (key, origin) ∈ s.sendMap.entries ∧ origin.sendId = origin'.sendId
  held : ∀ t', s'.Held t' → ∃ t, (s.Held t ∨ given t) ∧ SameRequest t t'
  replies : ∀ x ∈ s'.replies, x ∈ s.replies ∨ x.1 = x.2.poolQuery.retNode.toUInt64
  aggregated : ∀ x ∈ s'.aggregated, x ∈ s.aggregated ∨
    answer x.1 ∧ ∃ origin, (x.1.netKey, origin) ∈ s.sendMap.entries ∧ x.2 = origin.sendId

/-- No message. -/
def nothing : NetTask π → Prop := fun _ => False

theorem effect_ipc (ipc : IpcManager) (h : ipc.nodeId = s.ipc.nodeId)
    (given answer : NetTask π → Prop) : Effect s { s with ipc := ipc } given answer where
  nodeId := h
  sendMap := fun _ origin ho => ⟨origin, ho, rfl⟩
  held := fun t ht => ⟨t, Or.inl ht, .refl t⟩
  replies := fun _ hx => Or.inl hx
  aggregated := fun _ hx => Or.inl hx

theorem effect_scan : Effect s (s.scanSendMapTimeouts env) nothing nothing where
  nodeId := rfl
  sendMap := fun _ origin ho => ⟨origin, (AMap.mem_filter.mp ho).1, rfl⟩
  held := fun t ht => ⟨t, Or.inl ht, .refl t⟩
  replies := fun _ hx => Or.inl hx
  aggregated := fun _ hx => Or.inl hx

theorem effect_revive (sender : Node) (given : NetTask π → Prop) :
    Effect s (s.revive env sender) given nothing := by
  rw [revive]
  split
  · obtain ⟨sendMap, counted, hflush⟩ := flush_writes s sender
    have hids : ∀ key origin', (key, origin') ∈ sendMap.entries →
        ∃ origin, (key, origin) ∈ s.sendMap.entries ∧ origin.sendId = origin'.sendId := by
      intro key origin' ho
      have hmap : (s.flushStaleStateForNode sender).sendMap = sendMap := by rw [hflush]
      rw [← hmap] at ho
      obtain ⟨origin, hmem, hid, _⟩ := countAll_origins _ s ho
      exact ⟨origin, hmem, hid⟩
    rw [hflush]
    refine ⟨setAlive_nodeId _ _ _, hids, ?_, fun _ hx => Or.inl hx, fun _ hx => Or.inl hx⟩
    intro t ht
    refine ⟨t, Or.inl ?_, .refl t⟩
    have hsub : ∀ entries : List (RetryEntry π),
        t ∈ (entries.filter fun entry => entry.targetNodeId ≠ sender).map RetryEntry.task →
          t ∈ entries.map RetryEntry.task := fun entries => (List.filter_sublist.map _).mem
    rcases ht with ht | ht | ht | ht | ht
    · exact Or.inl ht
    · exact Or.inr (Or.inl (hsub _ ht))
    · exact Or.inr (Or.inr (Or.inl ht))
    · exact Or.inr (Or.inr (Or.inr (Or.inl (hsub _ ht))))
    · exact Or.inr (Or.inr (Or.inr (Or.inr ht)))
  · exact effect_ipc s.ipc rfl given nothing

theorem effect_recvIn (task : NetTask π) : Effect s (s.recvIn env task) (· = task) nothing := by
  rw [recvIn]
  split
  · obtain ⟨hnode, hmap, hheld, hreplies, hagg⟩ := @effect_revive π env s
      task.poolQuery.retNode.toUInt64 (· = task)
    refine ⟨hnode, hmap, ?_, hreplies, hagg⟩
    intro t ht
    rcases ht with ht | ht | ht | ht | ht
    · exact hheld t (Or.inl ht)
    · exact hheld t (Or.inr (Or.inl ht))
    · rcases List.mem_append.mp ht with ht | ht
      · exact hheld t (Or.inr (Or.inr (Or.inl ht)))
      · exact ⟨task, Or.inr rfl, List.mem_singleton.mp ht ▸ .refl task⟩
    · exact hheld t (Or.inr (Or.inr (Or.inr (Or.inl ht))))
    · exact hheld t (Or.inr (Or.inr (Or.inr (Or.inr ht))))
  · exact effect_ipc s.ipc rfl _ _

theorem effect_recvOut (task : NetTask π) : Effect s (s.recvOut env task) nothing (· = task) := by
  rw [recvOut]
  cases hfind : s.sendMap.find? task.netKey with
  | none => exact effect_ipc s.ipc rfl _ _
  | some origin =>
    have hmem := AMap.find?_eq_some_iff.mp hfind
    have hagg : ∀ x ∈ s.aggregated ++ [(task, origin.sendId)], x ∈ s.aggregated ∨
        x.1 = task ∧ ∃ o, (x.1.netKey, o) ∈ s.sendMap.entries ∧ x.2 = o.sendId := by
      intro x hx
      rcases List.mem_append.mp hx with hx | hx
      · exact Or.inl hx
      · rw [List.mem_singleton.mp hx]
        exact Or.inr ⟨rfl, origin, hmem, rfl⟩
    dsimp only
    split
    · exact effect_ipc s.ipc rfl _ _
    · cases (origin.subtasks[task.replicaId.toNat]?).join with
      | none => exact effect_ipc s.ipc rfl _ _
      | some replica =>
        dsimp only
        split
        · refine ⟨rfl, ?_, fun t ht => ⟨t, Or.inl ht, .refl t⟩, fun _ hx => Or.inl hx, hagg⟩
          exact fun key o ho => ⟨o, (AMap.mem_erase.mp ho).2, rfl⟩
        · refine ⟨rfl, ?_, fun t ht => ⟨t, Or.inl ht, .refl t⟩, fun _ hx => Or.inl hx, hagg⟩
          intro key o ho
          rcases AMap.mem_insertOrAssign.mp ho with ⟨rfl, rfl⟩ | ⟨_, ho⟩
          · exact ⟨origin, hmem, rfl⟩
          · exact ⟨o, ho, rfl⟩

theorem effect_finish (i : Nat) (body : π) :
    Effect s (s.finish env i body) nothing nothing := by
  rw [finish]
  cases hget : s.dispatched[i]? with
  | none => exact effect_ipc s.ipc rfl _ _
  | some task =>
    obtain ⟨ipc, recvMap, replies, sendOutRetry, hwrites, hipc, hreplies, hqueue⟩ :=
      @sendOut_writes π env { s with dispatched := s.dispatched.eraseIdx i } 0
        { task with body := body }
    have htask : s.Held task := Or.inr (Or.inr (Or.inl (List.mem_of_getElem? hget)))
    have hsame : SameRequest task { task with body := body } := ⟨rfl, rfl, rfl, rfl, rfl⟩
    dsimp only
    rw [hwrites]
    refine ⟨?_, fun _ o ho => ⟨o, ho, rfl⟩, ?_, ?_, fun _ hx => Or.inl hx⟩
    · rcases hipc with rfl | rfl
      · rfl
      · exact setDead_nodeId _ _ _
    · intro t ht
      rcases ht with ht | ht | ht | ht | ht
      · exact ⟨t, Or.inl (Or.inl ht), .refl t⟩
      · exact ⟨t, Or.inl (Or.inr (Or.inl ht)), .refl t⟩
      · have hold := List.mem_of_mem_eraseIdx ht
        exact ⟨t, Or.inl (Or.inr (Or.inr (Or.inl hold))), .refl t⟩
      · rcases hqueue with rfl | rfl
        · exact ⟨t, Or.inl (Or.inr (Or.inr (Or.inr (Or.inl ht)))), .refl t⟩
        · rw [List.map_append] at ht
          rcases List.mem_append.mp ht with ht | ht
          · exact ⟨t, Or.inl (Or.inr (Or.inr (Or.inr (Or.inl ht)))), .refl t⟩
          · rw [List.mem_singleton.mp ht]
            exact ⟨task, Or.inl htask, hsame⟩
      · rcases hreplies with rfl | rfl
        · exact ⟨t, Or.inl (Or.inr (Or.inr (Or.inr (Or.inr ht)))), .refl t⟩
        · rw [List.map_append] at ht
          rcases List.mem_append.mp ht with ht | ht
          · exact ⟨t, Or.inl (Or.inr (Or.inr (Or.inr (Or.inr ht)))), .refl t⟩
          · rw [List.mem_singleton.mp ht]
            exact ⟨task, Or.inl htask, hsame⟩
    · intro x hx
      rcases hreplies with rfl | rfl
      · exact Or.inl hx
      · rcases List.mem_append.mp hx with hx | hx
        · exact Or.inl hx
        · rw [List.mem_singleton.mp hx]
          exact Or.inr rfl

/-- The fields the second loop of `ProcessRetryQueues` leaves are those after the first. -/
theorem processRetryQueues_writes (s : NetState π) :
    ∃ ipc recvMap replies sendOutRetry, s.processRetryQueues env =
        { s.retriesIn env with
          ipc := ipc, recvMap := recvMap, replies := replies, sendOutRetry := sendOutRetry } ∧
      ipc.nodeId = s.ipc.nodeId ∧
      (∀ e ∈ sendOutRetry, ∃ e₀ ∈ s.sendOutRetry, e₀.task = e.task) ∧
      ∀ x ∈ replies, x ∈ s.replies ∨
        ∃ e₀ ∈ s.sendOutRetry, x = (e₀.task.poolQuery.retNode.toUInt64, e₀.task) := by
  obtain ⟨ipc, recvMap, replies, sendOutRetry, hloop⟩ := @retryOut_writes π env
    (2 * s.sendOutRetry.length + 1) 0 0 (s.retriesIn env)
  have htasks := @retryOut_tasks π env (2 * s.sendOutRetry.length + 1) 0 0 (s.retriesIn env)
  rw [hloop] at htasks
  exact ⟨ipc, recvMap, replies, sendOutRetry, hloop, htasks⟩

theorem effect_retry : Effect s (s.processRetryQueues env) nothing nothing := by
  obtain ⟨ipc, recvMap, replies, sendOutRetry, hwrites, hnode, hqueue, hreplies⟩ :=
    @processRetryQueues_writes π env s
  obtain ⟨hsent, hkept⟩ := @retryInAll_sublists π env s s.sendInRetry 0
  rw [hwrites]
  refine ⟨hnode, fun _ o ho => ⟨o, ho, rfl⟩, ?_, ?_, fun _ hx => Or.inl hx⟩
  · intro t ht
    rcases ht with ht | ht | ht | ht | ht
    · have ht : t ∈ (s.requests ++
          (s.retryInAll env 0 s.sendInRetry).filterMap Retried.sent?).map Prod.snd := ht
      rw [List.map_append] at ht
      rcases List.mem_append.mp ht with ht | ht
      · exact ⟨t, Or.inl (Or.inl ht), .refl t⟩
      · exact ⟨t, Or.inl (Or.inr (Or.inl (hsent.mem ht))), .refl t⟩
    · exact ⟨t, Or.inl (Or.inr (Or.inl (hkept.mem ht))), .refl t⟩
    · exact ⟨t, Or.inl (Or.inr (Or.inr (Or.inl ht))), .refl t⟩
    · obtain ⟨e, he, rfl⟩ := List.mem_map.mp ht
      obtain ⟨e₀, he₀, htask⟩ := hqueue e he
      have hheld : e.task ∈ s.sendOutRetry.map RetryEntry.task := List.mem_map.mpr ⟨e₀, he₀, htask⟩
      exact ⟨e.task, Or.inl (Or.inr (Or.inr (Or.inr (Or.inl hheld)))), .refl _⟩
    · obtain ⟨x, hx, rfl⟩ := List.mem_map.mp ht
      rcases hreplies x hx with hx | ⟨e₀, he₀, rfl⟩
      · have hheld : x.2 ∈ s.replies.map Prod.snd := List.mem_map.mpr ⟨x, hx, rfl⟩
        exact ⟨x.2, Or.inl (Or.inr (Or.inr (Or.inr (Or.inr hheld)))), .refl _⟩
      · have hheld : e₀.task ∈ s.sendOutRetry.map RetryEntry.task := List.mem_map.mpr ⟨e₀, he₀, rfl⟩
        exact ⟨e₀.task, Or.inl (Or.inr (Or.inr (Or.inr (Or.inl hheld)))), .refl _⟩
  · intro x hx
    rcases hreplies x hx with hx | ⟨e₀, he₀, rfl⟩
    · exact Or.inl hx
    · exact Or.inr rfl

end NetState
end Cluster
end IowarpCore
