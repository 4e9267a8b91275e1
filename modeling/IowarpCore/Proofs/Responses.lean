/-
Answers that could not be sent.

`SendOut` takes the request out of `recv_map_` before it looks whether the answer can be
sent.  A queued answer is sent by calling `SendOut` again, which looks the request up again.
So what decides over a queued answer is whether, by then, `recv_map_` holds another request
under its key (`resent_iff`).
-/
import IowarpCore.Proofs.Remote

namespace IowarpCore
namespace Cluster
namespace NetState

variable {π : Type} {env : Env π} {s : NetState π}

/-! ### Queued answers are for the node that asked -/

def Addressed (s : NetState π) : Prop :=
  ∀ entry ∈ s.sendOutRetry, entry.targetNodeId = entry.task.poolQuery.retNode.toUInt64

theorem Addressed.sub {s' : NetState π} (h : Addressed s)
    (hsub : ∀ entry ∈ s'.sendOutRetry, entry ∈ s.sendOutRetry) : Addressed s' :=
  fun entry hentry => h entry (hsub entry hentry)

theorem addressed_sendOut (h : Addressed s) (k : Nat) (task : NetTask π) :
    Addressed (s.sendOut env k task) := by
  obtain ⟨ipc, recvMap, replies, sendOutRetry, hwrites, _, _, hqueue⟩ :=
    @sendOut_writes π env s k task
  rw [hwrites]
  intro entry hentry
  rcases hqueue with hqueue | hqueue
  · exact h entry (hqueue ▸ hentry)
  · have hmem : entry ∈ s.sendOutRetry ++ [⟨task, task.poolQuery.retNode.toUInt64, env.now⟩] :=
      hqueue ▸ hentry
    rcases List.mem_append.mp hmem with hold | hnew
    · exact h entry hold
    · rw [List.mem_singleton.mp hnew]

theorem addressed_retryOut (fuel k i : Nat) (s : NetState π) (h : Addressed s) :
    Addressed (retryOut env fuel k i s) := by
  induction fuel generalizing k i s with
  | zero => exact h
  | succ fuel ih =>
    rw [retryOut]
    cases s.sendOutRetry[i]? with
    | none => exact h
    | some entry =>
      dsimp only
      split
      · exact ih _ _ _ (h.sub fun _ hmem => List.mem_of_mem_eraseIdx hmem)
      · split
        · exact ih _ _ _ ((addressed_sendOut h k entry.task).sub
            fun _ hmem => List.mem_of_mem_eraseIdx hmem)
        · exact ih _ _ _ h

theorem addressed_revive (h : Addressed s) (sender : Node) : Addressed (s.revive env sender) := by
  rw [revive]
  split
  · obtain ⟨sendMap, counted, hflush⟩ := flush_writes s sender
    rw [hflush]
    exact h.sub fun _ hmem => (List.mem_filter.mp hmem).1
  · exact h

theorem addressed_apply (op : NetOp π) (h : Addressed s) : Addressed (s.apply op) := by
  cases op with
  | sendIn env addr task =>
    obtain ⟨_, _, _, _, _, _, hwrites⟩ := @sendIn_writes π env s addr task
    rw [apply, hwrites]
    exact h
  | reply env k body =>
    rw [apply, reply]
    cases s.requests[k]? with
    | none => exact h
    | some request =>
      obtain ⟨_, _, _, _, hwrites⟩ := @recvOut_writes π env
        { s with requests := s.requests.eraseIdx k } { request.2 with body := body }
      simp only [hwrites]
      exact h
  | recvIn env task =>
    rw [apply, recvIn]
    split
    · exact addressed_revive h task.poolQuery.retNode.toUInt64
    · exact h
  | finish env i body =>
    rw [apply, finish]
    cases s.dispatched[i]? with
    | none => exact h
    | some task =>
      have hrest : Addressed { s with dispatched := s.dispatched.eraseIdx i } := h
      exact addressed_sendOut hrest 0 { task with body := body }
  | processRetryQueues env => exact addressed_retryOut _ 0 0 (s.retriesIn env) h
  | scanSendMapTimeouts env => exact h
  | setNodeState now node state => exact h
  | setDead now node => exact h
  | setAlive now node => exact h

theorem addressed_run (ipc : IpcManager) (ops : List (NetOp π)) :
    Addressed (ops.foldl apply (start ipc)) := by
  have hrun : ∀ s : NetState π, Addressed s → Addressed (ops.foldl apply s) := by
    induction ops with
    | nil => exact fun s h => h
    | cons op ops ih => exact fun s h => ih (s.apply op) (addressed_apply op h)
  exact hrun (start ipc) (fun _ hentry => absurd hentry List.not_mem_nil)

/-! ### The second loop, with a transport that works -/

/-- The entry is sent again if its request is found. -/
def due (env : Env π) (ipc : IpcManager) (entry : RetryEntry π) : Bool :=
  !timedOut env entry && ipc.isAlive entry.targetNodeId && env.hasContainer entry.task.poolId

/-- The answers of a queue that get out, given the requests that are found. -/
def resent (env : Env π) (ipc : IpcManager) :
    AMap UInt64 (NetTask π) → List (RetryEntry π) → List (Node × NetTask π)
  | _, [] => []
  | recvMap, entry :: entries =>
    if due env ipc entry ∧ recvMap.contains (recvKey entry.task) then
      (entry.targetNodeId, entry.task) :: resent env ipc (recvMap.erase (recvKey entry.task)) entries
    else resent env ipc recvMap entries

section

variable {entry : RetryEntry π}

/-- The request is found, and the answer goes out. -/
theorem sendOut_found (hsend : ∀ k, env.sendsOut k = true) (k : Nat)
    (htarget : entry.targetNodeId = entry.task.poolQuery.retNode.toUInt64)
    (hdue : due env s.ipc entry = true) (hfound : s.recvMap.contains (recvKey entry.task) = true) :
    s.sendOut env k entry.task =
      { s with
        recvMap := s.recvMap.erase (recvKey entry.task)
        replies := s.replies ++ [(entry.targetNodeId, entry.task)] } := by
  simp only [due, Bool.and_eq_true] at hdue
  obtain ⟨request, hrequest⟩ := Option.isSome_iff_exists.mp hfound
  rw [sendOut, if_pos hdue.2, hrequest, ← htarget]
  simp [hdue.1.2, hsend]

theorem sendOut_lost (hpool : env.hasContainer entry.task.poolId = false ∨
    s.recvMap.contains (recvKey entry.task) = false) (k : Nat) :
    s.sendOut env k entry.task = s := by
  rw [sendOut]
  rcases hpool with hpool | hlost
  · simp [hpool]
  · have hnone : s.recvMap.find? (recvKey entry.task) = none := by
      simpa [AMap.contains] using hlost
    simp [hnone]

theorem drop_eraseIdx {α : Type} (l : List α) (i : Nat) :
    (l.eraseIdx i).drop i = l.drop (i + 1) := by
  rw [List.eraseIdx_eq_take_drop_succ]
  by_cases hi : i ≤ l.length
  · rw [List.drop_append_of_le_length (by simp [hi])]
    simp
  · rw [List.drop_eq_nil_of_le (by simp; omega), List.drop_eq_nil_of_le (by omega)]

theorem retryOut_replies (hsend : ∀ k, env.sendsOut k = true) (fuel k i : Nat) (s : NetState π)
    (h : Addressed s) (hfuel : s.sendOutRetry.length - i < fuel) :
    (retryOut env fuel k i s).replies =
      s.replies ++ resent env s.ipc s.recvMap (s.sendOutRetry.drop i) := by
  induction fuel generalizing k i s with
  | zero => omega
  | succ fuel ih =>
    rw [retryOut]
    cases hget : s.sendOutRetry[i]? with
    | none =>
      rw [List.drop_eq_nil_of_le (List.getElem?_eq_none_iff.mp hget), resent]
      simp
    | some entry =>
      obtain ⟨hi, hentry⟩ := List.getElem?_eq_some_iff.mp hget
      have hdrop : s.sendOutRetry.drop i = entry :: s.sendOutRetry.drop (i + 1) := by
        rw [List.drop_eq_getElem_cons hi, hentry]
      have herase : ∀ s' : NetState π, s'.sendOutRetry = s.sendOutRetry →
          (s'.sendOutRetry.eraseIdx i).length - i < fuel ∧
            (s'.sendOutRetry.eraseIdx i).drop i = s.sendOutRetry.drop (i + 1) := by
        intro s' heq
        rw [heq, List.length_eraseIdx_of_lt hi, drop_eraseIdx]
        exact ⟨by omega, rfl⟩
      have hsub : ∀ s' : NetState π, s'.sendOutRetry = s.sendOutRetry →
          Addressed { s' with sendOutRetry := s'.sendOutRetry.eraseIdx i } := by
        intro s' heq e hmem
        rw [heq] at hmem
        exact h e (List.mem_of_mem_eraseIdx hmem)
      rw [hdrop, resent]
      dsimp only
      -- An entry is skipped here exactly if it is not due there.
      by_cases htime : timedOut env entry
      · rw [if_pos htime, ih _ _ _ (hsub s rfl) (herase s rfl).1, (herase s rfl).2]
        simp [due, htime]
      · rw [if_neg htime]
        by_cases halive : s.ipc.isAlive entry.targetNodeId
        · rw [if_pos halive]
          by_cases hsent : due env s.ipc entry ∧ s.recvMap.contains (recvKey entry.task)
          · rw [if_pos hsent, sendOut_found hsend k (h entry (List.mem_of_getElem? hget)) hsent.1
              hsent.2]
            dsimp only
            rw [ih (k + 1) i
              { s with
                recvMap := s.recvMap.erase (recvKey entry.task)
                replies := s.replies ++ [(entry.targetNodeId, entry.task)]
                sendOutRetry := s.sendOutRetry.eraseIdx i }
              (hsub s rfl) (herase s rfl).1]
            rw [drop_eraseIdx, List.append_assoc, List.singleton_append]
          · have hlost : env.hasContainer entry.task.poolId = false ∨
                s.recvMap.contains (recvKey entry.task) = false := by
              by_cases hpool : env.hasContainer entry.task.poolId
              · refine Or.inr (Bool.eq_false_iff.mpr fun hfound => hsent ⟨?_, hfound⟩)
                simp [due, htime, halive, hpool]
              · exact Or.inl (Bool.eq_false_iff.mpr hpool)
            rw [if_neg hsent, sendOut_lost hlost, ih _ _ _ (hsub s rfl) (herase s rfl).1,
              (herase s rfl).2]
        · rw [if_neg halive, ih _ _ _ h (by omega)]
          simp [due, halive]

/-- An answer gets out if the first entry that is due under its key finds a request, and is
that answer. -/
theorem mem_resent {ipc : IpcManager} (entries : List (RetryEntry π))
    (h : ∀ e ∈ entries, e.targetNodeId = e.task.poolQuery.retNode.toUInt64)
    (htarget : entry.targetNodeId = entry.task.poolQuery.retNode.toUInt64)
    (recvMap : AMap UInt64 (NetTask π)) :
    (entry.targetNodeId, entry.task) ∈ resent env ipc recvMap entries ↔
      recvMap.contains (recvKey entry.task) = true ∧
        (entries.find? fun e => due env ipc e && recvKey e.task = recvKey entry.task).map
          RetryEntry.task = some entry.task := by
  induction entries generalizing recvMap with
  | nil => simp [resent]
  | cons e entries ih =>
    have ih' := fun m => ih (fun e' he' => h e' (List.mem_cons_of_mem _ he')) m
    have he : e.task = entry.task → e.targetNodeId = entry.targetNodeId := fun heq => by
      rw [htarget, h e (by simp), heq]
    rw [resent, List.find?_cons]
    by_cases hdue : due env ipc e = true
    · by_cases hkey : recvKey e.task = recvKey entry.task
      · have herased : (recvMap.erase (recvKey entry.task)).contains (recvKey entry.task) = false := by
          simp [AMap.contains, AMap.find?_erase_self]
        simp only [hdue, hkey, true_and, decide_true, Bool.and_self, Option.map_some,
          Option.some.injEq]
        by_cases hfound : recvMap.contains (recvKey entry.task) = true
        · rw [if_pos hfound, List.mem_cons, ih', herased]
          simp only [Prod.mk.injEq, Bool.false_eq_true, false_and, or_false, hfound, true_and]
          exact ⟨fun heq => heq.2.symm, fun heq => ⟨(he heq).symm, heq.symm⟩⟩
        · rw [if_neg hfound, ih']
          simp [hfound]
      · have hne : recvKey entry.task ≠ recvKey e.task := fun heq => hkey heq.symm
        have hother : (recvMap.erase (recvKey e.task)).contains (recvKey entry.task) =
            recvMap.contains (recvKey entry.task) := by
          simp [AMap.contains, AMap.find?_erase_of_ne _ hne]
        have hskip : (entry.targetNodeId, entry.task) ≠ (e.targetNodeId, e.task) := by
          intro heq
          exact hne (congrArg recvKey (congrArg Prod.snd heq))
        simp only [hdue, hkey, decide_false, Bool.and_false, true_and]
        by_cases hfound : recvMap.contains (recvKey e.task) = true
        · rw [if_pos hfound, List.mem_cons, ih', hother]
          simp [hskip]
        · rw [if_neg hfound, ih']
    · rw [if_neg (fun hboth => hdue hboth.1), ih']
      simp [hdue]

end

/-- **A queued answer whose node is back is sent exactly when its key is taken again.**  In
every run, an answer on the queue is sent by `ProcessRetryQueues`, with a transport that works, if
and only if `recv_map_` holds a request under the key of the answer, and the answer is the first
of the queue that is due under that key. -/
theorem resent_iff (ipc : IpcManager) (ops : List (NetOp π)) {entry : RetryEntry π}
    (hs : s = ops.foldl apply (start ipc)) (hentry : entry ∈ s.sendOutRetry)
    (hsend : ∀ k, env.sendsOut k = true) :
    ∃ sent, (s.processRetryQueues env).replies = s.replies ++ sent ∧
      ((entry.targetNodeId, entry.task) ∈ sent ↔
        s.recvMap.contains (recvKey entry.task) = true ∧
          (s.sendOutRetry.find? fun e =>
            due env s.ipc e && recvKey e.task = recvKey entry.task).map RetryEntry.task =
              some entry.task) := by
  have haddressed : Addressed s := hs ▸ addressed_run ipc ops
  refine ⟨resent env s.ipc s.recvMap s.sendOutRetry, ?_, ?_⟩
  · have hloop := retryOut_replies hsend (2 * s.sendOutRetry.length + 1) 0 0 (s.retriesIn env)
      haddressed (show s.sendOutRetry.length - 0 < _ by omega)
    rw [List.drop_zero] at hloop
    exact hloop
  · exact mem_resent s.sendOutRetry haddressed (haddressed entry hentry) s.recvMap

/-- A request of node 1. -/
def request : NetTask Unit :=
  ⟨0x1000, 0, ⟨1, 0⟩, { PoolQuery.localQuery with routingMode := .physical, retNode := 1 }, (), 1, 0⟩

/-- The request is answered while node 1 is held to be dead, and then a probe finds it alive. -/
def deadAndBack : List (NetOp Unit) :=
  [.recvIn fairEnv request, .setDead 0 1, .finish fairEnv 0 (), .setNodeState 0 1 .alive]

theorem resent_iff_deadAndBack :
    ∃ sent, ((deadAndBack.foldl apply (start twoNodes)).processRetryQueues fairEnv).replies =
        (deadAndBack.foldl apply (start twoNodes)).replies ++ sent ∧
      (((1 : Node), request) ∈ sent ↔
        (deadAndBack.foldl apply (start twoNodes)).recvMap.contains (recvKey request) = true ∧
          ((deadAndBack.foldl apply (start twoNodes)).sendOutRetry.find? fun e =>
            due fairEnv (deadAndBack.foldl apply (start twoNodes)).ipc e &&
              recvKey e.task = recvKey request).map RetryEntry.task = some request) :=
  @resent_iff Unit fairEnv _ twoNodes deadAndBack ⟨request, 1, 0⟩ rfl (by decide +kernel)
    (fun _ => rfl)

/-- The answer is on the queue, its node is alive, its time is not over and the transport works,
and it is dropped from the queue without being sent. -/
theorem queued_answer_lost :
    ∃ entry, (deadAndBack.foldl apply (start twoNodes)).sendOutRetry = [entry] ∧
      (deadAndBack.foldl apply (start twoNodes)).ipc.isAlive entry.targetNodeId = true ∧
      timedOut fairEnv entry = false ∧
      ((deadAndBack.foldl apply (start twoNodes)).processRetryQueues fairEnv).sendOutRetry = [] ∧
      ((deadAndBack.foldl apply (start twoNodes)).processRetryQueues fairEnv).replies = [] :=
  ⟨⟨request, 1, 0⟩, by decide +kernel⟩

end NetState
end Cluster
end IowarpCore
