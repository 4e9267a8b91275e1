/-
The accounts of the tasks a node has sent.

A replica of an origin task is outstanding while a request for it is on the wire or queued,
and is counted when it is through.  As long as every replica of a task is one or the other and
not all of them are counted, the task can still come to its end (`Books`, `Open`).

Several paths of the source break the accounts: a replica whose host is unknown, or whose
request times out in the queue, is neither; a replica that is skipped or flushed is counted
without a look at whether it was the last; and an address that is used again while messages
under it are outstanding mixes two tasks up.  `Accountable` keeps to the steps where none of
this happens, and `accounted_of_run` says that then the accounts hold in every run.
-/
import IowarpCore.Proofs.Remote

namespace IowarpCore
namespace Cluster
namespace NetState

variable {π : Type} {env : Env π} {s s' : NetState π}

/-- The replicas that may still be answered. -/
def outstanding (s : NetState π) : List (NetTask π) :=
  s.requests.map Prod.snd ++ s.sendInRetry.map RetryEntry.task

def tag (t : NetTask π) : Nat × UInt32 := (t.sendId, t.replicaId)

/-- The tasks of `send_map_` and those that ended. -/
def sendIds (s : NetState π) : List Nat :=
  s.sendMap.entries.map (fun entry => entry.2.sendId) ++ s.ended.map OriginTask.sendId

/-- Every replica of a task in `send_map_` is counted once, outstanding once, or one of the
`due` ones that `SendIn` has not come to yet. -/
structure Books (s : NetState π) (out : List (NetTask π)) (due : UInt64 → Nat) : Prop where
  tags : (s.counted ++ out.map tag).Nodup
  current : ∀ key origin, (key, origin) ∈ s.sendMap.entries → ∀ t ∈ out, t.netKey = key →
    t.sendId = origin.sendId
  complete : ∀ key origin, (key, origin) ∈ s.sendMap.entries →
    origin.completedReplicas + out.countP (fun t => t.netKey = key) + due key =
      origin.subtasks.length
  sent : ∀ key origin, (key, origin) ∈ s.sendMap.entries → ∀ t ∈ out, t.netKey = key →
    ∃ copy, origin.subtasks[t.replicaId.toNat]? = some (some copy)
  ids : (sendIds s).Nodup
  idsBelow : ∀ id ∈ sendIds s, id < s.nextSend
  tagsBelow : ∀ x ∈ s.counted ++ out.map tag, x.1 < s.nextSend

/-- Every task in `send_map_` can still be completed. -/
def Open (s : NetState π) : Prop :=
  ∀ key origin, (key, origin) ∈ s.sendMap.entries → ∃ t ∈ outstanding s, t.netKey = key

/-- Writing to a task leaves the ids as they are. -/
theorem sendIds_assigned {key : UInt64} {origin origin' : OriginTask π}
    (hfind : s.sendMap.find? key = some origin) (hid : origin'.sendId = origin.sendId)
    (hsendMap : s.sendMap.Assigned key origin' s'.sendMap) (hended : s'.ended = s.ended) :
    (sendIds s').Perm (sendIds s) := by
  rw [sendIds, sendIds, hended]
  refine List.Perm.append_right _ ?_
  have hnew := hsendMap.perm.map (fun entry => entry.2.sendId)
  have hbefore := (AMap.entries_perm_of_find hfind).map (fun entry => entry.2.sendId)
  rw [List.map_cons, hid] at hnew
  rw [List.map_cons] at hbefore
  exact hnew.trans hbefore.symm

namespace Books

variable {out out' : List (NetTask π)} {due : UInt64 → Nat} {t : NetTask π}
  {origin origin' : OriginTask π}

theorem perm (h : Books s out due) (hperm : out.Perm out') : Books s out' due where
  tags := ((hperm.map tag).append_left s.counted).nodup_iff.mp h.tags
  current := fun key origin hmem t ht => h.current key origin hmem t (hperm.mem_iff.mpr ht)
  complete := by
    intro key origin hmem
    rw [← hperm.countP_eq]
    exact h.complete key origin hmem
  sent := fun key origin hmem t ht => h.sent key origin hmem t (hperm.mem_iff.mpr ht)
  ids := h.ids
  idsBelow := h.idsBelow
  tagsBelow := fun x hx =>
    h.tagsBelow x (((hperm.map tag).append_left s.counted).mem_iff.mpr hx)

/-- The books say nothing about the other fields. -/
theorem frame (h : Books s out due) (hsendMap : s'.sendMap = s.sendMap)
    (hcounted : s'.counted = s.counted) (hended : s'.ended = s.ended)
    (hnext : s'.nextSend = s.nextSend) : Books s' out due := by
  obtain ⟨tags, current, complete, sent, ids, idsBelow, tagsBelow⟩ := h
  have hids : sendIds s' = sendIds s := by rw [sendIds, sendIds, hsendMap, hended]
  refine ⟨?_, ?_, ?_, ?_, ?_, ?_, ?_⟩
  · rw [hcounted]
    exact tags
  · rw [hsendMap]
    exact current
  · rw [hsendMap]
    exact complete
  · rw [hsendMap]
    exact sent
  · rw [hids]
    exact ids
  · rw [hids, hnext]
    exact idsBelow
  · rw [hcounted, hnext]
    exact tagsBelow

/-- A replica of a task that is gone may be forgotten. -/
theorem drop (h : Books s (t :: out) due) (hgone : s.sendMap.find? t.netKey = none) :
    Books s out due where
  tags := h.tags.sublist ((List.sublist_cons_self _ _).append_left _)
  current := fun key origin hmem t' ht' =>
    h.current key origin hmem t' (List.mem_cons_of_mem _ ht')
  complete := by
    intro key origin hmem
    have hkey : ¬t.netKey = key := by
      intro heq
      exact AMap.find?_eq_none_iff.mp hgone origin (heq ▸ hmem)
    have hcount := h.complete key origin hmem
    rwa [List.countP_cons_of_neg (by simpa using hkey)] at hcount
  sent := fun key origin hmem t' ht' => h.sent key origin hmem t' (List.mem_cons_of_mem _ ht')
  ids := h.ids
  idsBelow := h.idsBelow
  tagsBelow := fun x hx => h.tagsBelow x
    (((List.sublist_cons_self (tag t) (out.map tag)).append_left s.counted).mem hx)

theorem drops (gone : List (NetTask π)) (h : Books s (gone ++ out) due)
    (hgone : ∀ t ∈ gone, s.sendMap.find? t.netKey = none) : Books s out due := by
  induction gone with
  | nil => exact h
  | cons t gone ih =>
    exact ih (h.drop (hgone t (by simp))) fun t' ht' => hgone t' (List.mem_cons_of_mem _ ht')

/-- What counting an outstanding replica does to the tags. -/
theorem count_tags (h : Books s (t :: out) due) (hmem : (t.netKey, origin) ∈ s.sendMap.entries) :
    (s.counted ++ (t :: out).map tag).Perm
      ((s.counted ++ [(origin.sendId, t.replicaId)]) ++ out.map tag) := by
  have htag : tag t = (origin.sendId, t.replicaId) := by
    rw [tag, h.current t.netKey origin hmem t (by simp) rfl]
  rw [List.map_cons, htag, List.append_assoc, List.singleton_append]

/-- An outstanding replica is counted, and its task waits on. -/
theorem count (h : Books s (t :: out) due) (hfind : s.sendMap.find? t.netKey = some origin)
    (hsub : origin'.subtasks = origin.subtasks) (hid : origin'.sendId = origin.sendId)
    (hcompleted : origin'.completedReplicas = origin.completedReplicas + 1)
    (hsendMap : s.sendMap.Assigned t.netKey origin' s'.sendMap)
    (hcounted : s'.counted = s.counted ++ [(origin.sendId, t.replicaId)])
    (hended : s'.ended = s.ended) (hnext : s'.nextSend = s.nextSend) : Books s' out due := by
  have hmem := AMap.find?_eq_some_iff.mp hfind
  have htags := h.count_tags hmem
  -- The new entry stands for the old one in everything but the counter.
  have hold : ∀ key o', (key, o') ∈ s'.sendMap.entries → ∃ o, (key, o) ∈ s.sendMap.entries ∧
      o'.subtasks = o.subtasks ∧ o'.sendId = o.sendId ∧
      (key = t.netKey → o'.completedReplicas = o.completedReplicas + 1) ∧
      (key ≠ t.netKey → o'.completedReplicas = o.completedReplicas) := by
    intro key o' ho'
    rcases (hsendMap key o').mp ho' with ⟨rfl, rfl⟩ | ⟨hne, ho'⟩
    · exact ⟨origin, hmem, hsub, hid, fun _ => hcompleted, fun hne => absurd rfl hne⟩
    · exact ⟨o', ho', rfl, rfl, fun heq => absurd heq hne, fun _ => rfl⟩
  have hids := sendIds_assigned hfind hid hsendMap hended
  refine ⟨?_, ?_, ?_, ?_, ?_, ?_, ?_⟩
  · rw [hcounted]
    exact htags.nodup_iff.mp h.tags
  · intro key o' ho' t' ht' hkey
    obtain ⟨o, ho, _, hid', _⟩ := hold key o' ho'
    rw [hid']
    exact h.current key o ho t' (List.mem_cons_of_mem _ ht') hkey
  · intro key o' ho'
    obtain ⟨o, ho, hsub', _, hsame, hother⟩ := hold key o' ho'
    have hcomplete := h.complete key o ho
    by_cases hkey : t.netKey = key
    · rw [List.countP_cons_of_pos (by simpa using hkey)] at hcomplete
      rw [hsub', hsame hkey.symm]
      omega
    · rw [List.countP_cons_of_neg (by simpa using hkey)] at hcomplete
      rw [hsub', hother (fun heq => hkey heq.symm)]
      exact hcomplete
  · intro key o' ho' t' ht' hkey
    obtain ⟨o, ho, hsub', _⟩ := hold key o' ho'
    rw [hsub']
    exact h.sent key o ho t' (List.mem_cons_of_mem _ ht') hkey
  · exact hids.nodup_iff.mpr h.ids
  · intro id hmem'
    rw [hnext]
    exact h.idsBelow id (hids.mem_iff.mp hmem')
  · intro x hx
    rw [hcounted] at hx
    rw [hnext]
    exact h.tagsBelow x (htags.mem_iff.mpr hx)

/-- The last outstanding replica is counted, and its task ends. -/
theorem finish (h : Books s (t :: out) due) (hfind : s.sendMap.find? t.netKey = some origin)
    (hid : origin'.sendId = origin.sendId) (hsendMap : s'.sendMap = s.sendMap.erase t.netKey)
    (hcounted : s'.counted = s.counted ++ [(origin.sendId, t.replicaId)])
    (hended : s'.ended = s.ended ++ [origin']) (hnext : s'.nextSend = s.nextSend) :
    Books s' out due := by
  have hmem := AMap.find?_eq_some_iff.mp hfind
  have htags := h.count_tags hmem
  have hrest : ∀ key o, (key, o) ∈ s'.sendMap.entries →
      ¬t.netKey = key ∧ (key, o) ∈ s.sendMap.entries := by
    intro key o ho
    rw [hsendMap, AMap.mem_erase] at ho
    exact ⟨fun heq => ho.1 heq.symm, ho.2⟩
  have hids : (sendIds s').Perm (sendIds s) := by
    rw [sendIds, sendIds, hended, hsendMap, List.map_append, List.map_singleton, hid]
    have hbefore := ((AMap.entries_perm_of_find hfind).map (fun entry => entry.2.sendId)).append_right
      (s.ended.map OriginTask.sendId)
    rw [List.map_cons, List.cons_append] at hbefore
    refine List.Perm.trans ?_ hbefore.symm
    rw [← List.append_assoc]
    exact List.perm_append_singleton _ _
  refine ⟨?_, ?_, ?_, ?_, ?_, ?_, ?_⟩
  · rw [hcounted]
    exact htags.nodup_iff.mp h.tags
  · intro key o ho t' ht' hkey
    exact h.current key o (hrest key o ho).2 t' (List.mem_cons_of_mem _ ht') hkey
  · intro key o ho
    have hcomplete := h.complete key o (hrest key o ho).2
    rwa [List.countP_cons_of_neg (by simpa using (hrest key o ho).1)] at hcomplete
  · intro key o ho t' ht' hkey
    exact h.sent key o (hrest key o ho).2 t' (List.mem_cons_of_mem _ ht') hkey
  · exact hids.nodup_iff.mpr h.ids
  · intro id hmem'
    rw [hnext]
    exact h.idsBelow id (hids.mem_iff.mp hmem')
  · intro x hx
    rw [hcounted] at hx
    rw [hnext]
    exact h.tagsBelow x (htags.mem_iff.mpr hx)

/-- `SendIn` makes a copy for replica `i`, and the copy is outstanding. -/
theorem request (h : Books s out due) {due' : UInt64 → Nat} {i : Nat}
    (hfind : s.sendMap.find? t.netKey = some origin) (htag : tag t = (origin.sendId, UInt32.ofNat i))
    (hi : i < 2 ^ 32) (hlt : i < origin.subtasks.length)
    (hsub : origin'.subtasks = origin.subtasks.set i (some t)) (hid : origin'.sendId = origin.sendId)
    (hcompleted : origin'.completedReplicas = origin.completedReplicas)
    (hfresh : tag t ∉ s.counted ++ out.map tag)
    (hdue : due t.netKey = due' t.netKey + 1) (hdue' : ∀ key, key ≠ t.netKey → due' key = due key)
    (hsendMap : s.sendMap.Assigned t.netKey origin' s'.sendMap) (hcounted : s'.counted = s.counted)
    (hended : s'.ended = s.ended) (hnext : s'.nextSend = s.nextSend) : Books s' (t :: out) due' := by
  have hmem := AMap.find?_eq_some_iff.mp hfind
  have hids := sendIds_assigned hfind hid hsendMap hended
  have hreplica : t.replicaId.toNat = i := by
    have hsecond : t.replicaId = UInt32.ofNat i := congrArg Prod.snd htag
    rw [hsecond, UInt32.toNat_ofNat_of_lt' hi]
  have htags : (s.counted ++ (t :: out).map tag).Perm (tag t :: (s.counted ++ out.map tag)) :=
    List.perm_middle
  refine ⟨?_, ?_, ?_, ?_, ?_, ?_, ?_⟩
  · rw [hcounted]
    exact htags.nodup_iff.mpr (List.nodup_cons.mpr ⟨hfresh, h.tags⟩)
  · intro key o' ho' t' ht' hkey
    rcases (hsendMap key o').mp ho' with ⟨rfl, rfl⟩ | ⟨hne, ho⟩
    · rw [hid]
      rcases List.mem_cons.mp ht' with rfl | ht'
      · exact congrArg Prod.fst htag
      · exact h.current t.netKey origin hmem t' ht' hkey
    · rcases List.mem_cons.mp ht' with rfl | ht'
      · exact absurd hkey.symm hne
      · exact h.current key o' ho t' ht' hkey
  · intro key o' ho'
    rcases (hsendMap key o').mp ho' with ⟨rfl, rfl⟩ | ⟨hne, ho⟩
    · have hcomplete := h.complete t.netKey origin hmem
      rw [List.countP_cons_of_pos (by simp), hcompleted, hsub, List.length_set]
      omega
    · have hcomplete := h.complete key o' ho
      rw [List.countP_cons_of_neg (by simpa using fun heq : t.netKey = key => hne heq.symm),
        hdue' key hne]
      exact hcomplete
  · intro key o' ho' t' ht' hkey
    rcases (hsendMap key o').mp ho' with ⟨rfl, rfl⟩ | ⟨hne, ho⟩
    · rw [hsub]
      by_cases hsame : t'.replicaId.toNat = i
      · exact ⟨t, by rw [hsame, List.getElem?_set_self hlt]⟩
      · rw [List.getElem?_set_ne (fun heq => hsame heq.symm)]
        rcases List.mem_cons.mp ht' with rfl | ht'
        · exact absurd hreplica hsame
        · exact h.sent t.netKey origin hmem t' ht' hkey
    · rcases List.mem_cons.mp ht' with rfl | ht'
      · exact absurd hkey.symm hne
      · exact h.sent key o' ho t' ht' hkey
  · exact hids.nodup_iff.mpr h.ids
  · intro id hid'
    rw [hnext]
    exact h.idsBelow id (hids.mem_iff.mp hid')
  · intro x hx
    rw [hcounted] at hx
    rw [hnext]
    rcases List.mem_cons.mp (htags.mem_iff.mp hx) with rfl | hx
    · rw [htag]
      exact h.idsBelow origin.sendId
        (List.mem_append_left _ (List.mem_map.mpr ⟨_, hmem, rfl⟩))
    · exact h.tagsBelow x hx

end Books

/-! ### The steps -/

section

variable {out : List (NetTask π)} {due : UInt64 → Nat}

theorem countReplica_books {t : NetTask π} (h : Books s (t :: out) due) :
    Books (s.countReplica t.netKey t.replicaId) out due := by
  cases hfind : s.sendMap.find? t.netKey with
  | none =>
    rw [countReplica, hfind]
    exact h.drop hfind
  | some origin =>
    have hmap : (s.countReplica t.netKey t.replicaId).sendMap = s.sendMap.insertOrAssign t.netKey
        { origin with completedReplicas := origin.completedReplicas + 1 } := by
      simp only [countReplica, hfind]
    have hcounted : (s.countReplica t.netKey t.replicaId).counted =
        s.counted ++ [(origin.sendId, t.replicaId)] := by
      simp only [countReplica, hfind]
    obtain ⟨_, _, hwrites⟩ := countReplica_writes s t.netKey t.replicaId
    have hassigned := AMap.assigned_insertOrAssign s.sendMap t.netKey
      { origin with completedReplicas := origin.completedReplicas + 1 }
    rw [← hmap] at hassigned
    rw [hwrites] at hassigned hcounted ⊢
    exact h.count hfind (by rfl) (by rfl) (by rfl) hassigned hcounted rfl rfl

theorem countAll_books (entries : List (RetryEntry π)) (s : NetState π)
    (h : Books s (entries.map RetryEntry.task ++ out) due) :
    Books (entries.foldl (fun s entry => s.countReplica entry.task.netKey entry.task.replicaId) s)
      out due := by
  induction entries generalizing s with
  | nil => exact h
  | cons entry entries ih => exact ih _ (countReplica_books h)

end

/-- No replica is due outside of `SendIn`. -/
def settled : UInt64 → Nat := fun _ => 0

/-- The replicas that remain outstanding when what waits for a node is flushed. -/
def keptFor (s : NetState π) (node : Node) : List (NetTask π) :=
  s.requests.map Prod.snd ++
    (s.sendInRetry.filter fun entry => entry.targetNodeId ≠ node).map RetryEntry.task

theorem flush_outstanding (s : NetState π) (node : Node) :
    outstanding (s.flushStaleStateForNode node) = keptFor s node := by
  obtain ⟨sendMap, counted, hflush⟩ := flush_writes s node
  rw [hflush]
  rfl

theorem flush_books (h : Books s (outstanding s) settled) (node : Node) :
    Books (s.flushStaleStateForNode node) (keptFor s node) settled := by
  have hperm : (outstanding s).Perm
      ((s.sendInRetry.filter fun entry => entry.targetNodeId = node).map RetryEntry.task ++
        keptFor s node) := by
    have hsplit := (List.filter_append_perm (fun entry : RetryEntry π => entry.targetNodeId = node)
      s.sendInRetry).symm.map RetryEntry.task
    rw [List.map_append] at hsplit
    have hmoved := (hsplit.append_left (s.requests.map Prod.snd)).trans
      (List.perm_append_comm_assoc _ _ _)
    simpa only [outstanding, keptFor, decide_not] using hmoved
  have hcount := countAll_books _ s (h.perm hperm)
  exact hcount.frame rfl rfl rfl rfl

theorem revive_books (h : Books s (outstanding s) settled) (sender : Node) :
    Books (s.revive env sender) (outstanding (s.revive env sender)) settled := by
  rw [revive]
  split
  · have hbooks := flush_books h sender
    rw [← flush_outstanding] at hbooks
    exact hbooks.frame rfl rfl rfl rfl
  · exact h

/-- The tasks whose time in the queue is over. -/
def expired (env : Env π) (entries : List (RetryEntry π)) : List (NetTask π) :=
  (entries.filter fun entry => timedOut env entry).map RetryEntry.task

theorem retryInAll_perm (s : NetState π) (entries : List (RetryEntry π)) (i : Nat) :
    (entries.map RetryEntry.task).Perm
      (expired env entries ++
        (((s.retryInAll env i entries).filterMap Retried.sent?).map Prod.snd ++
          ((s.retryInAll env i entries).filterMap Retried.kept?).map RetryEntry.task)) := by
  induction entries generalizing i with
  | nil => exact List.Perm.refl _
  | cons entry entries ih =>
    have hrest := (ih (i + 1)).cons entry.task
    rw [retryInAll, List.map_cons]
    rcases @retryIn_cases π env s i entry with ⟨htime, hout⟩ | ⟨htime, node, _, hout⟩ |
      ⟨htime, node, hout⟩
    · have hexpired : expired env (entry :: entries) = entry.task :: expired env entries := by
        simp [expired, htime]
      rw [hout, hexpired]
      exact hrest
    · have hexpired : expired env (entry :: entries) = expired env entries := by
        simp [expired, htime]
      rw [hout, hexpired]
      exact hrest.trans List.perm_middle.symm
    · have hexpired : expired env (entry :: entries) = expired env entries := by
        simp [expired, htime]
      rw [hout, hexpired]
      refine hrest.trans (List.perm_middle.symm.trans (List.Perm.append_left _ ?_))
      exact List.perm_middle.symm

theorem retriesIn_outstanding (s : NetState π) :
    (outstanding s).Perm (expired env s.sendInRetry ++ outstanding (s.retriesIn env)) := by
  have hqueue := (@retryInAll_perm π env s s.sendInRetry 0).append_left (s.requests.map Prod.snd)
  have hmoved := hqueue.trans (List.perm_append_comm_assoc _ _ _)
  simpa only [outstanding, retriesIn, List.map_append, List.append_assoc] using hmoved

/-- The second loop of the retries leaves the requests alone. -/
theorem processRetryQueues_eq (s : NetState π) :
    ∃ ipc recvMap replies sendOutRetry, s.processRetryQueues env =
      { s.retriesIn env with
        ipc := ipc, recvMap := recvMap, replies := replies, sendOutRetry := sendOutRetry } :=
  @retryOut_writes π env (2 * s.sendOutRetry.length + 1) 0 0 (s.retriesIn env)

theorem processRetryQueues_outstanding (s : NetState π) :
    outstanding (s.processRetryQueues env) = outstanding (s.retriesIn env) := by
  obtain ⟨ipc, recvMap, replies, sendOutRetry, heq⟩ := @processRetryQueues_eq π env s
  rw [heq]
  rfl

theorem processRetryQueues_books (h : Books s (outstanding s) settled)
    (hexpired : ∀ t ∈ expired env s.sendInRetry, s.sendMap.find? t.netKey = none) :
    Books (s.processRetryQueues env) (outstanding (s.processRetryQueues env)) settled := by
  have hbooks := (h.perm (@retriesIn_outstanding π env s)).drops _ hexpired
  rw [processRetryQueues_outstanding]
  obtain ⟨ipc, recvMap, replies, sendOutRetry, heq⟩ := @processRetryQueues_eq π env s
  rw [heq]
  exact hbooks.frame rfl rfl rfl rfl

/-- No task in `send_map_` has all of its replicas counted. -/
def Waiting (s : NetState π) : Prop :=
  ∀ key origin, (key, origin) ∈ s.sendMap.entries →
    origin.completedReplicas < origin.subtasks.length

theorem waiting_iff_open (h : Books s (outstanding s) settled) : Waiting s ↔ Open s := by
  have hcount : ∀ key origin, (key, origin) ∈ s.sendMap.entries →
      (origin.completedReplicas < origin.subtasks.length ↔
        ∃ t ∈ outstanding s, t.netKey = key) := by
    intro key origin hmem
    have hcomplete := h.complete key origin hmem
    have hpos : 0 < (outstanding s).countP (fun t => t.netKey = key) ↔
        ∃ t ∈ outstanding s, t.netKey = key := by
      simp [List.countP_pos_iff]
    rw [← hpos]
    simp only [settled] at hcomplete
    omega
  constructor
  · intro hwaiting key origin hmem
    exact (hcount key origin hmem).mp (hwaiting key origin hmem)
  · intro hopen key origin hmem
    exact (hcount key origin hmem).mpr (hopen key origin hmem)

/-- The origin task after one more answer. -/
def answered (env : Env π) (origin : OriginTask π) (task : NetTask π) : OriginTask π :=
  { origin with
    body := env.aggregate origin.body task.body
    completedReplicas := origin.completedReplicas + 1 }

/-- An answer for a task that waits is counted, and ends the task if it is the last. -/
theorem recvOut_found {task : NetTask π} {origin : OriginTask π} {copy : NetTask π}
    (hfind : s.sendMap.find? task.netKey = some origin) (hpool : env.hasContainer origin.poolId = true)
    (hcopy : origin.subtasks[task.replicaId.toNat]? = some (some copy)) :
    ∃ sendMap aggregated ended, s.recvOut env task =
        { s with
          sendMap := sendMap, aggregated := aggregated, ended := ended
          counted := s.counted ++ [(origin.sendId, task.replicaId)] } ∧
      ((origin.completedReplicas + 1 = origin.subtasks.length ∧
          sendMap = s.sendMap.erase task.netKey ∧
          ended = s.ended ++ [{ answered env origin task with subtasks := [], hasContainer := true }]) ∨
        (origin.completedReplicas + 1 ≠ origin.subtasks.length ∧
          sendMap = s.sendMap.insertOrAssign task.netKey (answered env origin task) ∧
          ended = s.ended)) := by
  rw [recvOut, hfind]
  simp only [hpool, hcopy, Bool.true_eq_false, if_false, Option.join_some]
  by_cases hlast : origin.completedReplicas + 1 = origin.subtasks.length
  · rw [if_pos hlast]
    exact ⟨_, _, _, rfl, Or.inl ⟨hlast, rfl, rfl⟩⟩
  · rw [if_neg hlast]
    exact ⟨_, _, _, rfl, Or.inr ⟨hlast, rfl, rfl⟩⟩

theorem recvOut_books {t : NetTask π} {out : List (NetTask π)} {body : π}
    (h : Books s (t :: out) settled) (hwaiting : Waiting s)
    (hpool : ∀ origin, s.sendMap.find? t.netKey = some origin →
      env.hasContainer origin.poolId = true) :
    Books (s.recvOut env { t with body := body }) out settled ∧
      Waiting (s.recvOut env { t with body := body }) := by
  cases hfind : s.sendMap.find? t.netKey with
  | none =>
    have hsame : s.recvOut env { t with body := body } = s := by
      rw [recvOut]
      simp only [hfind]
    rw [hsame]
    exact ⟨h.drop hfind, hwaiting⟩
  | some origin =>
    have hmem := AMap.find?_eq_some_iff.mp hfind
    obtain ⟨copy, hcopy⟩ := h.sent t.netKey origin hmem t (by simp) rfl
    have hbefore := hwaiting t.netKey origin hmem
    obtain ⟨sendMap, aggregated, ended, heq, hcases⟩ := @recvOut_found π env s
      { t with body := body } origin copy hfind (hpool origin hfind) hcopy
    rw [heq]
    rcases hcases with ⟨_, hmap, hended⟩ | ⟨hlast, hmap, hended⟩
    · refine ⟨h.finish hfind (by rfl) hmap rfl hended rfl, ?_⟩
      intro key o ho
      have ho : (key, o) ∈ (s.sendMap.erase t.netKey).entries := hmap ▸ ho
      exact hwaiting key o (AMap.mem_erase.mp ho).2
    · have hassigned := AMap.assigned_insertOrAssign s.sendMap t.netKey
        (answered env origin { t with body := body })
      rw [← hmap] at hassigned
      refine ⟨h.count hfind (by rfl) (by rfl) (by rfl) hassigned rfl hended rfl, ?_⟩
      intro key o ho
      have ho : (key, o) ∈
          (s.sendMap.insertOrAssign t.netKey (answered env origin { t with body := body })).entries :=
        hmap ▸ ho
      rcases AMap.mem_insertOrAssign.mp ho with ⟨_, rfl⟩ | ⟨_, ho⟩
      · show origin.completedReplicas + 1 < origin.subtasks.length
        omega
      · exact hwaiting key o ho

theorem reply_books {k : Nat} {body : π} (h : Books s (outstanding s) settled)
    (hwaiting : Waiting s)
    (hpool : ∀ request, s.requests[k]? = some request → ∀ origin,
      s.sendMap.find? request.2.netKey = some origin → env.hasContainer origin.poolId = true) :
    Books (s.reply env k body) (outstanding (s.reply env k body)) settled ∧
      Waiting (s.reply env k body) := by
  rw [reply]
  cases hget : s.requests[k]? with
  | none => exact ⟨h, hwaiting⟩
  | some request =>
    have hperm : (outstanding s).Perm
        (request.2 :: outstanding { s with requests := s.requests.eraseIdx k }) :=
      ((perm_cons_eraseIdx hget).map Prod.snd).append_right _
    have hbooks : Books { s with requests := s.requests.eraseIdx k }
        (request.2 :: outstanding { s with requests := s.requests.eraseIdx k }) settled :=
      (h.perm hperm).frame rfl rfl rfl rfl
    have hafter := @recvOut_books π env { s with requests := s.requests.eraseIdx k } request.2 _ body
      hbooks hwaiting (hpool request hget)
    obtain ⟨_, _, _, _, hwrites⟩ := @recvOut_writes π env { s with requests := s.requests.eraseIdx k }
      { request.2 with body := body }
    have hout : outstanding
        ({ s with requests := s.requests.eraseIdx k }.recvOut env { request.2 with body := body }) =
          outstanding { s with requests := s.requests.eraseIdx k } := by
      rw [hwrites]
      rfl
    dsimp only
    rw [hout]
    exact hafter

/-- The ids after the scan: those of the tasks that stay, those that had ended, and those of
the tasks that end now. -/
theorem scan_sendIds (s : NetState π) :
    sendIds (s.scanSendMapTimeouts env) =
      (s.sendMap.entries.filter fun entry => !s.waitsTooLong env entry.2).map
          (fun entry => entry.2.sendId) ++
        (s.ended.map OriginTask.sendId ++
          (s.sendMap.entries.filter fun entry =>
            s.waitsTooLong env entry.2 && entry.2.hasContainer).map fun entry => entry.2.sendId) := by
  have hended : ((((s.sendMap.entries.map Prod.snd).filter fun origin =>
        s.waitsTooLong env origin && origin.hasContainer).map fun origin =>
          { origin with returnCode := kNetworkTimeoutRC }).map OriginTask.sendId) =
      (s.sendMap.entries.filter fun entry =>
        s.waitsTooLong env entry.2 && entry.2.hasContainer).map fun entry => entry.2.sendId := by
    rw [List.filter_map, List.map_map, List.map_map]
    rfl
  rw [← hended]
  simp [sendIds, scanSendMapTimeouts, AMap.filter]

theorem scan_ids (h : (sendIds s).Nodup) :
    (sendIds (s.scanSendMapTimeouts env)).Nodup ∧
      ∀ id ∈ sendIds (s.scanSendMapTimeouts env), id ∈ sendIds s := by
  obtain ⟨hmap, hended, hapart⟩ := List.nodup_append.mp h
  have hkept : ∀ p : UInt64 × OriginTask π → Bool, ∀ id ∈ (s.sendMap.entries.filter p).map
      (fun entry => entry.2.sendId), id ∈ s.sendMap.entries.map fun entry => entry.2.sendId :=
    fun p id hid => (List.filter_sublist.map _).mem hid
  rw [scan_sendIds]
  refine ⟨?_, ?_⟩
  · refine List.nodup_append.mpr ⟨hmap.sublist (List.filter_sublist.map _), ?_, ?_⟩
    · refine List.nodup_append.mpr ⟨hended, hmap.sublist (List.filter_sublist.map _), ?_⟩
      intro id hid id' hid' heq
      exact hapart id' (hkept _ id' hid') id hid heq.symm
    · intro id hid id' hid' heq
      rcases List.mem_append.mp hid' with hid' | hid'
      · exact hapart id (hkept _ id hid) id' hid' heq
      · -- An entry that stays is not one that is ended.
        obtain ⟨entry, hentry, rfl⟩ := List.mem_map.mp hid
        obtain ⟨entry', hentry', rfl⟩ := List.mem_map.mp hid'
        have hsame := List.inj_on_of_nodup_map hmap (List.mem_filter.mp hentry).1
          (List.mem_filter.mp hentry').1 heq
        subst hsame
        have hstays := (List.mem_filter.mp hentry).2
        have hends := (List.mem_filter.mp hentry').2
        simp_all
  · intro id hid
    rcases List.mem_append.mp hid with hid | hid
    · exact List.mem_append_left _ (hkept _ id hid)
    · rcases List.mem_append.mp hid with hid | hid
      · exact List.mem_append_right _ hid
      · exact List.mem_append_left _ (hkept _ id hid)

theorem scan_books (h : Books s (outstanding s) settled) (hwaiting : Waiting s) :
    Books (s.scanSendMapTimeouts env) (outstanding (s.scanSendMapTimeouts env)) settled ∧
      Waiting (s.scanSendMapTimeouts env) := by
  have hsub : ∀ key o, (key, o) ∈ (s.scanSendMapTimeouts env).sendMap.entries →
      (key, o) ∈ s.sendMap.entries := fun key o ho => (AMap.mem_filter.mp ho).1
  obtain ⟨hids, hold⟩ := @scan_ids π env s h.ids
  refine ⟨⟨h.tags, ?_, ?_, ?_, hids, ?_, h.tagsBelow⟩, ?_⟩
  · exact fun key o ho => h.current key o (hsub key o ho)
  · exact fun key o ho => h.complete key o (hsub key o ho)
  · exact fun key o ho => h.sent key o (hsub key o ho)
  · exact fun id hid => h.idsBelow id (hold id hid)
  · exact fun key o ho => hwaiting key o (hsub key o ho)

/-! ### `SendIn` -/

theorem setDead_getHost (ipc : IpcManager) (now : Time) (node other : Node) :
    ((ipc.setDead now node).getHost other).isSome = (ipc.getHost other).isSome := by
  rw [IpcManager.setDead]
  cases hfind : ipc.hostfileMap.find? node with
  | none => rfl
  | some host =>
    dsimp only
    split
    · rfl
    · simp only [IpcManager.setNodeState, hfind, IpcManager.getHost]
      by_cases hother : other = node
      · rw [hother, AMap.find?_insertOrAssign_self, hfind]
        rfl
      · rw [AMap.find?_insertOrAssign_of_ne _ _ hother]

/-- So many replicas of the task under an address are still to come. -/
def dueAt (addr : UInt64) (remaining : Nat) : UInt64 → Nat :=
  fun key => if key = addr then remaining else 0

/-- `SendIn` of a task under an address has come to replica `i`. -/
structure Sending (s : NetState π) (addr : UInt64) (task : Outgoing π) (i remaining : Nat) :
    Prop where
  books : Books s (outstanding s) (dueAt addr remaining)
  origin : ∃ origin, s.sendMap.find? addr = some origin ∧ origin.poolId = task.poolId ∧
    origin.poolQuery = task.poolQuery ∧ origin.subtasks.length = i + remaining ∧
    ∀ x ∈ s.counted ++ (outstanding s).map tag, x.1 = origin.sendId → x.2.toNat < i

/-- The query leads to a node that is known. -/
def Routable (env : Env π) (ipc : IpcManager) (task : Outgoing π) (query : PoolQuery) : Prop :=
  ∃ target, (start ipc : NetState π).targetNodeId env task.poolId query = some target ∧
    (ipc.getHost target).isSome

section

variable {addr : UInt64} {task : Outgoing π} {i remaining : Nat} {query : PoolQuery}

theorem sendInReplica_sending (h : Sending s addr task i (remaining + 1))
    (hroute : Routable env s.ipc task query) (hi : i < 2 ^ 32) :
    Sending (s.sendInReplica env addr i query) addr task (i + 1) remaining := by
  obtain ⟨origin, hfind, hpool, hquery, hlength, hfresh⟩ := h.origin
  obtain ⟨target, htarget, hhost⟩ := hroute
  have htarget : s.targetNodeId env origin.poolId query = some target := by
    rw [hpool]
    exact htarget
  have hcases := sendInReplica_cases (i := i) hfind htarget hhost
  revert hcases
  generalize hcopy : s.newCopyTask addr origin i query = copy
  intro hcases
  have hkey : copy.netKey = addr := by rw [← hcopy]; rfl
  have htag : tag copy = (origin.sendId, UInt32.ofNat i) := by rw [← hcopy]; rfl
  have hnew : tag copy ∉ s.counted ++ (outstanding s).map tag := by
    intro hmem
    have hlt := hfresh (tag copy) hmem (by rw [htag])
    rw [htag, UInt32.toNat_ofNat_of_lt' hi] at hlt
    omega
  subst hkey
  -- The copy is noted in the task first; until the end of the step it counts as outstanding.
  have hbooks : Books (s.setSubtask copy.netKey origin i copy) (copy :: outstanding s)
      (dueAt copy.netKey remaining) := by
    have hassigned := AMap.assigned_insertOrAssign s.sendMap copy.netKey
      { origin with subtasks := origin.subtasks.set i (some copy) }
    refine h.books.request hfind htag hi (by omega) (by rfl) (by rfl) (by rfl) hnew ?_ ?_
      hassigned rfl rfl rfl
    · simp [dueAt]
    · intro key hne
      simp [dueAt, hne]
  have hadded : ∀ s' : NetState π,
      (s'.counted ++ (outstanding s').map tag).Perm
        (tag copy :: (s.counted ++ (outstanding s).map tag)) →
      ∀ x ∈ s'.counted ++ (outstanding s').map tag, x.1 = origin.sendId → x.2.toNat < i + 1 := by
    intro s' hperm x hx hid
    rcases List.mem_cons.mp (hperm.mem_iff.mp hx) with rfl | hx
    · rw [htag, UInt32.toNat_ofNat_of_lt' hi]
      omega
    · have hlt := hfresh x hx hid
      omega
  have hlength' : (origin.subtasks.set i (some copy)).length = i + 1 + remaining := by
    rw [List.length_set]
    omega
  rcases hcases with heq | ⟨ipc, _, heq⟩ | ⟨_, _, heq⟩
  · rw [heq]
    have hperm : (copy :: outstanding s).Perm (outstanding
        { s.setSubtask copy.netKey origin i copy with
          requests := s.requests ++ [(target, copy)] }) := by
      simp only [outstanding, List.map_append, List.map_singleton, List.append_assoc]
      exact List.perm_middle.symm
    refine ⟨(hbooks.perm hperm).frame rfl rfl rfl rfl,
      ⟨_, AMap.find?_insertOrAssign_self _ _ _, hpool, hquery, hlength', ?_⟩⟩
    refine hadded _ (((hperm.map tag).symm.append_left _).trans ?_)
    exact List.perm_middle
  · rw [heq]
    have hperm : (copy :: outstanding s).Perm (outstanding
        { s.setSubtask copy.netKey origin i copy with
          ipc := ipc, sendInRetry := s.sendInRetry ++ [⟨copy, target, env.now⟩] }) := by
      simp only [outstanding, List.map_append, List.map_singleton]
      rw [← List.append_assoc]
      exact (List.perm_append_singleton _ _).symm
    refine ⟨(hbooks.perm hperm).frame rfl rfl rfl rfl,
      ⟨_, AMap.find?_insertOrAssign_self _ _ _, hpool, hquery, hlength', ?_⟩⟩
    refine hadded _ (((hperm.map tag).symm.append_left _).trans ?_)
    exact List.perm_middle
  · rw [heq]
    have hself : (s.setSubtask copy.netKey origin i copy).sendMap.find? copy.netKey =
        some { origin with subtasks := origin.subtasks.set i (some copy) } :=
      AMap.find?_insertOrAssign_self _ _ _
    have hcount := countReplica_books hbooks
    rw [countReplica, hself] at hcount ⊢
    refine ⟨hcount, ⟨_, AMap.find?_insertOrAssign_self _ _ _, hpool, hquery, hlength', ?_⟩⟩
    refine hadded _ ?_
    rw [htag]
    show ((s.counted ++ [(origin.sendId, copy.replicaId)]) ++ (outstanding s).map tag).Perm _
    have hreplica : copy.replicaId = UInt32.ofNat i := congrArg Prod.snd htag
    rw [hreplica, List.append_assoc, List.singleton_append]
    exact List.perm_middle

/-- What is outstanding stays so, and no other task is touched. -/
theorem sendInReplica_keeps (h : Sending s addr task i (remaining + 1))
    (hroute : Routable env s.ipc task query) :
    (∀ t ∈ outstanding s, t ∈ outstanding (s.sendInReplica env addr i query)) ∧
      (∀ key origin, (key, origin) ∈ (s.sendInReplica env addr i query).sendMap.entries →
        key = addr ∨ (key, origin) ∈ s.sendMap.entries) ∧
      (∀ node, ((s.sendInReplica env addr i query).ipc.getHost node).isSome =
        (s.ipc.getHost node).isSome) ∧
      (s.sendInReplica env addr i query).ipc.nodeId = s.ipc.nodeId ∧
      ((∃ t ∈ outstanding (s.sendInReplica env addr i query), t.netKey = addr) ∨
        (failsImmediately task.poolQuery = true ∧
          (∀ target, (start s.ipc : NetState π).targetNodeId env task.poolId query = some target →
            s.ipc.isAlive target = false) ∧
          (s.sendInReplica env addr i query).ipc = s.ipc)) := by
  obtain ⟨origin, hfind, hpool, hquery, hlength, hfresh⟩ := h.origin
  obtain ⟨target, htarget, hhost⟩ := hroute
  have htarget' : s.targetNodeId env origin.poolId query = some target := by
    rw [hpool]
    exact htarget
  have hset : ∀ key o, (key, o) ∈ (s.setSubtask addr origin i
      (s.newCopyTask addr origin i query)).sendMap.entries →
      key = addr ∨ (key, o) ∈ s.sendMap.entries := by
    intro key o ho
    rcases AMap.mem_insertOrAssign.mp ho with ⟨hkey, _⟩ | ⟨_, ho⟩
    · exact Or.inl hkey
    · exact Or.inr ho
  rcases sendInReplica_cases (i := i) hfind htarget' hhost with heq | ⟨ipc, hipc, heq⟩ |
    ⟨hdead, hfail, heq⟩
  · rw [heq]
    refine ⟨?_, hset, fun _ => rfl, rfl, Or.inl ⟨s.newCopyTask addr origin i query, ?_, rfl⟩⟩
    · intro t ht
      simp only [outstanding, List.map_append, List.mem_append] at ht ⊢
      exact ht.imp Or.inl id
    · simp [outstanding]
  · rw [heq]
    refine ⟨?_, hset, ?_, ?_, Or.inl ⟨s.newCopyTask addr origin i query, ?_, rfl⟩⟩
    · intro t ht
      simp only [outstanding, List.map_append, List.mem_append] at ht ⊢
      exact ht.imp id Or.inl
    · rcases hipc with rfl | rfl
      · exact fun _ => rfl
      · exact fun node => setDead_getHost s.ipc env.now target node
    · rcases hipc with rfl | rfl
      · rfl
      · exact setDead_nodeId s.ipc env.now target
    · simp [outstanding]
  · rw [heq]
    have hself : (s.setSubtask addr origin i (s.newCopyTask addr origin i query)).sendMap.find? addr =
        some { origin with
          subtasks := origin.subtasks.set i (some (s.newCopyTask addr origin i query)) } :=
      AMap.find?_insertOrAssign_self _ _ _
    rw [countReplica, hself]
    refine ⟨fun _ ht => ht, ?_, fun _ => rfl, rfl, Or.inr ⟨hquery ▸ hfail, ?_, rfl⟩⟩
    · intro key o ho
      rcases AMap.mem_insertOrAssign.mp ho with ⟨hkey, _⟩ | ⟨_, ho⟩
      · exact Or.inl hkey
      · exact hset key o ho
    · intro target' htarget''
      rw [htarget, Option.some.injEq] at htarget''
      rw [← htarget'']
      exact hdead

theorem Routable.mono {ipc ipc' : IpcManager} (h : Routable env ipc task query)
    (hhost : ∀ node, (ipc'.getHost node).isSome = (ipc.getHost node).isSome)
    (hnode : ipc'.nodeId = ipc.nodeId) : Routable env ipc' task query := by
  obtain ⟨target, htarget, hknown⟩ := h
  refine ⟨target, ?_, by rw [hhost]; exact hknown⟩
  rw [← htarget]
  simp only [targetNodeId, start, hnode]

/-- A copy for this query will be sent or queued. -/
def Sends (env : Env π) (ipc : IpcManager) (task : Outgoing π) (query : PoolQuery) : Prop :=
  failsImmediately task.poolQuery = false ∨
    ∃ target, (start ipc : NetState π).targetNodeId env task.poolId query = some target ∧
      ipc.isAlive target = true

theorem sendInLoop_sending (queries : List PoolQuery) (i : Nat) (s : NetState π)
    (h : Sending s addr task i queries.length)
    (hroute : ∀ query ∈ queries, Routable env s.ipc task query)
    (hbound : i + queries.length ≤ 2 ^ 32) :
    Sending (sendInLoop env addr i queries s) addr task (i + queries.length) 0 ∧
      (∀ t ∈ outstanding s, t ∈ outstanding (sendInLoop env addr i queries s)) ∧
      (∀ key origin, (key, origin) ∈ (sendInLoop env addr i queries s).sendMap.entries →
        key = addr ∨ (key, origin) ∈ s.sendMap.entries) ∧
      ((∃ query ∈ queries, Sends env s.ipc task query) →
        ∃ t ∈ outstanding (sendInLoop env addr i queries s), t.netKey = addr) := by
  induction queries generalizing i s with
  | nil => exact ⟨h, fun _ ht => ht, fun _ _ ho => Or.inr ho, by simp⟩
  | cons query queries ih =>
    rw [List.length_cons] at h hbound
    have hfirst := hroute query (by simp)
    obtain ⟨hkeeps, hkeys, hhost, hnode, hdone⟩ := sendInReplica_keeps h hfirst
    obtain ⟨hsending, hkeeps', hkeys', hopen⟩ := ih (i + 1) (s.sendInReplica env addr i query)
      (sendInReplica_sending h hfirst (by omega))
      (fun q hq => (hroute q (List.mem_cons_of_mem _ hq)).mono hhost hnode) (by omega)
    rw [sendInLoop]
    refine ⟨?_, fun t ht => hkeeps' t (hkeeps t ht), ?_, ?_⟩
    · rw [List.length_cons, show i + (queries.length + 1) = i + 1 + queries.length by omega]
      exact hsending
    · intro key origin ho
      rcases hkeys' key origin ho with hkey | ho
      · exact Or.inl hkey
      · exact hkeys key origin ho
    · rintro ⟨q, hq, hsends⟩
      rcases hdone with ⟨t, ht, hkey⟩ | ⟨hfail, hdead, hipc⟩
      · exact ⟨t, hkeeps' t ht, hkey⟩
      · -- A replica that was skipped left the host table as it was.
        refine hopen ⟨q, ?_, by rw [hipc]; exact hsends⟩
        rcases List.mem_cons.mp hq with rfl | hq
        · rcases hsends with hno | ⟨target, htarget, halive⟩
          · rw [hfail] at hno
            exact absurd hno (by decide)
          · rw [hdead target htarget] at halive
            exact absurd halive (by decide)
        · exact hq

/-- A task enters `send_map_` under an address that nothing outstanding carries. -/
theorem addOrigin_sending (h : Books s (outstanding s) settled) (hfree : s.sendMap.find? addr = none)
    (hclean : ∀ t ∈ outstanding s, t.netKey ≠ addr) :
    Sending (s.addOrigin addr task) addr task 0 task.poolQueries.length := by
  have hids : (sendIds (s.addOrigin addr task)).Perm (s.nextSend :: sendIds s) := by
    have hnew := (AMap.insertOrAssign_perm s.sendMap addr
      (⟨task.poolId, task.poolQuery, task.body, 0, task.poolQueries,
        List.replicate task.poolQueries.length none, 0, task.hasContainer, s.nextSend⟩ :
          OriginTask π)).map (fun entry => entry.2.sendId)
    rw [AMap.erase_entries_of_find_none hfree] at hnew
    exact hnew.append_right _
  have hfreshId : s.nextSend ∉ sendIds s := fun hmem => Nat.lt_irrefl _ (h.idsBelow _ hmem)
  refine ⟨⟨h.tags, ?_, ?_, ?_, ?_, ?_, ?_⟩, _, AMap.find?_insertOrAssign_self _ _ _, rfl, rfl, ?_, ?_⟩
  · intro key o ho t ht hkey
    rcases AMap.mem_insertOrAssign.mp ho with ⟨rfl, _⟩ | ⟨_, ho⟩
    · exact absurd hkey (hclean t ht)
    · exact h.current key o ho t ht hkey
  · intro key o ho
    rcases AMap.mem_insertOrAssign.mp ho with ⟨rfl, rfl⟩ | ⟨hne, ho⟩
    · have hzero : (outstanding s).countP (fun t => t.netKey = key) = 0 := by
        rw [List.countP_eq_zero]
        intro t ht
        simpa using hclean t ht
      show 0 + (outstanding s).countP (fun t => t.netKey = key) + _ = _
      rw [hzero, List.length_replicate]
      simp [dueAt]
    · have hcomplete := h.complete key o ho
      have hzero : dueAt addr task.poolQueries.length key = 0 := by simp [dueAt, hne]
      rw [hzero]
      exact hcomplete
  · intro key o ho t ht hkey
    rcases AMap.mem_insertOrAssign.mp ho with ⟨rfl, _⟩ | ⟨_, ho⟩
    · exact absurd hkey (hclean t ht)
    · exact h.sent key o ho t ht hkey
  · exact hids.nodup_iff.mpr (List.nodup_cons.mpr ⟨hfreshId, h.ids⟩)
  · intro id hmem
    show id < s.nextSend + 1
    rcases List.mem_cons.mp (hids.mem_iff.mp hmem) with rfl | hmem
    · omega
    · have hlt := h.idsBelow id hmem
      omega
  · intro x hx
    show x.1 < s.nextSend + 1
    have hlt := h.tagsBelow x hx
    omega
  · rw [List.length_replicate, Nat.zero_add]
  · intro x hx hid
    have hlt := h.tagsBelow x hx
    have hid : x.1 = s.nextSend := hid
    omega

theorem sendIn_books (h : Books s (outstanding s) settled) (hwaiting : Waiting s)
    (hpool : env.hasContainer task.poolId = true) (hfree : s.sendMap.find? addr = none)
    (hclean : ∀ t ∈ outstanding s, t.netKey ≠ addr)
    (hroute : ∀ query ∈ task.poolQueries, Routable env s.ipc task query)
    (hsends : ∃ query ∈ task.poolQueries, Sends env s.ipc task query)
    (hbound : task.poolQueries.length ≤ 2 ^ 32) :
    Books (s.sendIn env addr task) (outstanding (s.sendIn env addr task)) settled ∧
      Waiting (s.sendIn env addr task) := by
  rw [sendIn, if_pos hpool]
  obtain ⟨hdone, hkeeps, hkeys, hopen⟩ := sendInLoop_sending task.poolQueries 0
    (s.addOrigin addr task) (addOrigin_sending h hfree hclean) hroute (by omega)
  have hsettled : dueAt addr 0 = settled := by
    funext key
    simp [dueAt, settled]
  have hbooks := hdone.books
  rw [hsettled] at hbooks
  refine ⟨hbooks, (waiting_iff_open hbooks).mpr ?_⟩
  intro key o ho
  rcases hkeys key o ho with rfl | ho
  · exact hopen hsends
  · rcases AMap.mem_insertOrAssign.mp ho with ⟨rfl, _⟩ | ⟨_, ho⟩
    · exact hopen hsends
    · obtain ⟨t, ht, hkey⟩ := (waiting_iff_open h).mp hwaiting key o ho
      exact ⟨t, hkeeps t ht, hkey⟩

end

/-! ### Whole runs -/

/-- The steps that break no accounts. -/
def Accountable (s : NetState π) : NetOp π → Prop
  | .sendIn env addr task => env.hasContainer task.poolId = true →
      -- The task is a live object of its own, and has no more queries than the pool containers.
      (s.sendMap.find? addr = none ∧ task.poolQueries.length ≤ 2 ^ 32) ∧
        (∀ t ∈ outstanding s, t.netKey ≠ addr) ∧
        (∀ query ∈ task.poolQueries, Routable env s.ipc task query) ∧
        ∃ query ∈ task.poolQueries, Sends env s.ipc task query
  | .reply env k _ => ∀ request, s.requests[k]? = some request → ∀ origin,
      s.sendMap.find? request.2.netKey = some origin → env.hasContainer origin.poolId = true
  | .recvIn _ task => task.poolQuery.retNode.toUInt64 ≠ s.ipc.nodeId →
      s.ipc.getNodeState task.poolQuery.retNode.toUInt64 = .dead →
      ∀ key origin, (key, origin) ∈ s.sendMap.entries →
        ∃ t ∈ keptFor s task.poolQuery.retNode.toUInt64, t.netKey = key
  | .processRetryQueues env => ∀ entry ∈ s.sendInRetry, timedOut env entry = true →
      s.sendMap.find? entry.task.netKey = none
  | .finish _ _ _ | .scanSendMapTimeouts _ | .setNodeState _ _ _ | .setDead _ _ | .setAlive _ _ =>
    True

/-- The accounts of a node are in order, and none of its tasks is stranded. -/
def Kept (s : NetState π) : Prop := Books s (outstanding s) settled ∧ Waiting s

theorem kept_start (ipc : IpcManager) : Kept (start ipc : NetState π) := by
  refine ⟨⟨?_, ?_, ?_, ?_, ?_, ?_, ?_⟩, ?_⟩
  all_goals simp [start, outstanding, sendIds, Waiting, AMap.empty]

theorem revive_kept {sender : Node} (h : Kept s)
    (hopen : sender ≠ s.ipc.nodeId → s.ipc.getNodeState sender = .dead →
      ∀ key origin, (key, origin) ∈ s.sendMap.entries → ∃ t ∈ keptFor s sender, t.netKey = key) :
    Kept (s.revive env sender) := by
  have hbooks := @revive_books π env s h.1 sender
  refine ⟨hbooks, (waiting_iff_open hbooks).mpr ?_⟩
  rw [revive]
  split
  · rename_i hdead
    intro key o ho
    obtain ⟨origin, hmem, _⟩ := countAll_origins _ s ho
    obtain ⟨t, ht, hkey⟩ := hopen hdead.1 hdead.2 key origin hmem
    refine ⟨t, ?_, hkey⟩
    show t ∈ outstanding (s.flushStaleStateForNode sender)
    rw [flush_outstanding]
    exact ht
  · exact (waiting_iff_open h.1).mp h.2

theorem kept_apply {op : NetOp π} (h : Kept s) (hop : Accountable s op) : Kept (s.apply op) := by
  cases op with
  | sendIn env addr task =>
    by_cases hpool : env.hasContainer task.poolId = true
    · obtain ⟨⟨hfree, hbound⟩, hclean, hroute, hsends⟩ := hop hpool
      exact sendIn_books h.1 h.2 hpool hfree hclean hroute hsends hbound
    · rw [apply, sendIn, if_neg hpool]
      exact h
  | reply env k body => exact reply_books h.1 h.2 hop
  | recvIn env task =>
    rw [apply, recvIn]
    split
    · have hrevived := @revive_kept π env s _ h hop
      exact ⟨hrevived.1.frame rfl rfl rfl rfl, hrevived.2⟩
    · exact h
  | finish env i body =>
    obtain ⟨_, _, _, _, _, hwrites, _⟩ := @finish_writes π env s i body
    rw [apply, hwrites]
    exact ⟨h.1.frame rfl rfl rfl rfl, h.2⟩
  | processRetryQueues env =>
    refine ⟨processRetryQueues_books h.1 ?_, ?_⟩
    · intro t ht
      obtain ⟨entry, hentry, rfl⟩ := List.mem_map.mp ht
      obtain ⟨hmem, htime⟩ := List.mem_filter.mp hentry
      exact hop entry hmem htime
    · obtain ⟨_, _, _, _, hloop⟩ := @retryOut_writes π env (2 * s.sendOutRetry.length + 1) 0 0
        (s.retriesIn env)
      intro key o ho
      have ho : (key, o) ∈ (retryOut env (2 * s.sendOutRetry.length + 1) 0 0
        (s.retriesIn env)).sendMap.entries := ho
      rw [hloop] at ho
      exact h.2 key o ho
  | scanSendMapTimeouts env => exact scan_books h.1 h.2
  | setNodeState now node state => exact ⟨h.1.frame rfl rfl rfl rfl, h.2⟩
  | setDead now node => exact ⟨h.1.frame rfl rfl rfl rfl, h.2⟩
  | setAlive now node => exact ⟨h.1.frame rfl rfl rfl rfl, h.2⟩

/-- Every task in `send_map_` has a replica that may still be answered, no task was ended twice
and no replica counted twice. -/
structure Accounted (s : NetState π) : Prop where
  pending : ∀ key origin, (key, origin) ∈ s.sendMap.entries →
    ∃ t ∈ outstanding s, t.netKey = key ∧ t.sendId = origin.sendId
  ended : (s.ended.map OriginTask.sendId).Nodup
  counted : s.counted.Nodup

/-- **The accounts hold in every run whose steps are accountable.** -/
theorem accounted_of_run (ipc : IpcManager) (ops : List (NetOp π))
    (hrun : Along (fun op s s' => Accountable s op ∧ s' = s.apply op) ops (start ipc) s) :
    Accounted s := by
  have hkept : Kept s := by
    refine hrun.invariant ?_ (kept_start ipc)
    rintro op _ s s' hs ⟨hop, rfl⟩
    exact kept_apply hs hop
  refine ⟨?_, (List.nodup_append.mp hkept.1.ids).2.1, (List.nodup_append.mp hkept.1.tags).1⟩
  intro key origin hmem
  obtain ⟨t, ht, hkey⟩ := (waiting_iff_open hkept.1).mp hkept.2 key origin hmem
  exact ⟨t, ht, hkey, hkept.1.current key origin hmem t ht hkey⟩

/-- The first task is answered.  The second waits for a dead node until it times out, and so
does its request in the queue.  The third is sent after the node came back. -/
def threeTasks : List (NetOp Unit) :=
  let later : Env Unit := { fairEnv with now := 31000000000 }
  [.sendIn fairEnv 0x1000 (taskFor 1), .reply fairEnv 0 (), .setDead 0 1,
    .sendIn fairEnv 0x2000 (taskFor 1), .scanSendMapTimeouts later, .processRetryQueues later,
    .setAlive 31000000000 1, .sendIn later 0x3000 (taskFor 1)]

theorem accountable_taskFor {s : NetState Unit} {env : Env Unit} {addr : UInt64}
    (hfree : s.sendMap.find? addr = none) (hclean : ∀ t ∈ outstanding s, t.netKey ≠ addr)
    (hhost : (s.ipc.getHost 1).isSome) : Accountable s (.sendIn env addr (taskFor 1)) := by
  intro _
  have hquery : ∀ query ∈ (taskFor 1).poolQueries,
      query = { PoolQuery.localQuery with routingMode := .physical, nodeId := 1 } :=
    fun query hquery => List.mem_singleton.mp hquery
  refine ⟨⟨hfree, by decide⟩, hclean, ?_, ?_⟩
  · intro query hmem
    rw [hquery query hmem]
    exact ⟨1, rfl, hhost⟩
  · exact ⟨_, List.mem_singleton.mpr rfl, Or.inl (by decide +kernel)⟩

theorem accounted_threeTasks :
    let s := threeTasks.foldl apply (start twoNodes)
    Accounted s ∧ s.sendMap.entries.map (fun e => (e.1, e.2.sendId)) = [(0x3000, 2)] ∧
      s.ended.map (fun origin => (origin.sendId, origin.returnCode)) = [(0, 0), (1, -1000)] ∧
      s.counted = [(0, 0)] := by
  refine ⟨accounted_of_run twoNodes threeTasks ⟨_, ⟨accountable_taskFor ?_ ?_ ?_, rfl⟩, _, ⟨?_, rfl⟩, _,
    ⟨trivial, rfl⟩, _, ⟨accountable_taskFor ?_ ?_ ?_, rfl⟩, _, ⟨trivial, rfl⟩, _, ⟨?_, rfl⟩, _,
    ⟨trivial, rfl⟩, _, ⟨accountable_taskFor ?_ ?_ ?_, rfl⟩, rfl⟩, by decide +kernel,
    by decide +kernel, by decide +kernel⟩
  case refine_4 => exact fun _ _ _ _ => rfl
  case refine_8 =>
    intro entry _ _
    exact (AMap.find?_empty _ : (AMap.empty : AMap UInt64 (OriginTask Unit)).find? _ = none)
  all_goals decide +kernel

/-- A task for a node that is not in the host table waits in `send_map_`, and nothing is
outstanding for it. -/
theorem stranded :
    ∃ origin, ((start twoNodes).apply (.sendIn fairEnv 0x1000 (taskFor 7))).sendMap.entries =
        [(0x1000, origin)] ∧
      outstanding ((start twoNodes).apply (.sendIn fairEnv 0x1000 (taskFor 7))) = [] :=
  ⟨_, rfl, rfl⟩

end NetState
end Cluster
end IowarpCore
